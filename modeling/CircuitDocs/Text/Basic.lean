import CircuitDocs.Text.Class

/-! # Text

Text is a list of code points. This module has the operations that every part of the linter shares:
trimming, collapsing of white space, cutting into lines, and cutting at a literal or at a
condition on what follows.
-/

namespace CircuitDocs

abbrev Text := List Char

namespace Text

def trimLeft (t : Text) : Text := t.dropWhile isBlank

def trimRight (t : Text) : Text := (t.reverse.dropWhile isBlank).reverse

def trim (t : Text) : Text := trimRight (trimLeft t)

def blank (t : Text) : Bool := t.all isBlank

/-- The maximal runs of characters that are not blank. -/
def words (t : Text) : List Text := (t.splitOnP isBlank).filter (!·.isEmpty)

def collapse (t : Text) : Text := [' '].intercalate (words t)

/-- The lines of a text; a line ends only at a line feed. -/
def lines (t : Text) : List Text := t.splitOn '\n'

def unlines (ls : List Text) : Text := ['\n'].intercalate ls

/-- What follows `w` in a text that begins with it. -/
def after? : Text → Text → Option Text
  | [], t => some t
  | _ :: _, [] => none
  | c :: w, d :: t => if c = d then after? w t else none

/-- What precedes `w` in a text that ends with it. -/
def before? (w t : Text) : Option Text := (after? w.reverse t.reverse).map List.reverse

/-- The first answer of `read` at a place of the text, from the front to the very end. -/
def first? {α : Type} (read : Text → Option α) : Text → Option α
  | [] => read []
  | c :: t =>
    match read (c :: t) with
    | some a => some a
    | none => first? read t

/-- The part before the first place from where the text satisfies `stop`. -/
def takeUntil (stop : Text → Bool) : Text → Text
  | [] => []
  | c :: t => if stop (c :: t) then [] else c :: takeUntil stop t

/-- The part from the first place on where the text satisfies `stop`. -/
def dropUntil (stop : Text → Bool) : Text → Text
  | [] => []
  | c :: t => if stop (c :: t) then c :: t else dropUntil stop t

/-- Whether a name that ended just before `t` is complete. -/
def wordEnds : Text → Bool
  | [] => true
  | c :: _ => !isWord c

@[simp] theorem takeUntil_append_dropUntil (stop : Text → Bool) (t : Text) :
    takeUntil stop t ++ dropUntil stop t = t := by
  induction t with
  | nil => rfl
  | cons c t ih =>
    rw [takeUntil, dropUntil]
    split <;> simp [ih]

theorem length_dropUntil_le (stop : Text → Bool) (t : Text) :
    (dropUntil stop t).length ≤ t.length := by
  have h := congrArg List.length (takeUntil_append_dropUntil stop t)
  rw [List.length_append] at h
  omega

theorem after?_eq_some_iff {w t r : Text} : after? w t = some r ↔ t = w ++ r := by
  induction w generalizing t with
  | nil => simp [after?]
  | cons c w ih =>
    cases t with
    | nil => simp [after?]
    | cons d t =>
      rw [after?]
      split
      · subst_vars; simp [ih]
      · simp [Ne.symm ‹_›]

def decimal : Int → Text
  | .ofNat n => Nat.toDigits 10 n
  | .negSucc n => '-' :: Nat.toDigits 10 (n + 1)

end Text

/-! ## Line ends of files

Files may end their lines in several ways. Reading a file makes each of `CR LF` and `CR` a line
feed. Ignore files are then cut at every character that counts as a line boundary.
-/

namespace LineEnd

def unify : Text → Text
  | [] => []
  | '\r' :: '\n' :: t => '\n' :: unify t
  | c :: t => (if c = '\r' then '\n' else c) :: unify t

/-- The characters that end a line, in text with unified line ends. -/
def isBoundary (c : Char) : Bool :=
  inRanges [(0x000A, 0x000C), (0x001C, 0x001E), (0x0085, 0x0085), (0x2028, 0x2029)] c.toNat

/-- The lines between boundaries; what follows the last boundary is a line unless it is empty. -/
def split (t : Text) : List Text :=
  let ls := t.splitOnP isBoundary
  if ls.getLast? = some [] then ls.dropLast else ls

end LineEnd

end CircuitDocs
