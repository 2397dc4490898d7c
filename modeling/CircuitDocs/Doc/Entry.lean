import CircuitDocs.Doc.Basic
import CircuitDocs.Doc.Section

/-! # Parameter, failure and result entries

Entries with a type in braces. Parameters and failures may come any number of times and are read
from left to right, each from where the one before it ended; malformed entries are passed over.
-/

namespace CircuitDocs

open Text

/-- Reads an item at the front of a text and gives back what follows it, which is shorter. -/
structure Reader (α : Type) where
  read : Text → Option (α × Text)
  shorter : ∀ {t : Text} {a : α} {r : Text}, read t = some (a, r) → r.length < t.length

namespace Reader

variable {α : Type}

/-- All items of a text, from left to right and without overlap. -/
def all (R : Reader α) : Text → List α
  | [] => []
  | c :: t =>
    match _h : R.read (c :: t) with
    | some (a, r) => a :: R.all r
    | none => R.all t
termination_by t => t.length
decreasing_by
  · exact R.shorter _h
  · simp

end Reader

namespace Entry

def braced? : Text → Option (Text × Text)
  | '{' :: t =>
    match t.dropWhile (· ≠ '}') with
    | _ :: rest => some (t.takeWhile (· ≠ '}'), rest)
    | [] => none
  | _ => none

/-- A type in braces after at least one pad, and what follows it. The braces are not empty. -/
def type? : Text → Option (Text × Text)
  | c :: t =>
    if isPad c then
      match braced? (t.dropWhile isPad) with
      | some (type, rest) => if type.isEmpty then none else some (type, rest)
      | none => none
    else none
  | [] => none

/-- Without the pads at the front and the one dash that may stand among them. -/
def undashed (t : Text) : Text :=
  match t.dropWhile isPad with
  | '-' :: rest => rest.dropWhile isPad
  | rest => rest

theorem length_dropWhile_le (p : Char → Bool) (t : Text) : (t.dropWhile p).length ≤ t.length :=
  (List.dropWhile_suffix p).length_le

theorem length_undashed_le (t : Text) : (undashed t).length ≤ t.length := by
  have h := length_dropWhile_le isPad t
  unfold undashed
  split
  · rename_i rest heq
    have := length_dropWhile_le isPad rest
    rw [heq, List.length_cons] at h
    omega
  · exact h

theorem length_lt_of_braced? {t type rest : Text} (h : braced? t = some (type, rest)) :
    rest.length < t.length := by
  unfold braced? at h
  split at h
  · rename_i t
    split at h
    · rename_i c r heq
      have := length_dropWhile_le (· ≠ '}') t
      rw [heq, List.length_cons] at this
      grind
    · simp at h
  · simp at h

theorem length_lt_of_type? {t type rest : Text} (h : type? t = some (type, rest)) :
    rest.length < t.length := by
  unfold type? at h
  split at h
  · rename_i c t
    split at h
    · split at h
      · rename_i heq
        have := length_lt_of_braced? heq
        have := length_dropWhile_le isPad t
        grind
      · simp at h
    · simp at h
  · simp at h

/-- A parameter entry: type in braces, name, an optional dash, and the rest of the section. -/
def param? (t : Text) : Option (Doc.Param × Text) :=
  match after? "@param".toList t with
  | some t =>
    match type? t with
    | some (type, t) =>
      let name := (t.dropWhile isPad).takeWhile isWord
      let t := undashed ((t.dropWhile isPad).dropWhile isWord)
      if name.isEmpty then none
      else some (⟨name, trim type, collapse (sectionBody t)⟩, sectionRest t)
    | none => none
  | none => none

def throws? (t : Text) : Option (Doc.Throws × Text) :=
  match after? "@throws".toList t with
  | some t =>
    match type? t with
    | some (type, t) =>
      let t := t.dropWhile isPad
      some (⟨trim type, collapse (sectionBody t)⟩, sectionRest t)
    | none => none
  | none => none

theorem length_lt_of_param? {t : Text} {e : Doc.Param} {r : Text} (h : param? t = some (e, r)) :
    r.length < t.length := by
  unfold param? at h
  split at h
  · rename_i t' ha
    split at h
    · rename_i type t'' ht
      have h₁ := length_lt_of_type? ht
      have h₂ := length_dropWhile_le isPad t''
      have h₃ := length_dropWhile_le isWord (t''.dropWhile isPad)
      have h₄ := length_undashed_le ((t''.dropWhile isPad).dropWhile isWord)
      have h₅ := length_dropUntil_le (sectionEnds fun _ => true)
        (undashed ((t''.dropWhile isPad).dropWhile isWord))
      have h₆ := congrArg List.length (after?_eq_some_iff.1 ha)
      rw [List.length_append] at h₆
      simp only [Option.ite_none_left_eq_some, Option.some.injEq, Prod.mk.injEq] at h
      rw [← h.2.2, sectionRest]
      omega
    · simp at h
  · simp at h

theorem length_lt_of_throws? {t : Text} {e : Doc.Throws} {r : Text}
    (h : throws? t = some (e, r)) : r.length < t.length := by
  unfold throws? at h
  split at h
  · rename_i t' ha
    split at h
    · rename_i type t'' ht
      have h₁ := length_lt_of_type? ht
      have h₂ := length_dropWhile_le isPad t''
      have h₃ := length_dropUntil_le (sectionEnds fun _ => true) (t''.dropWhile isPad)
      have h₄ := congrArg List.length (after?_eq_some_iff.1 ha)
      rw [List.length_append] at h₄
      simp only [Option.some.injEq, Prod.mk.injEq] at h
      rw [← h.2, sectionRest]
      omega
    · simp at h
  · simp at h

def params : Reader Doc.Param := ⟨param?, length_lt_of_param?⟩

def throws : Reader Doc.Throws := ⟨throws?, length_lt_of_throws?⟩

/-- What follows a result tag, in either of its spellings. -/
def afterReturns? (t : Text) : Option Text :=
  match after? "@return".toList t with
  | some r =>
    let r := match r with
      | 's' :: r => r
      | r => r
    if wordEnds r then some r else none
  | none => none

/-- A result entry: a type in braces if there is one, an optional dash, and the rest of the
section. An entry with neither type nor text says nothing. -/
def returns (t : Text) : Option Doc.Returns :=
  let (type, t) := (braced? (t.dropWhile isPad)).getD ([], t)
  let returns : Doc.Returns := ⟨trim type, collapse (sectionBody (undashed t))⟩
  if returns.type.isEmpty && returns.description.isEmpty then none else some returns

def returns? (block : Text) : Option Doc.Returns :=
  match first? afterReturns? block with
  | some t => returns t
  | none => none

end Entry

/-! ## Blocks -/

def Doc.ofBlock (block : Text) : Doc where
  title := Tag.title.value? block
  description := Tag.description.value? block
  remarks := Tag.remarks.value? block
  circuitInfo := Tag.circuitInfo.value? block
  params := Entry.params.all block
  throws := Entry.throws.all block
  returns := Entry.returns? block

/-- The documentation that a comment holds; a blank comment holds none. -/
def Doc.ofComment (comment : Text) : Doc := Doc.ofBlock (Comment.plain comment)

end CircuitDocs
