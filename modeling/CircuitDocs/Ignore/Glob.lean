import CircuitDocs.Text.Basic

/-! # Globs

A glob is the pattern of one path segment: literal characters, `?`, `*` and bracket expressions. A
backslash takes the character after it literally, except between brackets.
-/

namespace CircuitDocs

namespace Glob

inductive Token where
  | exact (c : Char)
  | anyOne
  | anyRun
  | oneOf (negated : Bool) (ranges : List (Char × Char))
deriving DecidableEq, Repr

inductive Fault where
  | danglingEscape
  | openBracket
deriving DecidableEq, Repr

/-- The content of a bracket expression and what follows it. The content has a first character,
which may be a closing bracket, and then goes on to the next closing bracket. -/
def content? : Text → Option (Text × Text)
  | [] => none
  | c :: t =>
    match t.dropWhile (· ≠ ']') with
    | _ :: rest => some (c :: t.takeWhile (· ≠ ']'), rest)
    | [] => none

/-- The ranges of a bracket expression. A dash between two characters makes a range of them. -/
def ranges : Text → List (Char × Char)
  | a :: '-' :: b :: t => (a, b) :: ranges t
  | a :: t => (a, a) :: ranges t
  | [] => []

def bracket? (t : Text) : Option (Token × Text) :=
  match t with
  | '!' :: r => (content? r).map fun (inside, rest) => (.oneOf true (ranges inside), rest)
  | '^' :: r => (content? r).map fun (inside, rest) => (.oneOf true (ranges inside), rest)
  | r => (content? r).map fun (inside, rest) => (.oneOf false (ranges inside), rest)

theorem length_lt_of_content? {t inside rest : Text} (h : content? t = some (inside, rest)) :
    rest.length < t.length := by
  unfold content? at h
  split at h
  · simp at h
  · rename_i c t
    split at h
    · rename_i d r heq
      have := (List.dropWhile_suffix (l := t) (· ≠ ']')).length_le
      rw [heq, List.length_cons] at this
      grind
    · simp at h

theorem length_lt_of_bracket? {t : Text} {token : Token} {rest : Text}
    (h : bracket? t = some (token, rest)) : rest.length < t.length := by
  unfold bracket? at h
  split at h <;> simp only [Option.map_eq_some_iff, Prod.exists, Prod.mk.injEq] at h <;>
    obtain ⟨inside, r, hc, _, rfl⟩ := h <;> have := length_lt_of_content? hc <;> grind

def tokens : Text → Except Fault (List Token)
  | [] => .ok []
  | ['\\'] => .error .danglingEscape
  | '\\' :: c :: t => (tokens t).map (.exact c :: ·)
  | '*' :: t => (tokens t).map (.anyRun :: ·)
  | '?' :: t => (tokens t).map (.anyOne :: ·)
  | '[' :: t =>
    match _h : bracket? t with
    | some (token, rest) => (tokens rest).map (token :: ·)
    | none => .error .openBracket
  | c :: t => (tokens t).map (.exact c :: ·)
termination_by t => t.length
decreasing_by
  all_goals simp only [List.length_cons]
  · omega
  · omega
  · omega
  · have := length_lt_of_bracket? _h
    omega
  · omega

def Token.ordered : Token → Bool
  | oneOf _ ranges => ranges.all fun (a, b) => a ≤ b
  | _ => true

end Glob

end CircuitDocs
