import CircuitDocs.Circuit.Basic

/-! # Signatures

A declaration may run over several lines. Its text ends with the first line, at or after the one
that closes the parameter list, that has a colon or a brace.
-/

namespace CircuitDocs

open Text

/-! ## Matching parentheses

Depth is counted from zero, up at `(` and down at `)`. The match is the `)` at which the depth is
back at zero.
-/

namespace Paren

/-- How far ahead the depth falls to zero, starting at depth `d`. -/
def close? : Int → Text → Option Nat
  | _, [] => none
  | d, c :: t =>
    if c = '(' then (close? (d + 1) t).map (· + 1)
    else if c = ')' then
      if d = 1 then some 0 else (close? (d - 1) t).map (· + 1)
    else (close? d t).map (· + 1)

def match? (t : Text) (start : Int) : Option Nat :=
  if start < 0 then none
  else (close? 0 (t.drop start.toNat)).map (· + start.toNat)

/-- The text between the first parenthesis and its match, and the text after the match. -/
def enclosed? (t : Text) : Option (Text × Text) :=
  match t.findIdx? (· = '(') with
  | some i => (match? t i).map fun j => ((t.take j).drop (i + 1), t.drop (j + 1))
  | none => none

end Paren

/-! ## Parameter lists

A parameter list is cut at the commas outside angle brackets. Each piece that reads `name: Type`
is a parameter; every other piece is passed over.
-/

namespace Parameter

def angle (d : Int) (c : Char) : Int :=
  if c = '<' then d + 1 else if c = '>' then d - 1 else d

/-- The pieces between the commas at depth zero, starting at depth `d`. -/
def piecesFrom : Int → Text → List Text
  | _, [] => [[]]
  | d, c :: t =>
    if c = ',' ∧ d = 0 then [] :: piecesFrom d t
    else (piecesFrom (angle d c) t).modifyHead (c :: ·)

def fragments (t : Text) : List Text := (piecesFrom 0 t).filter (!blank ·)

def typeText (t : Text) : Text := trimRight ((collapse t).reverse.dropWhile (· = ',')).reverse

def ofFragment? (fragment : Text) : Option Parameter :=
  let t := trim fragment
  match t.takeWhile isWord, trimLeft (t.dropWhile isWord) with
  | c :: name, ':' :: d :: type => some ⟨c :: name, typeText (d :: type)⟩
  | _, _ => none

def ofList (t : Text) : List Parameter := (fragments t).filterMap ofFragment?

end Parameter

/-! ## Declarations -/

namespace Signature

/-- The state of a parameter list while its lines are read. -/
structure Progress where
  depth : Int
  closed : Bool

def Progress.start : Progress := ⟨0, false⟩

def Progress.step (s : Progress) (c : Char) : Progress :=
  if c = '(' then ⟨s.depth + 1, s.closed⟩
  else if c = ')' then ⟨s.depth - 1, s.closed || s.depth = 1⟩
  else s

def Progress.read (s : Progress) (line : Text) : Progress := line.foldl step s

/-- Whether the line that led to the state is the last of a declaration. -/
def Progress.endsAt (s : Progress) (line : Text) : Bool :=
  s.closed && (':' ∈ line || '{' ∈ line)

def span : Progress → List Text → List Text
  | _, [] => []
  | s, line :: rest =>
    if (s.read line).endsAt line then [line] else line :: span (s.read line) rest

def noReturnType : Text := "[]".toList

def returnTypeIn (t : Text) : Text :=
  match trimLeft t with
  | ':' :: r =>
    match collapse (r.takeWhile (· ≠ '{')) with
    | [] => noReturnType
    | c :: type => c :: type
  | _ => noReturnType

/-- The signature of a declaration with the given heading, line and text. A parameter list that
is never closed has no parameters and no return type. -/
def ofText (heading : Heading) (line : Int) (t : Text) : Signature :=
  match Paren.enclosed? t with
  | some (inside, after) =>
    ⟨heading.name, heading.exported, Parameter.ofList inside, returnTypeIn after, line⟩
  | none => ⟨heading.name, heading.exported, [], noReturnType, line⟩

end Signature

end CircuitDocs
