import CircuitDocs.Doc.Basic

/-! # Circuits

A circuit declaration with its parameters, and the record that joins it to its documentation.
Lines are counted from one. A declaration begins with a line that reads
`[export] [pure] circuit name (`, with blanks before and between the words. What follows the
parenthesis is free.
-/

namespace CircuitDocs

open Text

/-- A formal parameter; the type is kept as collapsed text. -/
structure Parameter where
  name : Text
  type : Text
deriving DecidableEq, Repr

structure Signature where
  name : Text
  exported : Bool
  parameters : List Parameter
  returnType : Text
  line : Int
deriving DecidableEq, Repr

/-- A circuit with the documentation block above it. Without a block the comment is empty and both
documentation lines are the line of the declaration. -/
structure Record where
  signature : Signature
  comment : Text
  doc : Doc
  documented : Bool
  firstLine : Int
  lastLine : Int
deriving DecidableEq, Repr

/-! ## Declaration lines -/

/-- What follows a keyword and the blanks after it, of which there is at least one. -/
def afterKeyword? (w t : Text) : Option Text :=
  match after? w t with
  | some (c :: r) => if isBlank c then some (trimLeft r) else none
  | _ => none

def skipKeyword (w t : Text) : Text := (afterKeyword? w t).getD t

structure Heading where
  name : Text
  exported : Bool
deriving DecidableEq, Repr

namespace Heading

def name? (t : Text) : Option Text :=
  match t.takeWhile isWord, trimLeft (t.dropWhile isWord) with
  | c :: name, '(' :: _ => some (c :: name)
  | _, _ => none

def ofLine? (line : Text) : Option Heading :=
  let t := trimLeft line
  match afterKeyword? "circuit".toList
      (skipKeyword "pure".toList (skipKeyword "export".toList t)) with
  | some r => (name? r).map fun name => ⟨name, (afterKeyword? "export".toList t).isSome⟩
  | none => none

end Heading

def declares (line : Text) : Bool := (Heading.ofLine? line).isSome

end CircuitDocs
