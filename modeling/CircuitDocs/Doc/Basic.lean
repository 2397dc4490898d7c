import CircuitDocs.Text.Basic

/-! # Documentation of a circuit

The fields that the tags of a documentation block fill in, and the plain text of a documentation
comment. A comment opens with `/**`, closes with `*/`, and may carry a star before every line.
`Comment.plain` takes the marks away. Text that does not open with `/**` is plain already and is
only trimmed, so a body line that begins with a star survives.
-/

namespace CircuitDocs

namespace Doc

structure Param where
  name : Text
  type : Text
  description : Text
deriving DecidableEq, Repr

structure Throws where
  type : Text
  message : Text
deriving DecidableEq, Repr

/-- The documented result; the type is empty when none was given. -/
structure Returns where
  type : Text
  description : Text
deriving DecidableEq, Repr

end Doc

/-- What a documentation block says, tag by tag. Absent fields are `none` or empty. -/
structure Doc where
  title : Option Text := none
  description : Option Text := none
  remarks : Option Text := none
  circuitInfo : Option Text := none
  params : List Doc.Param := []
  throws : List Doc.Throws := []
  returns : Option Doc.Returns := none
deriving DecidableEq, Repr

/-! ## Comments -/

namespace Comment

open Text

def opening : Text := "/**".toList

def closing : Text := "*/".toList

/-- A line without its decoration: the leading star, the blanks before it and one blank after. -/
def bare (line : Text) : Text :=
  match trimLeft line with
  | '*' :: c :: rest => if isBlank c then rest else c :: rest
  | ['*'] => []
  | _ => line

/-- Without the closing mark at the end and the blanks before it. -/
def unclosed (t : Text) : Text :=
  match before? closing t with
  | some r => trimRight r
  | none => t

def tidy (ls : List Text) : Text := trim (unlines (ls.map trimRight))

/-- The text of a comment without its marks; lines carry no trailing blanks. -/
def plain (comment : Text) : Text :=
  match after? opening (trim comment) with
  | some body => tidy ((lines (unclosed (trimLeft body))).map bare)
  | none => tidy (lines (trim comment))

end Comment

end CircuitDocs
