import CircuitDocs.Text.Utf8

/-! # Refusals

A path is refused for one of a few causes, each with a number and a wording. Names, whole paths and
chains of links are limited in length.
-/

namespace CircuitDocs

inductive Refusal where
  | missing
  | denied
  | occupied
  | notDirectory
  | directory
  | tooLong
  | tooManyLinks
deriving DecidableEq, Repr

namespace Refusal

def number : Refusal → Nat
  | missing => 2
  | denied => 13
  | occupied => 17
  | notDirectory => 20
  | directory => 21
  | tooLong => 36
  | tooManyLinks => 40

def wording : Refusal → String
  | missing => "No such file or directory"
  | denied => "Permission denied"
  | occupied => "File exists"
  | notDirectory => "Not a directory"
  | directory => "Is a directory"
  | tooLong => "File name too long"
  | tooManyLinks => "Too many levels of symbolic links"

/-- Whether a cause tells that there is nothing at a path. A path that is denied or too long tells
nothing. -/
def isAbsence : Refusal → Bool
  | missing | notDirectory | tooManyLinks => true
  | _ => false

end Refusal

def nameLimit : Nat := 255

def pathLimit : Nat := 4095

/-- The most links that are followed on the way to a file. -/
def linkLimit : Nat := 40

def isLongName (name : Text) : Bool := nameLimit < (Utf8.encode name).length

end CircuitDocs
