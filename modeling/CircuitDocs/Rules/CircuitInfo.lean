import CircuitDocs.Rules.Config
import CircuitDocs.Rules.Issue

/-! # Circuit information

The text of a circuit information tag reads `k=<number>, rows=<number>`, with blanks allowed
around each mark.
-/

namespace CircuitDocs.CircuitInfo

open Text

def afterWord? (w t : Text) : Option Text := (after? w t).map trimLeft

def afterNumber? (t : Text) : Option Text :=
  if (t.takeWhile isDigit).isEmpty then none else some (trimLeft (t.dropWhile isDigit))

def afterSetting? (w t : Text) : Option Text :=
  match afterWord? w t with
  | some t =>
    match afterWord? ['='] t with
    | some t => afterNumber? t
    | none => none
  | none => none

def wellFormed (t : Text) : Bool :=
  match afterSetting? "k".toList (trim t) with
  | some t =>
    match afterWord? [','] t with
    | some t => afterSetting? "rows".toList t = some []
    | none => false
  | none => false

def expected : Text := "k=<number>, rows=<number>".toList

/-- The issues with a circuit information text, which counts as missing when it is empty. -/
def check (info : Option Text) (line : Int) : List Issue :=
  match info.getD [] with
  | [] => [.warning "Missing @circuitInfo tag".toList line Rule.circuitInfo.field]
  | c :: t =>
    if wellFormed (c :: t) then []
    else [.warning ("Invalid @circuitInfo format: \"".toList ++ c :: t ++
      "\". Expected: ".toList ++ expected) line Rule.circuitInfo.field]

end CircuitDocs.CircuitInfo
