import CircuitDocs.Circuit.Basic

/-! # Documentation blocks above a declaration

Above a declaration, blank lines are skipped. The line then reached has to close a comment; the
block reaches up from it to the nearest line that opens with `/**`. A line that opens a plain
comment, or another declaration, ends the search without a block.
-/

namespace CircuitDocs

open Text

/-- A documentation block, with the number of blank lines between it and the declaration. -/
structure DocBlock where
  lines : List Text
  gap : Nat
deriving DecidableEq, Repr

namespace DocBlock

def opensDoc (line : Text) : Bool := Comment.opening.isPrefixOf (trim line)

def opensComment (line : Text) : Bool := "/*".toList.isPrefixOf (trim line)

def closesComment (line : Text) : Bool := Comment.closing.isSuffixOf (trim line)

/-- The lines up to the one that opens the block, in source order. The argument holds the last line
of the block and those above it, nearest first. -/
def climb : List Text → Option (List Text)
  | [] => none
  | line :: above =>
    if opensDoc line then some [line]
    else if opensComment line || declares line then none
    else (climb above).map (· ++ [line])

/-- The block that documents a declaration; `above` holds the lines above it, nearest first. -/
def above? (above : List Text) : Option DocBlock :=
  match above.dropWhile blank with
  | [] => none
  | last :: rest =>
    if closesComment last then
      (climb (last :: rest)).map fun ls => ⟨ls, (above.takeWhile blank).length⟩
    else none

def text (b : DocBlock) : Text := trim (unlines b.lines)

end DocBlock

end CircuitDocs
