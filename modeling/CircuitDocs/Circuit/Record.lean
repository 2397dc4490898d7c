import CircuitDocs.Circuit.DocBlock
import CircuitDocs.Circuit.Signature
import CircuitDocs.Doc.Entry

/-! # Records of a source text

One record per declaration line, in order, each with the block above it. Malformed declarations
yield records too, with whatever was recovered.
-/

namespace CircuitDocs

open Text

namespace Record

/-- The record of a declaration. `above` holds the lines above it, nearest first, and `below` the
lines from it on. -/
def ofHeading (heading : Heading) (above below : List Text) : Record :=
  let line : Int := above.length + 1
  let signature := Signature.ofText heading line (unlines (Signature.span .start below))
  match DocBlock.above? above with
  | some block =>
    { signature
      comment := block.text
      doc := Doc.ofComment block.text
      documented := true
      firstLine := line - block.gap - block.lines.length
      lastLine := line - block.gap - 1 }
  | none =>
    { signature
      comment := []
      doc := {}
      documented := false
      firstLine := line
      lastLine := line }

/-- The records of the lines still to be read; `above` holds those read before, nearest first. -/
def ofLines (above : List Text) : List Text → List Record
  | [] => []
  | line :: rest =>
    match Heading.ofLine? line with
    | some heading => ofHeading heading above (line :: rest) :: ofLines (line :: above) rest
    | none => ofLines (line :: above) rest

def ofSource (source : Text) : List Record := ofLines [] (lines source)

end Record

end CircuitDocs
