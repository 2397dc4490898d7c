import CircuitDocs.Text.Basic

/-! # Tag sections

A section begins after its tag and ends before the next line that opens with `@`, before a blank
line, or at the end of the block. A remarks section is not ended by another remarks tag.
-/

namespace CircuitDocs

open Text

/-- Whether a section ends where the text begins. `opens` tells of the text after a line-leading
`@` whether it begins another section. -/
def sectionEnds (opens : Text → Bool) : Text → Bool
  | [] => true
  | '\n' :: t =>
    match t.dropWhile isPad with
    | '\n' :: _ => true
    | '@' :: r => opens r
    | _ => false
  | _ => false

def sectionBody (t : Text) : Text := takeUntil (sectionEnds fun _ => true) t

def sectionRest (t : Text) : Text := dropUntil (sectionEnds fun _ => true) t

/-- The tags of which a block has one value each. -/
inductive Tag where
  | title
  | description
  | remarks
  | circuitInfo
deriving DecidableEq, Repr

namespace Tag

def word : Tag → Text
  | title => "title".toList
  | description => "description".toList
  | remarks => "remarks".toList
  | circuitInfo => "circuitInfo".toList

def afterWord? (tag : Tag) (t : Text) : Option Text :=
  match after? tag.word t with
  | some r => if wordEnds r then some r else none
  | none => none

def after? (tag : Tag) : Text → Option Text
  | '@' :: t => tag.afterWord? t
  | _ => none

/-- Whether a line-leading `@` with the given text after it ends a section of the tag. -/
def endedBy : Tag → Text → Bool
  | remarks, t => (remarks.afterWord? t).isNone
  | _, _ => true

/-- The collapsed text of the first section of the tag, unless there is none or it is empty. -/
def value? (tag : Tag) (block : Text) : Option Text :=
  match first? tag.after? block with
  | some t =>
    match collapse (takeUntil (sectionEnds tag.endedBy) t) with
    | [] => none
    | c :: value => some (c :: value)
  | none => none

end Tag

end CircuitDocs
