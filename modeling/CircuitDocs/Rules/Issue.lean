import CircuitDocs.Text.Basic

/-! # Issues and verdicts -/

namespace CircuitDocs

/-- How grave an issue is. The rules only warn; reports may carry labels of other tools. -/
inductive Severity where
  | warning
  | error
  | other (label : Text)
deriving DecidableEq, Repr

namespace Severity

def label : Severity → Text
  | warning => "warning".toList
  | error => "error".toList
  | other label => label

def ofLabel (t : Text) : Severity :=
  if t = "warning".toList then warning
  else if t = "error".toList then error
  else other t

end Severity

/-- One violation of a documentation rule, with the tag or part at fault. -/
structure Issue where
  message : Text
  severity : Severity
  line : Int
  field : Text
deriving DecidableEq, Repr

def Issue.warning (message : Text) (line : Int) (field : Text) : Issue :=
  ⟨message, .warning, line, field⟩

structure Verdict where
  circuit : Text
  file : Text
  line : Int
  valid : Bool
  issues : List Issue
deriving DecidableEq, Repr

end CircuitDocs
