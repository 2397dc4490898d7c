import CircuitDocs.Circuit.Record
import CircuitDocs.Rules.Check

/-! # Reports

The verdicts of a file with their counts, and the counts of a run over several files.
-/

namespace CircuitDocs

structure FileSummary where
  file : Text
  circuits : Nat
  valid : Nat
  withIssues : Nat
  warnings : Nat
  errors : Nat
deriving DecidableEq, Repr

def FileSummary.ofVerdicts (file : Text) (verdicts : List Verdict) : FileSummary :=
  let valid := verdicts.countP (·.valid)
  let severities := verdicts.flatMap fun v => v.issues.map (·.severity)
  { file
    circuits := verdicts.length
    valid
    withIssues := verdicts.length - valid
    warnings := severities.count .warning
    errors := severities.count .error }

/-- The verdicts of one file, in the order of its circuits, and their counts. -/
structure FileReport where
  file : Text
  verdicts : List Verdict
  summary : FileSummary
deriving DecidableEq, Repr

def FileReport.ofRecords (config : Config) (threshold : Threshold) (file : Text)
    (records : List Record) : FileReport :=
  let verdicts := records.map (config.verdict threshold file)
  ⟨file, verdicts, .ofVerdicts file verdicts⟩

def FileReport.ofSource (config : Config) (file source : Text) : FileReport :=
  .ofRecords config .usual file (Record.ofSource source)

structure RunSummary where
  files : Nat
  circuits : Nat
  valid : Nat
  withIssues : Nat
  warnings : Nat
  errors : Nat
deriving DecidableEq, Repr

namespace RunSummary

def total (count : FileSummary → Nat) (reports : List FileReport) : Nat :=
  reports.foldr (fun r n => count r.summary + n) 0

def ofReports (reports : List FileReport) : RunSummary where
  files := reports.length
  circuits := total (·.circuits) reports
  valid := total (·.valid) reports
  withIssues := total (·.withIssues) reports
  warnings := total (·.warnings) reports
  errors := total (·.errors) reports

def hasIssues (s : RunSummary) : Bool := 0 < s.withIssues

end RunSummary

end CircuitDocs
