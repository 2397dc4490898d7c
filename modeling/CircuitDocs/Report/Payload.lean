import CircuitDocs.Json.Basic
import CircuitDocs.Report.Run

/-! # Reports as JSON

Fields stand in the order of their names.
-/

namespace CircuitDocs

def Json.ofFields (fields : List (String × Json)) : Json :=
  .obj (fields.map fun (key, value) => (key.toList, value))

def Json.nat (n : Nat) : Json := .int n

def Issue.toJson (i : Issue) : Json :=
  .ofFields [("field", .str i.field), ("line", .int i.line), ("message", .str i.message),
    ("severity", .str i.severity.label)]

def Verdict.toJson (v : Verdict) : Json :=
  .ofFields [("circuit_name", .str v.circuit), ("file_path", .str v.file),
    ("is_valid", .bool v.valid), ("issues", .arr (v.issues.map (·.toJson))), ("line", .int v.line)]

def FileSummary.toJson (s : FileSummary) : Json :=
  .ofFields [("circuits_with_issues", .nat s.withIssues), ("file_path", .str s.file),
    ("total_circuits", .nat s.circuits), ("total_errors", .nat s.errors),
    ("total_warnings", .nat s.warnings), ("valid_circuits", .nat s.valid)]

def FileReport.toJson (r : FileReport) : Json :=
  .ofFields [("file_path", .str r.file), ("results", .arr (r.verdicts.map (·.toJson))),
    ("summary", r.summary.toJson)]

def RunSummary.toJson (s : RunSummary) : Json :=
  .ofFields [("circuits_with_issues", .nat s.withIssues), ("files_checked", .nat s.files),
    ("total_circuits", .nat s.circuits), ("total_errors", .nat s.errors),
    ("total_warnings", .nat s.warnings), ("valid_circuits", .nat s.valid)]

def ReadError.toJson (e : ReadError) : Json :=
  .ofFields [("file_path", .str e.file), ("message", .str e.message)]

def RunReport.toJson (r : RunReport) : Json :=
  .ofFields [("errors", .arr (r.errors.map (·.toJson))),
    ("files", .arr (r.reports.map (·.toJson))), ("summary", r.summary.toJson)]

end CircuitDocs
