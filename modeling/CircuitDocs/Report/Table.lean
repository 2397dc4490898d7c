import CircuitDocs.Report.Console
import CircuitDocs.Report.Run

/-! # Reports as tables

Every file that has a circuit with issues gets a table with one row per issue, under a heading with
its path. The totals follow.
-/

namespace CircuitDocs

structure Table where
  heading : Text
  rows : List (List Text)
deriving DecidableEq, Repr

namespace Table

def titles : List Text :=
  ["line", "severity", "field", "circuit", "message"].map String.toList

def row (circuit : Text) (i : Issue) : List Text :=
  [Text.decimal i.line, i.severity.label, i.field, circuit, i.message]

def rowsOf (v : Verdict) : List (List Text) := v.issues.map (row v.circuit)

/-- The table of a file, if it has circuits with issues. -/
def ofReport? (base : Path) (r : FileReport) : Option Table :=
  match r.verdicts.filter (!·.valid) with
  | [] => none
  | v :: rest => some ⟨Path.shown r.file base, (v :: rest).flatMap rowsOf⟩

def ofRun (base : Path) (r : RunReport) : List Table := r.reports.filterMap (ofReport? base)

def prints (t : Table) : List Print := [.rule t.heading, .table titles t.rows]

end Table

namespace RunSummary

def success : Text := "All circuits have valid documentation".toList

def lines (s : RunSummary) : List Text :=
  [[], "Summary:".toList,
    "  Files checked: ".toList ++ Text.decimal s.files ++ ", Circuits: ".toList ++
      Text.decimal s.circuits ++ ", Valid: ".toList ++ Text.decimal s.valid,
    if s.warnings ≠ 0 || s.errors ≠ 0 then
      "  Issues: ".toList ++ Text.decimal s.warnings ++ " warning(s), ".toList ++
        Text.decimal s.errors ++ " error(s)".toList
    else success]

end RunSummary

/-- What is printed of a report; files are shown as seen from `base`. -/
def RunReport.prints (base : Path) (r : RunReport) : List Print :=
  (Table.ofRun base r).flatMap Table.prints ++ r.summary.lines.map .line

end CircuitDocs
