import CircuitDocs.Disk.Basic
import CircuitDocs.Report.Basic

/-! # Linting several files

Files that cannot be read are listed apart and do not disturb the others.
-/

namespace CircuitDocs

structure ReadError where
  file : Text
  message : Text
deriving DecidableEq, Repr

/-- The reports of the files that could be read, and the errors of the others. -/
structure RunReport where
  reports : List FileReport
  errors : List ReadError
deriving DecidableEq, Repr

namespace RunReport

def reportOf? (config : Config) (read : Path → Except ReadFault Text) (p : Path) :
    Option FileReport :=
  match read p with
  | .ok source => some (.ofSource config p.text source)
  | .error _ => none

def errorOf? (read : Path → Except ReadFault Text) (p : Path) : Option ReadError :=
  match read p with
  | .ok _ => none
  | .error fault => some ⟨p.text, fault.message⟩

def ofFiles (config : Config) (read : Path → Except ReadFault Text) (paths : List Path) :
    RunReport where
  reports := paths.filterMap (reportOf? config read)
  errors := paths.filterMap (errorOf? read)

/-- Lint files of a disk. A path with a null character cannot be listed as unreadable; it ends the
run. -/
def ofDisk (config : Config) (disk : Disk) (paths : List Path) : Except PathFault RunReport :=
  if paths.any Path.hasNull then .error .nullByte else .ok (ofFiles config disk.read paths)

def summary (r : RunReport) : RunSummary := .ofReports r.reports

end RunReport

end CircuitDocs
