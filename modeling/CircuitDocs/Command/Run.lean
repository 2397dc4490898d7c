import CircuitDocs.Command.Arguments
import CircuitDocs.Disk.Change
import CircuitDocs.Disk.Discovery
import CircuitDocs.Report.Payload
import CircuitDocs.Report.Table

/-! # Running the linter

A run reads a disk and leaves a disk, and prints on a console. It ends with status 0 when all is
well, 1 when a circuit has issues, and 2 when the command line or the target is at fault. A few
faults end it without a status.
-/

namespace CircuitDocs.Command

/-- What a run puts out. Help and refusals of the command line are told apart from output. -/
structure Outcome where
  status : Nat
  stdout : Text := []
  stderr : Text := []
  stop : Option Stop := none
deriving DecidableEq, Repr

/-- What ends a run without a status. -/
inductive Crash where
  | pattern (fault : Ignore.Fault)
  | path (fault : PathFault)
  | linkLoop (path : Path)
  | heading (message : Text)
deriving DecidableEq, Repr

def Crash.message : Crash → Text
  | pattern fault => fault.message
  | path fault => fault.message
  | linkLoop p => "Symlink loop from ".toList ++ Quoted.ofText p.text
  | heading message => message

def statusOf (r : RunReport) : Nat := if r.summary.hasIssues then 1 else 0

def errorLines (r : RunReport) : Text :=
  r.errors.flatMap fun e =>
    "read_error: ".toList ++ e.file ++ ": ".toList ++ e.message ++ ['\n']

/-- The directory from which the files of a target are shown. -/
def baseOf (disk : Disk) (target : Path) : Path :=
  match disk.locate target with
  | .ok (.folder _) => target
  | _ => target.parent

def save (disk : Disk) (here : List Text) (output : Text) (r : RunReport) :
    Disk × Except Crash Outcome :=
  match disk.write here (Path.ofText output) (Utf8.encode r.toJson.render) with
  | (disk, .ok _) => (disk, .ok { status := statusOf r, stderr := errorLines r })
  | (disk, .error (.refused _ _)) =>
    (disk, .ok
      { status := 2,
        stderr := errorLines r ++ "Failed to write JSON output file: ".toList ++ output ++ ['\n'] })
  | (disk, .error .nullByte) => (disk, .error (.path .nullByte))

def emit (console : Console) (disk : Disk) (here : List Text) (a : Arguments) (target : Path)
    (r : RunReport) : Disk × Except Crash Outcome :=
  match a.format?, a.output? with
  | some .json, some output => save disk here output r
  | some .json, none =>
    (disk, .ok
      { status := statusOf r, stdout := r.toJson.render ++ ['\n'], stderr := errorLines r })
  | _, _ =>
    match console.putAll (r.prints (baseOf disk target)) with
    | .ok stdout => (disk, .ok { status := statusOf r, stdout, stderr := errorLines r })
    | .error message => (disk, .error (.heading message))

def lint (console : Console) (disk : Disk) (here : List Text) (a : Arguments) (target : Path)
    (files : List Path) : Disk × Except Crash Outcome :=
  if files.isEmpty && a.format? = some .table then
    (disk, .ok
      { status := 0, stdout := "No .compact files found in ".toList ++ target.text ++ ['\n'] })
  else
    match RunReport.ofDisk a.config disk files with
    | .ok r => emit console disk here a target r
    | .error fault => (disk, .error (.path fault))

/-- The target of a run without links and double dots. -/
def targetOf (disk : Disk) (here : List Text) (a : Arguments) : Except Crash Path :=
  let given := Path.ofText a.targetText
  let target := Path.absolute (disk.resolve (given.namesFrom here))
  if given.hasNull then .error (.path .nullByte)
  else
    match disk.ask target with
    | .error .tooManyLinks => .error (.linkLoop target)
    | _ => .ok target

def runOn (console : Console) (disk : Disk) (here : List Text) (a : Arguments) (target : Path) :
    Disk × Except Crash Outcome :=
  match disk.discover a.gitignore target with
  | .error (.pattern fault) => (disk, .error (.pattern fault))
  | .error (.refused cause p) => (disk, .error (.path (.refused cause p)))
  | .error (.error e) =>
    (disk, .ok { status := 2, stderr := "Error: ".toList ++ e.message ++ ['\n'] })
  | .ok files => lint console disk here a target files

def runWith (console : Console) (disk : Disk) (here : List Text) (a : Arguments) :
    Disk × Except Crash Outcome :=
  if a.output?.isSome && a.format? ≠ some .json then
    (disk, .ok { status := 2, stderr := "--output requires --format json\n".toList })
  else
    match targetOf disk here a with
    | .ok target => runOn console disk here a target
    | .error crash => (disk, .error crash)

def run (console : Console) (disk : Disk) (here : List Text) (argv : List Text) :
    Disk × Except Crash Outcome :=
  match Arguments.parse argv with
  | .error .help => (disk, .ok { status := 0, stop := some .help })
  | .error stop => (disk, .ok { status := 2, stop := some stop })
  | .ok a => runWith console disk here a

end CircuitDocs.Command
