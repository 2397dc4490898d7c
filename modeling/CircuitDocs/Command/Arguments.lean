import CircuitDocs.Command.Word
import CircuitDocs.Rules.Config

/-! # Arguments

Words take effect from left to right. The first operand is the target; what is left over is
reported at the end.
-/

namespace CircuitDocs.Command

/-- The value of a setting: not given, given as a lone separator, or given. -/
inductive Value (α : Type) where
  | absent
  | separator
  | given (a : α)
deriving DecidableEq, Repr

structure Arguments where
  switches : List Switch := []
  format : Value Format := .absent
  output : Value Text := .absent
  target : Option Text := none
deriving DecidableEq, Repr

inductive Stop where
  | help
  | usage (e : UsageError)
deriving DecidableEq, Repr

namespace Arguments

def flip (a : Arguments) (s : Switch) : Arguments := { a with switches := a.switches ++ [s] }

def set (a : Arguments) (s : Setting) (value : Text) : Except Stop Arguments :=
  match s with
  | .output =>
    .ok { a with output := if value = Word.separatorText then .separator else .given value }
  | .format =>
    if value = Word.separatorText then .ok { a with format := .separator }
    else
      match Format.ofName? value with
      | some format => .ok { a with format := .given format }
      | none => .error (.usage (.badFormat value))

/-- Options that are joined in one word: the first one and the letters of the others. -/
def cluster : Choice → Text → Except UsageError (List Choice)
  | choice, [] => .ok [choice]
  | choice, c :: tail =>
    match Choice.ofSpelling? ['-', c] with
    | some next => (cluster next tail).map (choice :: ·)
    | none => .error (.surplusValue choice (c :: tail))

def joined (choice : Choice) : Option Text → Except UsageError (List Choice)
  | none => .ok [choice]
  | some [] => .error (.surplusValue choice [])
  | some (c :: tail) => cluster choice (c :: tail)

def applyAll (a : Arguments) : List Choice → Except Stop Arguments
  | [] => .ok a
  | .help :: _ => .error .help
  | .switch s :: rest => applyAll (a.flip s) rest
  | .setting s :: _ => .error (.usage (.missingValue (.setting s)))

/-- Let words take effect; the result also holds the words left over. -/
def consume (a : Arguments) (extras : List Text) :
    List Word → Except Stop (Arguments × List Text)
  | [] => .ok (a, extras)
  | .operand t :: .separator :: rest =>
    if a.target.isNone then consume { a with target := some t } extras rest
    else consume a (extras ++ [t, Word.separatorText]) rest
  | .operand t :: rest =>
    if a.target.isNone then consume { a with target := some t } extras rest
    else consume a (extras ++ [t]) rest
  | .separator :: rest =>
    if a.target.isNone then consume a extras rest
    else consume a (extras ++ [Word.separatorText]) rest
  | .unknown t :: rest => consume a (extras ++ [t]) rest
  | .short choice tail :: rest =>
    match joined choice tail with
    | .error e => .error (.usage e)
    | .ok choices =>
      match a.applyAll choices with
      | .error stop => .error stop
      | .ok a => consume a extras rest
  | .long (.setting s) (some value) :: rest =>
    match a.set s value with
    | .error stop => .error stop
    | .ok a => consume a extras rest
  | .long (.setting s) none :: .operand value :: rest =>
    match a.set s value with
    | .error stop => .error stop
    | .ok a => consume a extras rest
  | .long (.setting s) none :: _ => .error (.usage (.missingValue (.setting s)))
  | .long choice (some value) :: _ => .error (.usage (.surplusValue choice value))
  | .long choice none :: rest =>
    match a.applyAll [choice] with
    | .error stop => .error stop
    | .ok a => consume a extras rest

def parse (argv : List Text) : Except Stop Arguments :=
  match Word.classifyAll argv with
  | .error e => .error (.usage e)
  | .ok words =>
    match consume {} [] words with
    | .error stop => .error stop
    | .ok (a, []) => .ok a
    | .ok (_, extras) => .error (.usage (.unrecognized extras))

def gives (a : Arguments) (s : Switch) : Bool := s ∈ a.switches

def config (a : Arguments) : Config where
  exportedOnly := !a.gives .all
  requireTitle := a.gives .strict || a.gives .requireTitle
  requireDescription := !a.gives .noRequireDescription
  requireRemarks := a.gives .strict || a.gives .requireRemarks
  requireCircuitInfo := !a.gives .noRequireCircuitInfo
  requireParams := !a.gives .noRequireParams
  requireThrows := a.gives .strict || a.gives .requireThrows
  requireReturns := !a.gives .noRequireReturns

/-- How results are to be shown, in a table by default. A separator names no format. -/
def format? (a : Arguments) : Option Format :=
  match a.format with
  | .absent => some .table
  | .separator => none
  | .given format => some format

/-- The file to write to. The empty path and a separator are none. -/
def output? (a : Arguments) : Option Text :=
  match a.output with
  | .given (c :: path) => some (c :: path)
  | _ => none

def gitignore (a : Arguments) : Bool := !a.gives .noGitignore

/-- The target; the current directory if none was given. -/
def targetText (a : Arguments) : Text := a.target.getD ['.']

end Arguments

end CircuitDocs.Command
