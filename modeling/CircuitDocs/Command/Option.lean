import CircuitDocs.Text.Quoted

/-! # Options of the command line -/

namespace CircuitDocs.Command

inductive Switch where
  | all
  | strict
  | requireTitle
  | requireRemarks
  | requireThrows
  | noRequireDescription
  | noRequireCircuitInfo
  | noRequireParams
  | noRequireReturns
  | noGitignore
deriving DecidableEq, Repr

inductive Setting where
  | format
  | output
deriving DecidableEq, Repr

inductive Choice where
  | help
  | switch (s : Switch)
  | setting (s : Setting)
deriving DecidableEq, Repr

namespace Choice

/-- Every spelling of every option, in the order in which options are listed. -/
def spellings : List (Text × Choice) :=
  [("-h", help), ("--help", help), ("-a", switch .all), ("--all", switch .all),
    ("--strict", switch .strict), ("--require-title", switch .requireTitle),
    ("--require-remarks", switch .requireRemarks), ("--require-throws", switch .requireThrows),
    ("--no-require-description", switch .noRequireDescription),
    ("--no-require-circuit-info", switch .noRequireCircuitInfo),
    ("--no-require-params", switch .noRequireParams),
    ("--no-require-returns", switch .noRequireReturns), ("--no-gitignore", switch .noGitignore),
    ("--format", setting .format), ("--output", setting .output)].map
    fun (spelling, choice) => (spelling.toList, choice)

def ofSpelling? (t : Text) : Option Choice := spellings.lookup t

def completions (t : Text) : List (Text × Choice) :=
  spellings.filter fun (spelling, _) => t.isPrefixOf spelling

/-- An option named by all its spellings. -/
def name (c : Choice) : Text :=
  ['/'].intercalate ((spellings.filter fun (_, d) => d = c).map (·.1))

end Choice

inductive Format where
  | table
  | json
deriving DecidableEq, Repr

namespace Format

def name : Format → Text
  | table => "table".toList
  | json => "json".toList

def ofName? (t : Text) : Option Format :=
  if t = table.name then some table else if t = json.name then some json else none

end Format

inductive UsageError where
  | ambiguous (word : Text) (candidates : List Text)
  | surplusValue (choice : Choice) (value : Text)
  | missingValue (choice : Choice)
  | badFormat (value : Text)
  | unrecognized (words : List Text)
deriving DecidableEq, Repr

def UsageError.message : UsageError → Text
  | ambiguous word candidates =>
    "ambiguous option: ".toList ++ word ++ " could match ".toList ++
      ", ".toList.intercalate candidates
  | surplusValue choice value =>
    "argument ".toList ++ choice.name ++ ": ignored explicit argument ".toList ++
      Quoted.ofText value
  | missingValue choice => "argument ".toList ++ choice.name ++ ": expected one argument".toList
  | badFormat value =>
    "argument ".toList ++ (Choice.setting .format).name ++ ": invalid choice: ".toList ++
      Quoted.ofText value ++ " (choose from ".toList ++
      ", ".toList.intercalate ([Format.table, .json].map fun f => Quoted.ofText f.name) ++
      ")".toList
  | unrecognized words => "unrecognized arguments: ".toList ++ [' '].intercalate words

end CircuitDocs.Command
