import CircuitDocs.Command.Option

/-! # Help -/

namespace CircuitDocs.Command

/-- The documentation block that passes every rule once it is filled in. -/
def template : List String :=
  ["/**",
   " * @title Foo circuit",
   " * @description Reverts unless the caller is the contract admin.",
   " *",
   " * @remarks",
   " * Requirements:",
   " * - `caller` must equal `admin`, otherwise the circuit aborts.",
   " *",
   " * @circuitInfo k=11, rows=1305",
   " *",
   " * @param \x7bType\x7d paramName - Description of the parameter.",
   " *",
   " * @throws \x7bError\x7d \x22error message\x22 if condition.",
   " *",
   " * @returns \x7bType\x7d - Description of return value.",
   " */"]

def usageLine : String := "usage: circuit-docs [options] [target]"

def Switch.describe : Switch → String
  | all => "Check all circuits, not just exported ones."
  | strict => "Require @title, @remarks and @throws as well."
  | requireTitle => "Require @title tag."
  | requireRemarks => "Require @remarks section."
  | requireThrows => "Require @throws documentation."
  | noRequireDescription => "Do not require @description."
  | noRequireCircuitInfo => "Do not require @circuitInfo."
  | noRequireParams => "Do not require @param for parameters."
  | noRequireReturns => "Do not require @returns."
  | noGitignore => "Scan paths matched by .gitignore files too."

def Choice.describe : Choice → String
  | help => "Show this help message and exit."
  | switch s => s.describe
  | setting .format => "Output format, table or json (default: table)."
  | setting .output => "Optional output file path for raw JSON when --format json is used."

/-- The options, each once, in the order in which they are listed. -/
def Choice.listed : List Choice := (spellings.map (·.2)).eraseDups

def helpLines : List String :=
  [usageLine, "", "Documentation linter for Compact contracts.", "",
    "  target  Path to a .compact file or directory (default: .)."] ++
  Choice.listed.map (fun c => "  " ++ String.ofList c.name ++ "  " ++ c.describe) ++
  ["", "Expected documentation template:", ""] ++ template

end CircuitDocs.Command
