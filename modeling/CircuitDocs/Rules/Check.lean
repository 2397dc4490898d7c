import CircuitDocs.Circuit.Basic
import CircuitDocs.Rules.CircuitInfo
import CircuitDocs.Rules.Hint

/-! # Checking a record

Each rule finds issues in a documented record on its own; a configuration selects the rules. A
circuit without documentation has one issue, which no rule governs.
-/

namespace CircuitDocs

namespace Params

/-- The declared parameters that no entry documents. -/
def undocumented (record : Record) : List Parameter :=
  record.signature.parameters.filter fun p => p.name ∉ record.doc.params.map (·.name)

/-- The documented entries that name no declared parameter. -/
def undeclared (record : Record) : List Doc.Param :=
  record.doc.params.filter fun p => p.name ∉ record.signature.parameters.map (·.name)

def missing (p : Parameter) : Text :=
  "Missing @param documentation for parameter \"".toList ++ p.name ++ "\" (type: ".toList ++
    p.type ++ ")".toList

/-- The end of a message, with the name that was probably meant. -/
def hint : Option Text → Text
  | some (c :: name) => " (did you mean \"".toList ++ c :: name ++ "\"?)".toList
  | _ => []

def stray (threshold : Threshold) (record : Record) (p : Doc.Param) : Text :=
  "Documented @param \"".toList ++ p.name ++ "\" does not exist in circuit signature".toList ++
    hint (Hint.best? threshold p.name ((undocumented record).map (·.name)))

def check (threshold : Threshold) (record : Record) : List Issue :=
  (undocumented record).map (fun p =>
    .warning (missing p) record.firstLine Rule.params.field) ++
  (undeclared record).map fun p =>
    .warning (stray threshold record p) record.firstLine Rule.params.field

end Params

namespace Rule

def expect (present : Bool) (message : String) (line : Int) (rule : Rule) : List Issue :=
  if present then [] else [.warning message.toList line rule.field]

/-- Whether a text is there; the empty text is not. -/
def given (t : Option Text) : Bool := !(t.getD []).isEmpty

def check (threshold : Threshold) (record : Record) : Rule → List Issue
  | title => expect (given record.doc.title) "Missing @title tag" record.firstLine title
  | description =>
    expect (given record.doc.description) "Missing @description tag" record.firstLine description
  | remarks => expect (given record.doc.remarks) "Missing @remarks section" record.firstLine remarks
  | circuitInfo => CircuitInfo.check record.doc.circuitInfo record.firstLine
  | params =>
    if record.signature.parameters.isEmpty then [] else Params.check threshold record
  | throws =>
    expect (!record.doc.throws.isEmpty) "Missing @throws documentation" record.firstLine throws
  | returns => expect record.doc.returns.isSome "Missing @returns tag" record.firstLine returns

end Rule

namespace Config

def exempts (config : Config) (record : Record) : Bool :=
  config.exportedOnly && !record.signature.exported

def issues (config : Config) (threshold : Threshold) (record : Record) : List Issue :=
  if config.exempts record then []
  else if record.documented then
    (Rule.all.filter config.requires).flatMap (Rule.check threshold record)
  else
    [.warning "Circuit has no documentation comment".toList record.signature.line
      "documentation".toList]

def verdict (config : Config) (threshold : Threshold) (file : Text) (record : Record) : Verdict :=
  let issues := config.issues threshold record
  ⟨record.signature.name, file, record.signature.line, issues.isEmpty, issues⟩

end Config

end CircuitDocs
