import CircuitDocs.Proofs.Json.Render
import CircuitDocs.Proofs.Report.Payload

/-! # Reading reports back

A reader of JSON finds everything in a payload by the names of its fields: the reports with all
their verdicts and issues, the totals and the errors.
-/

namespace CircuitDocs

open Json (Value)

namespace Json.Value

/-! ## Parts of a value -/

def text? : Value → Option Text
  | str t => some t
  | _ => none

def bool? : Value → Option Bool
  | bool b => some b
  | _ => none

def int? : Value → Option Int
  | number q => if q.isInt then some q.num else none
  | _ => none

def nat? (v : Value) : Option Nat := v.int?.bind Int.toNat?

def items? {α : Type} (read : Value → Option α) : Value → Option (List α)
  | arr items => items.mapM read
  | _ => none

def field? {α : Type} (read : Value → Option α) (key : String) : Value → Option α
  | obj fields => (fields.lookup key.toList).bind read
  | _ => none

@[simp] theorem text?_str (t : Text) : (Json.str t).toValue.text? = some t := by
  rw [toValue, text?]

@[simp] theorem bool?_bool (b : Bool) : (Json.bool b).toValue.bool? = some b := by
  rw [toValue, bool?]

@[simp] theorem int?_int (n : ℤ) : (Json.int n).toValue.int? = some n := by
  simp [toValue, int?, Rat.isInt]

@[simp] theorem nat?_nat (n : Nat) : (Json.nat n).toValue.nat? = some n := by
  simp [Json.nat, nat?, Int.toNat?]

theorem items?_arr {α β : Type} {read : Value → Option β} {write : α → Json} {back : α → β}
    (h : ∀ a, read (write a).toValue = some (back a)) (as : List α) :
    (Json.arr (as.map write)).toValue.items? read = some (as.map back) := by
  rw [toValue, items?, toValues_eq_map]
  induction as with
  | nil => rfl
  | cons a as ih =>
    rw [List.map_cons, List.map_cons, List.mapM_cons, h, ih]
    rfl

theorem field?_ofFields {α : Type} (read : Value → Option α) (key : String)
    (fields : List (String × Json)) :
    (ofFields fields).toValue.field? read key = (fields.lookup key).bind (read ·.toValue) := by
  have hbind := congrArg (Option.bind · read) (lookup_toList toValue key fields)
  rw [Option.bind_map] at hbind
  rw [ofFields, toValue, field?, toFields_eq_map, List.map_map]
  exact hbind

end Json.Value

/-! ## Records -/

/-- The issue with the severity that its label stands for. Severities with one label are the same
to a reader. -/
def Issue.canonical (i : Issue) : Issue := { i with severity := .ofLabel i.severity.label }

def Verdict.canonical (v : Verdict) : Verdict := { v with issues := v.issues.map (·.canonical) }

def FileReport.canonical (r : FileReport) : FileReport :=
  { r with verdicts := r.verdicts.map (·.canonical) }

theorem Severity.label_ofLabel (t : Text) : (ofLabel t).label = t := by
  unfold ofLabel
  split
  · exact Eq.symm ‹_›
  · split
    · exact Eq.symm ‹_›
    · rfl

theorem Issue.toJson_canonical (i : Issue) : i.canonical.toJson = i.toJson := by
  simp [toJson, canonical, Severity.label_ofLabel]

theorem Verdict.toJson_canonical (v : Verdict) : v.canonical.toJson = v.toJson := by
  simp [toJson, canonical, Function.comp_def, Issue.toJson_canonical]

theorem FileReport.toJson_canonical (r : FileReport) : r.canonical.toJson = r.toJson := by
  simp [toJson, canonical, Function.comp_def, Verdict.toJson_canonical]

def Issue.ofValue? (v : Value) : Option Issue := do
  return {
    message := ← v.field? Value.text? "message"
    severity := .ofLabel (← v.field? Value.text? "severity")
    line := ← v.field? Value.int? "line"
    field := ← v.field? Value.text? "field" }

theorem Issue.ofValue?_toJson (i : Issue) : ofValue? i.toJson.toValue = some i.canonical := by
  simp [ofValue?, toJson, Value.field?_ofFields, List.lookup_cons, canonical]

def Verdict.ofValue? (v : Value) : Option Verdict := do
  return {
    circuit := ← v.field? Value.text? "circuit_name"
    file := ← v.field? Value.text? "file_path"
    line := ← v.field? Value.int? "line"
    valid := ← v.field? Value.bool? "is_valid"
    issues := ← v.field? (Value.items? Issue.ofValue?) "issues" }

theorem Verdict.ofValue?_toJson (v : Verdict) : ofValue? v.toJson.toValue = some v.canonical := by
  simp [ofValue?, toJson, Value.field?_ofFields, List.lookup_cons, canonical,
    Value.items?_arr Issue.ofValue?_toJson]

def FileSummary.ofValue? (v : Value) : Option FileSummary := do
  return {
    file := ← v.field? Value.text? "file_path"
    circuits := ← v.field? Value.nat? "total_circuits"
    valid := ← v.field? Value.nat? "valid_circuits"
    withIssues := ← v.field? Value.nat? "circuits_with_issues"
    warnings := ← v.field? Value.nat? "total_warnings"
    errors := ← v.field? Value.nat? "total_errors" }

theorem FileSummary.ofValue?_toJson (s : FileSummary) : ofValue? s.toJson.toValue = some s := by
  simp [ofValue?, toJson, Value.field?_ofFields, List.lookup_cons]

def FileReport.ofValue? (v : Value) : Option FileReport := do
  return {
    file := ← v.field? Value.text? "file_path"
    verdicts := ← v.field? (Value.items? Verdict.ofValue?) "results"
    summary := ← v.field? FileSummary.ofValue? "summary" }

theorem FileReport.ofValue?_toJson (r : FileReport) :
    ofValue? r.toJson.toValue = some r.canonical := by
  simp [ofValue?, toJson, Value.field?_ofFields, List.lookup_cons, canonical,
    Value.items?_arr Verdict.ofValue?_toJson, FileSummary.ofValue?_toJson]

def RunSummary.ofValue? (v : Value) : Option RunSummary := do
  return {
    files := ← v.field? Value.nat? "files_checked"
    circuits := ← v.field? Value.nat? "total_circuits"
    valid := ← v.field? Value.nat? "valid_circuits"
    withIssues := ← v.field? Value.nat? "circuits_with_issues"
    warnings := ← v.field? Value.nat? "total_warnings"
    errors := ← v.field? Value.nat? "total_errors" }

theorem RunSummary.ofValue?_toJson (s : RunSummary) : ofValue? s.toJson.toValue = some s := by
  simp [ofValue?, toJson, Value.field?_ofFields, List.lookup_cons]

def ReadError.ofValue? (v : Value) : Option ReadError := do
  return {
    file := ← v.field? Value.text? "file_path"
    message := ← v.field? Value.text? "message" }

theorem ReadError.ofValue?_toJson (e : ReadError) : ofValue? e.toJson.toValue = some e := by
  simp [ofValue?, toJson, Value.field?_ofFields, List.lookup_cons]

/-! ## Payloads -/

/-- The JSON form of reports, totals and errors, whether they belong together or not. -/
def payload (reports : List FileReport) (summary : RunSummary) (errors : List ReadError) : Json :=
  .ofFields [("errors", .arr (errors.map (·.toJson))), ("files", .arr (reports.map (·.toJson))),
    ("summary", summary.toJson)]

theorem RunReport.toJson_eq (r : RunReport) : r.toJson = payload r.reports r.summary r.errors := rfl

def ofPayload? (v : Value) : Option (List FileReport × RunSummary × List ReadError) := do
  return (← v.field? (Value.items? FileReport.ofValue?) "files",
    ← v.field? RunSummary.ofValue? "summary",
    ← v.field? (Value.items? ReadError.ofValue?) "errors")

theorem ofPayload?_payload (reports : List FileReport) (summary : RunSummary)
    (errors : List ReadError) :
    ofPayload? (payload reports summary errors).toValue =
      some (reports.map (·.canonical), summary, errors) := by
  simp [ofPayload?, payload, Value.field?_ofFields, List.lookup_cons,
    Value.items?_arr FileReport.ofValue?_toJson, RunSummary.ofValue?_toJson,
    Value.items?_arr ReadError.ofValue?_toJson]

/-- Payloads are the same exactly when a reader finds the same in them. -/
theorem payload_eq_iff {reports reports' : List FileReport} {summary summary' : RunSummary}
    {errors errors' : List ReadError} :
    payload reports summary errors = payload reports' summary' errors' ↔
      reports.map (·.canonical) = reports'.map (·.canonical) ∧ summary = summary' ∧
        errors = errors' := by
  constructor
  · intro h
    have hread := ofPayload?_payload reports summary errors
    rw [h, ofPayload?_payload] at hread
    simpa [eq_comm] using hread
  · -- Of a severity nothing but its label is written, so canonical reports are written alike.
    rintro ⟨hreports, rfl, rfl⟩
    have hjson := congrArg (List.map FileReport.toJson) hreports
    simp only [List.map_map, Function.comp_def, FileReport.toJson_canonical] at hjson
    rw [payload, payload, hjson]

end CircuitDocs
