import CircuitDocs.Proofs.Report.Run
import CircuitDocs.Report.Payload
import CircuitDocs.Report.Table

/-! # Tables and payloads

The tables of a run are written from the verdicts that are not valid, its JSON form from all of
them. Both show the same: the tables can be read off from the files of the payload, and there is
an issue in the payload exactly when a circuit has issues and the totals say so.
-/

namespace CircuitDocs

namespace Json

/-! ## Parts of a value -/

/-- The value of a field; what has no such field gives an empty array. -/
def field (key : String) : Json → Json
  | obj fields => (fields.lookup key.toList).getD (arr [])
  | _ => arr []

def items : Json → List Json
  | arr items => items
  | _ => []

def shown : Json → Text
  | str t => t
  | int n => Text.decimal n
  | _ => []

theorem lookup_toList {α β : Type} (f : α → β) (key : String) (fields : List (String × α)) :
    (fields.map fun entry => (entry.1.toList, f entry.2)).lookup key.toList =
      (fields.lookup key).map f := by
  induction fields with
  | nil => rfl
  | cons entry fields ih =>
    obtain ⟨k, value⟩ := entry
    have hkey : (key.toList == k.toList) = (key == k) := by
      rw [Bool.eq_iff_iff, beq_iff_eq, beq_iff_eq, String.toList_inj]
    rw [List.map_cons, List.lookup_cons, List.lookup_cons, hkey, ih]
    cases key == k <;> rfl

theorem field_ofFields (key : String) (fields : List (String × Json)) :
    (ofFields fields).field key = (fields.lookup key).getD (arr []) := by
  have hlookup := lookup_toList id key fields
  rw [Option.map_id] at hlookup
  exact congrArg (Option.getD · (arr [])) hlookup

end Json

@[simp] theorem Verdict.issues_toJson (v : Verdict) :
    (v.toJson.field "issues").items = v.issues.map (·.toJson) := by
  simp [toJson, Json.field_ofFields, List.lookup_cons, Json.items]

@[simp] theorem FileReport.results_toJson (r : FileReport) :
    (r.toJson.field "results").items = r.verdicts.map (·.toJson) := by
  simp [toJson, Json.field_ofFields, List.lookup_cons, Json.items]

@[simp] theorem FileReport.file_toJson (r : FileReport) :
    (r.toJson.field "file_path").shown = r.file := by
  simp [toJson, Json.field_ofFields, Json.shown]

@[simp] theorem RunReport.files_toJson (r : RunReport) :
    (r.toJson.field "files").items = r.reports.map (·.toJson) := by
  simp [toJson, Json.field_ofFields, List.lookup_cons, Json.items]

/-! ## Tables -/

namespace Table

def rowIn (result issue : Json) : List Text :=
  [issue.field "line", issue.field "severity", issue.field "field", result.field "circuit_name",
    issue.field "message"].map Json.shown

def rowsIn (file : Json) : List (List Text) :=
  (file.field "results").items.flatMap fun result =>
    (result.field "issues").items.map (rowIn result)

def ofFile? (base : Path) (file : Json) : Option Table :=
  if (rowsIn file).isEmpty then none
  else some ⟨Path.shown (file.field "file_path").shown base, rowsIn file⟩

def ofPayload (base : Path) (payload : Json) : List Table :=
  (payload.field "files").items.filterMap (ofFile? base)

theorem rowIn_toJson (v : Verdict) (i : Issue) : rowIn v.toJson i.toJson = row v.circuit i := by
  simp [rowIn, row, Verdict.toJson, Issue.toJson, Json.field_ofFields, List.lookup_cons, Json.shown]

theorem rowsIn_toJson (r : FileReport) : rowsIn r.toJson = r.verdicts.flatMap rowsOf := by
  simp only [rowsIn, FileReport.results_toJson, List.flatMap_map, Verdict.issues_toJson,
    List.map_map, Function.comp_def, rowIn_toJson]
  rfl

variable {vs : List Verdict}

theorem flatMap_rowsOf_filter (h : ∀ v ∈ vs, v.Sound) :
    (vs.filter (!·.valid)).flatMap rowsOf = vs.flatMap rowsOf ∧
      (vs.filter (!·.valid) = [] ↔ vs.flatMap rowsOf = []) := by
  induction vs with
  | nil => exact ⟨rfl, by simp⟩
  | cons v vs ih =>
    rw [List.forall_mem_cons] at h
    obtain ⟨hrows, hnil⟩ := ih h.2
    have hvalid := h.1.valid
    cases hissues : v.issues with
    | nil =>
      rw [hissues] at hvalid
      have hnone : rowsOf v = [] := by rw [rowsOf, hissues, List.map_nil]
      rw [List.filter_cons_of_neg (by simp [hvalid]), List.flatMap_cons, hnone]
      exact ⟨hrows, hnil⟩
    | cons i issues =>
      rw [hissues] at hvalid
      have hsome : rowsOf v ≠ [] := by simp [rowsOf, hissues]
      rw [List.filter_cons_of_pos (by simp [hvalid]), List.flatMap_cons, List.flatMap_cons, hrows]
      exact ⟨rfl, by simp [hsome]⟩

theorem ofReport?_eq {r : FileReport} (base : Path) (h : r.Sound) :
    ofReport? base r = ofFile? base r.toJson := by
  obtain ⟨hrows, hnil⟩ := flatMap_rowsOf_filter h.verdicts
  unfold ofReport? ofFile?
  rw [rowsIn_toJson, FileReport.file_toJson]
  split
  · rename_i hvalid
    rw [hnil.mp hvalid]
    rfl
  · rename_i v rest hinvalid
    have hne : r.verdicts.flatMap rowsOf ≠ [] := by
      intro he
      rw [hnil.mpr he] at hinvalid
      contradiction
    rw [← hinvalid, hrows, if_neg (by simpa using hne)]

/-- The tables of a run are those of the files in its payload. -/
theorem ofRun_eq_ofPayload (base : Path) {r : RunReport} (h : ∀ file ∈ r.reports, file.Sound) :
    ofRun base r = ofPayload base r.toJson := by
  rw [ofRun, ofPayload, RunReport.files_toJson, List.filterMap_map]
  exact List.filterMap_congr fun file hfile => ofReport?_eq base (h file hfile)

theorem ofRun_eq_nil (base : Path) {r : RunReport} (h : ∀ v ∈ r.verdicts, v.valid = true) :
    ofRun base r = [] := by
  refine List.filterMap_eq_nil_iff.mpr fun file hfile => ?_
  have hvalid : file.verdicts.filter (!·.valid) = [] := by
    refine List.filter_eq_nil_iff.mpr fun v hv => ?_
    simp [h v (List.mem_flatMap.mpr ⟨file, hfile, hv⟩)]
  rw [ofReport?, hvalid]

end Table

/-! ## Issues -/

namespace RunReport

def issuesIn (payload : Json) : List Json :=
  (payload.field "files").items.flatMap fun file =>
    (file.field "results").items.flatMap fun result => (result.field "issues").items

theorem issuesIn_toJson (r : RunReport) :
    issuesIn r.toJson = (r.verdicts.flatMap (·.issues)).map (·.toJson) := by
  simp only [issuesIn, verdicts, files_toJson, FileReport.results_toJson, Verdict.issues_toJson,
    List.flatMap_map, List.flatMap_assoc, List.map_flatMap]

variable {config : Config} {read : Path → Except ReadFault Text} {paths : List Path}

/-- A circuit of a run has issues exactly when there is an issue in the payload. -/
theorem hasIssues_ofFiles :
    (ofFiles config read paths).summary.hasIssues =
      !(issuesIn (ofFiles config read paths).toJson).isEmpty := by
  have haccounts := accounts_ofFiles config read paths
  rw [Bool.eq_iff_iff, haccounts.hasIssues, haccounts.warnings, issuesIn_toJson,
    List.length_pos_iff]
  simp

end RunReport

theorem RunSummary.success_mem_lines {s : RunSummary} :
    success ∈ s.lines ↔ s.warnings = 0 ∧ s.errors = 0 := by
  have hhead : success.head? = some 'A' := rfl
  have hfiles : success ≠ "  Files checked: ".toList ++ Text.decimal s.files ++
      ", Circuits: ".toList ++ Text.decimal s.circuits ++ ", Valid: ".toList ++
      Text.decimal s.valid := by
    intro h
    rw [h] at hhead
    simp at hhead
  have hissues : success ≠ "  Issues: ".toList ++ Text.decimal s.warnings ++
      " warning(s), ".toList ++ Text.decimal s.errors ++ " error(s)".toList := by
    intro h
    rw [h] at hhead
    simp at hhead
  simp only [lines, List.mem_cons, List.not_mem_nil, or_false]
  constructor
  · rintro (h | h | h | h)
    · exact absurd h (by decide)
    · exact absurd h (by decide)
    · exact absurd h hfiles
    · split at h
      · exact absurd h hissues
      · rename_i hnone
        simpa using hnone
  · rintro ⟨hw, he⟩
    refine Or.inr (Or.inr (Or.inr ?_))
    rw [if_neg (by simp [hw, he])]

theorem RunReport.success_mem_prints {r : RunReport} {base : Path} :
    .line RunSummary.success ∈ r.prints base ↔ r.summary.warnings = 0 ∧ r.summary.errors = 0 := by
  rw [prints, List.mem_append, List.mem_flatMap, List.mem_map, ← RunSummary.success_mem_lines]
  simp [Table.prints]

end CircuitDocs
