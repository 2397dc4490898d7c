import CircuitDocs.Proofs.Circuit.Record
import CircuitDocs.Proofs.Rules.Check
import CircuitDocs.Report.Run
import Mathlib.Algebra.BigOperators.Group.List.Basic
import Mathlib.Algebra.GroupWithZero.Nat
import Mathlib.Data.List.Forall2

/-! # The accounts of a run

Counts are kept for each file and added up for the run. They all agree with the list of the verdicts
of the run: it holds one verdict for each declaration line of a file that could be read, and every
path is accounted for by a report or by an error.
-/

namespace CircuitDocs

open Text

/-! ## Verdicts -/

/-- What holds of the verdicts that a configuration gives. -/
structure Verdict.Sound (v : Verdict) : Prop where
  valid : v.valid = v.issues.isEmpty
  severity : ∀ i ∈ v.issues, i.severity = .warning

theorem Config.verdict_sound (config : Config) (threshold : Threshold) (file : Text)
    (record : Record) : (config.verdict threshold file record).Sound where
  valid := rfl
  severity _ h := Config.severity_of_mem_issues h

namespace FileSummary

variable {file : Text} {vs : List Verdict}

theorem ofVerdicts_eq (h : ∀ v ∈ vs, v.Sound) :
    ofVerdicts file vs =
      { file
        circuits := vs.length
        valid := vs.countP (·.valid)
        withIssues := vs.countP fun v => !v.issues.isEmpty
        warnings := (vs.flatMap (·.issues)).length
        errors := 0 } := by
  have hsplit := List.length_eq_countP_add_countP (fun v : Verdict => v.valid) (l := vs)
  have hissues : vs.countP (fun v => decide ¬ v.valid = true) =
      vs.countP fun v => !v.issues.isEmpty := by
    apply List.countP_congr
    intro v hv
    simp [(h v hv).valid]
  have hseverity : ∀ s ∈ vs.flatMap (fun v => v.issues.map (·.severity)), s = .warning := by
    intro s hs
    obtain ⟨v, hv, hs⟩ := List.mem_flatMap.mp hs
    obtain ⟨i, hi, rfl⟩ := List.mem_map.mp hs
    exact (h v hv).severity i hi
  have hwarnings := List.count_eq_length.mpr fun s hs => (hseverity s hs).symm
  have herrors : (vs.flatMap fun v => v.issues.map (·.severity)).count .error = 0 := by
    rw [List.count_eq_zero]
    intro hs
    exact absurd (hseverity _ hs) (by decide)
  rw [← List.map_flatMap, List.length_map] at hwarnings
  unfold ofVerdicts
  simp only [mk.injEq, true_and, herrors, and_true]
  constructor
  · omega
  · rw [← List.map_flatMap, hwarnings]

end FileSummary

/-! ## Reports -/

structure FileReport.Sound (r : FileReport) : Prop where
  summary : r.summary = .ofVerdicts r.file r.verdicts
  verdicts : ∀ v ∈ r.verdicts, v.Sound

theorem FileReport.Sound.summary_eq {r : FileReport} (h : r.Sound) :
    r.summary =
      { file := r.file
        circuits := r.verdicts.length
        valid := r.verdicts.countP (·.valid)
        withIssues := r.verdicts.countP fun v => !v.issues.isEmpty
        warnings := (r.verdicts.flatMap (·.issues)).length
        errors := 0 } :=
  h.summary.trans (FileSummary.ofVerdicts_eq h.verdicts)

theorem FileReport.sound_ofSource (config : Config) (file source : Text) :
    (FileReport.ofSource config file source).Sound where
  summary := rfl
  verdicts v hv := by
    obtain ⟨record, -, rfl⟩ := List.mem_map.mp hv
    exact config.verdict_sound _ _ _

namespace RunSummary

variable {rs rs' : List FileReport}

def add (s s' : RunSummary) : RunSummary where
  files := s.files + s'.files
  circuits := s.circuits + s'.circuits
  valid := s.valid + s'.valid
  withIssues := s.withIssues + s'.withIssues
  warnings := s.warnings + s'.warnings
  errors := s.errors + s'.errors

instance : Add RunSummary := ⟨add⟩

theorem total_eq_sum (count : FileSummary → Nat) (rs : List FileReport) :
    total count rs = (rs.map fun r => count r.summary).sum := by
  rw [total, List.sum_eq_foldr, List.foldr_map]

theorem ofReports_append (rs rs' : List FileReport) :
    ofReports (rs ++ rs') = ofReports rs + ofReports rs' := by
  change ofReports (rs ++ rs') = add (ofReports rs) (ofReports rs')
  simp [ofReports, add, total_eq_sum]

theorem ofReports_eq (h : ∀ r ∈ rs, r.Sound) :
    let vs := rs.flatMap (·.verdicts)
    ofReports rs =
      { files := rs.length
        circuits := vs.length
        valid := vs.countP (·.valid)
        withIssues := vs.countP fun v => !v.issues.isEmpty
        warnings := (vs.flatMap (·.issues)).length
        errors := 0 } := by
  induction rs with
  | nil => rfl
  | cons r rs ih =>
    have hr := h r (by simp)
    have hone : ofReports [r] = ⟨1, r.summary.circuits, r.summary.valid, r.summary.withIssues,
      r.summary.warnings, r.summary.errors⟩ := rfl
    have hrest := ih fun r' hr' => h r' (List.mem_cons_of_mem _ hr')
    have happ : ofReports (r :: rs) = add (ofReports [r]) (ofReports rs) := ofReports_append [r] rs
    intro vs
    rw [happ, hone, hrest, hr.summary_eq]
    simp [add, vs, Nat.add_comm]

end RunSummary

theorem Record.length_ofLines (above below : List Text) :
    (Record.ofLines above below).length = below.countP declares := by
  induction below generalizing above with
  | nil => rfl
  | cons line below ih =>
    rw [Record.ofLines, List.countP_cons]
    cases hh : Heading.ofLine? line with
    | none => simp [declares, hh, ih]
    | some heading => simp [declares, hh, ih]

/-! ## Runs -/

namespace RunReport

variable {config : Config} {read : Path → Except ReadFault Text}

def readable (read : Path → Except ReadFault Text) (p : Path) : Bool := (read p).isOk

/-- A report is the one of its file alone. -/
def Reports (config : Config) (read : Path → Except ReadFault Text) (p : Path) (r : FileReport) :
    Prop :=
  ∃ source, read p = .ok source ∧ r = .ofSource config p.text source

/-- An error is the one of its file alone. -/
def Fails (read : Path → Except ReadFault Text) (p : Path) (e : ReadError) : Prop :=
  ∃ fault, read p = .error fault ∧ e = ⟨p.text, fault.message⟩

theorem forall₂_filterMap {α β : Type} {p : α → Bool} {f : α → Option β} {R : α → β → Prop}
    (hp : ∀ a, p a = (f a).isSome) (hR : ∀ a b, f a = some b → R a b) (as : List α) :
    List.Forall₂ R (as.filter p) (as.filterMap f) := by
  induction as with
  | nil => exact .nil
  | cons a as ih =>
    rw [List.filter_cons, List.filterMap_cons, hp]
    cases hf : f a with
    | none => exact ih
    | some b => exact .cons (hR a b hf) ih

theorem forall₂_reports (config : Config) (read : Path → Except ReadFault Text)
    (paths : List Path) :
    List.Forall₂ (Reports config read) (paths.filter (readable read))
      (ofFiles config read paths).reports := by
  apply forall₂_filterMap
  · intro p
    unfold readable reportOf?
    cases read p <;> rfl
  · intro p r hr
    unfold reportOf? at hr
    split at hr
    · rename_i source hp
      exact ⟨source, hp, (Option.some.inj hr).symm⟩
    · contradiction

theorem forall₂_errors (config : Config) (read : Path → Except ReadFault Text)
    (paths : List Path) :
    List.Forall₂ (Fails read) (paths.filter fun p => !readable read p)
      (ofFiles config read paths).errors := by
  apply forall₂_filterMap
  · intro p
    unfold readable errorOf?
    cases read p <;> rfl
  · intro p e he
    unfold errorOf? at he
    split at he
    · contradiction
    · rename_i fault hp
      exact ⟨fault, hp, (Option.some.inj he).symm⟩

theorem sound_of_mem_reports {paths : List Path} {r : FileReport}
    (h : r ∈ (ofFiles config read paths).reports) : r.Sound := by
  obtain ⟨p, -, hr⟩ := List.mem_filterMap.mp h
  unfold reportOf? at hr
  split at hr
  · rw [← Option.some.inj hr]
    exact FileReport.sound_ofSource _ _ _
  · contradiction

def sources (read : Path → Except ReadFault Text) (paths : List Path) : List Text :=
  paths.filterMap fun p => (read p).toOption

theorem length_verdicts (config : Config) (read : Path → Except ReadFault Text)
    (paths : List Path) :
    ((ofFiles config read paths).reports.flatMap (·.verdicts)).length =
      ((sources read paths).map fun source => (lines source).countP declares).sum := by
  have hone : ∀ file source, (FileReport.ofSource config file source).verdicts.length =
      (lines source).countP declares := by
    intro file source
    rw [← Record.length_ofLines []]
    exact List.length_map _
  have hmap : ∀ p, (reportOf? config read p).map (fun r => r.verdicts.length) =
      (read p).toOption.map fun source => (lines source).countP declares := by
    intro p
    unfold reportOf?
    cases read p with
    | error fault => rfl
    | ok source => exact congrArg some (hone p.text source)
  rw [List.length_flatMap, ofFiles, sources, List.map_filterMap, List.map_filterMap, funext hmap]

def verdicts (r : RunReport) : List Verdict := r.reports.flatMap (·.verdicts)

/-- What a run over paths accounts for. -/
structure Accounts (config : Config) (read : Path → Except ReadFault Text) (paths : List Path)
    (r : RunReport) : Prop where
  reports : List.Forall₂ (Reports config read) (paths.filter (readable read)) r.reports
  errors : List.Forall₂ (Fails read) (paths.filter fun p => !readable read p) r.errors
  files : r.summary.files + r.errors.length = paths.length
  circuits : r.summary.circuits = r.verdicts.length
  declarations : r.summary.circuits =
    ((sources read paths).map fun source => (lines source).countP declares).sum
  split : r.summary.valid + r.summary.withIssues = r.summary.circuits
  withIssues : r.summary.withIssues = r.verdicts.countP fun v => !v.issues.isEmpty
  invalid : r.summary.withIssues = r.verdicts.countP fun v => !v.valid
  noErrors : r.summary.errors = 0
  warnings : r.summary.warnings = (r.verdicts.flatMap (·.issues)).length
  hasIssues : r.summary.hasIssues = true ↔ 0 < r.summary.warnings

theorem ofFiles_append (config : Config) (read : Path → Except ReadFault Text)
    (paths paths' : List Path) :
    ofFiles config read (paths ++ paths') =
      ⟨(ofFiles config read paths).reports ++ (ofFiles config read paths').reports,
        (ofFiles config read paths).errors ++ (ofFiles config read paths').errors⟩ := by
  simp only [ofFiles, List.filterMap_append]

theorem sound_of_mem_verdicts {paths : List Path} {v : Verdict}
    (h : v ∈ (ofFiles config read paths).verdicts) : v.Sound := by
  obtain ⟨r, hr, hv⟩ := List.mem_flatMap.mp h
  exact (sound_of_mem_reports hr).verdicts v hv

theorem summary_ofFiles (config : Config) (read : Path → Except ReadFault Text)
    (paths : List Path) :
    let r := ofFiles config read paths
    r.summary =
      { files := r.reports.length
        circuits := r.verdicts.length
        valid := r.verdicts.countP (·.valid)
        withIssues := r.verdicts.countP fun v => !v.issues.isEmpty
        warnings := (r.verdicts.flatMap (·.issues)).length
        errors := 0 } :=
  RunSummary.ofReports_eq fun _ => sound_of_mem_reports

theorem accounts_ofFiles (config : Config) (read : Path → Except ReadFault Text)
    (paths : List Path) : Accounts config read paths (ofFiles config read paths) := by
  have hreports := forall₂_reports config read paths
  have herrors := forall₂_errors config read paths
  have hsummary := summary_ofFiles config read paths
  have hsound : ∀ v ∈ (ofFiles config read paths).verdicts, v.Sound :=
    fun _ => sound_of_mem_verdicts
  have hverdicts := length_verdicts config read paths
  change (ofFiles config read paths).verdicts.length = _ at hverdicts
  generalize ofFiles config read paths = r at *
  have hinvalid : r.verdicts.countP (fun v => !v.issues.isEmpty) =
      r.verdicts.countP fun v => !v.valid := by
    apply List.countP_congr
    intro v hv
    rw [(hsound v hv).valid]
  constructor
  · exact hreports
  · exact herrors
  · rw [hsummary, ← hreports.length_eq, ← herrors.length_eq]
    exact (List.length_eq_length_filter_add (readable read)).symm
  · rw [hsummary]
  · rw [hsummary]
    exact hverdicts
  · have hsplit := List.length_eq_countP_add_countP (fun v : Verdict => v.valid) (l := r.verdicts)
    simp only [Bool.not_eq_true, Bool.decide_eq_false] at hsplit
    rw [hsummary, hinvalid]
    exact hsplit.symm
  · rw [hsummary]
  · rw [hsummary, hinvalid]
  · rw [hsummary]
  · rw [hsummary]
  · unfold RunSummary.hasIssues
    rw [hsummary, decide_eq_true_eq, List.countP_pos_iff, List.length_pos_iff]
    simp [List.flatMap_eq_nil_iff]

/-- In a run over files nothing is lost and nothing is counted twice, and a run over two lists of
files is made up of the runs over each. -/
theorem ofFiles_accounts (config : Config) (read : Path → Except ReadFault Text)
    (paths : List Path) :
    Accounts config read paths (ofFiles config read paths) ∧
      ∀ paths',
        ofFiles config read (paths ++ paths') =
          ⟨(ofFiles config read paths).reports ++ (ofFiles config read paths').reports,
            (ofFiles config read paths).errors ++ (ofFiles config read paths').errors⟩ ∧
        (ofFiles config read (paths ++ paths')).summary =
          (ofFiles config read paths).summary + (ofFiles config read paths').summary := by
  refine ⟨accounts_ofFiles config read paths, fun paths' => ⟨?_, ?_⟩⟩
  · exact ofFiles_append config read paths paths'
  · rw [ofFiles_append]
    exact RunSummary.ofReports_append _ _

end RunReport

end CircuitDocs
