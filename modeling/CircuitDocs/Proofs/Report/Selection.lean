import CircuitDocs.Proofs.Report.Run
import CircuitDocs.Proofs.Rules.Selection
import Mathlib.Algebra.Order.BigOperators.Group.List
import Mathlib.Algebra.Order.Group.Nat

/-! # Reports and the selection of rules

Each verdict lists more issues under a configuration that asks for more. So every count of issues
grows, for a file and for a run.
-/

namespace CircuitDocs

variable {c c' : Config}

namespace FileReport

/-- Every verdict of the first report lists some of the issues of the second one, in order, and the
counts of issues are no greater. -/
structure Below (r r' : FileReport) : Prop where
  issues : List.Forall₂ (fun v v' => v.issues.Sublist v'.issues) r.verdicts r'.verdicts
  withIssues : r.summary.withIssues ≤ r'.summary.withIssues
  warnings : r.summary.warnings ≤ r'.summary.warnings
  errors : r.summary.errors ≤ r'.summary.errors

theorem below_ofSource (h : c ≤ c') (file source : Text) :
    Below (ofSource c file source) (ofSource c' file source) := by
  have hissues := Config.issues_sublist h .usual
  have hsummary := fun config : Config => (sound_ofSource config file source).summary_eq
  constructor
  · simp only [ofSource, ofRecords, List.forall₂_map_left_iff, List.forall₂_map_right_iff,
      List.forall₂_same]
    exact fun record _ => hissues record
  · rw [hsummary, hsummary]
    simp only [ofSource, ofRecords, List.countP_map]
    apply List.countP_mono_left
    intro record _ hne
    simp only [Function.comp_apply, Config.verdict, Bool.not_eq_true', List.isEmpty_eq_false_iff]
      at hne ⊢
    rintro hnil
    exact hne (List.sublist_nil.mp (hnil ▸ hissues record))
  · rw [hsummary, hsummary]
    simp only [ofSource, ofRecords, List.flatMap_map, List.length_flatMap]
    apply List.sum_le_sum
    intro record _
    exact (hissues record).length_le
  · rw [hsummary, hsummary]

end FileReport

namespace RunReport

variable {read : Path → Except ReadFault Text} {paths : List Path}

theorem withIssues_le (h : c ≤ c') :
    (ofFiles c read paths).summary.withIssues ≤ (ofFiles c' read paths).summary.withIssues := by
  have hreports : ∀ config : Config, (ofFiles config read paths).reports =
      (paths.filterMap fun p => (read p).toOption.map fun source => (p.text, source)).map
        fun x => FileReport.ofSource config x.1 x.2 := by
    intro config
    rw [List.map_filterMap]
    apply List.filterMap_congr
    intro p _
    unfold reportOf?
    cases read p <;> rfl
  simp only [summary, RunSummary.ofReports, RunSummary.total_eq_sum, hreports, List.map_map]
  apply List.sum_le_sum
  intro x _
  exact (FileReport.below_ofSource h x.1 x.2).withIssues

end RunReport

end CircuitDocs
