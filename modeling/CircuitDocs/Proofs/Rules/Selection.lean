import CircuitDocs.Proofs.Rules.Check
import Mathlib.Logic.Function.Basic

/-! # Selection of rules

Configurations are ordered by what they ask for. What one of them finds is picked out, by the tags
of its rules, from what any configuration above it finds.
-/

namespace CircuitDocs

variable {threshold : Threshold} {record : Record} {i : Issue} {c c' : Config}

theorem flatMap_filter_requires (config : Config) (rules : List Rule) (f : Rule → List Issue) :
    (rules.filter config.requires).flatMap f =
      rules.flatMap fun rule => if config.requires rule then f rule else [] := by
  induction rules with
  | nil => rfl
  | cons rule rules ih =>
    rw [List.filter_cons, List.flatMap_cons, ← ih]
    split <;> rfl

theorem Rule.mem_all (rule : Rule) : rule ∈ Rule.all := by
  cases rule <;> decide

theorem Rule.field_injective : Function.Injective Rule.field := by
  intro rule rule' h
  have hall : ∀ rule ∈ Rule.all, ∀ rule' ∈ Rule.all, rule.field = rule'.field → rule = rule' := by
    decide
  exact hall rule rule.mem_all rule' rule'.mem_all h

namespace Config

/-- The second configuration requires every rule that the first requires, and checks every circuit
that the first checks. -/
structure Below (c c' : Config) : Prop where
  requires : ∀ rule, c.requires rule = true → c'.requires rule = true
  exportedOnly : c'.exportedOnly = true → c.exportedOnly = true

instance : LE Config := ⟨Below⟩

/-- Whether every rule about the tag of an issue is required. The issue of a circuit without
documentation is about no such tag. -/
def selects (c : Config) (i : Issue) : Bool :=
  Rule.all.all fun rule => rule.field ≠ i.field || c.requires rule

theorem selects_of_field {rule : Rule} (hi : i.field = rule.field) :
    c.selects i = c.requires rule := by
  rw [Bool.eq_iff_iff]
  simp only [selects, List.all_eq_true, Bool.or_eq_true, decide_eq_true_eq, hi]
  constructor
  · intro h
    exact (h rule rule.mem_all).resolve_left fun hne => hne rfl
  · intro h rule' _
    by_cases hf : rule'.field = rule.field
    · rw [Rule.field_injective hf]
      exact Or.inr h
    · exact Or.inl hf

theorem selects_of_documentation (hi : i.field = "documentation".toList) : c.selects i = true := by
  have hne : ∀ rule ∈ Rule.all, rule.field ≠ "documentation".toList := by decide
  rw [← hi] at hne
  apply List.all_eq_true.mpr
  intro rule hrule
  rw [decide_eq_true (hne rule hrule), Bool.true_or]

theorem filter_selects_check (c : Config) (threshold : Threshold) (record : Record) (rule : Rule) :
    (Rule.check threshold record rule).filter c.selects =
      if c.requires rule then Rule.check threshold record rule else [] := by
  have hselects : ∀ i ∈ Rule.check threshold record rule, c.selects i = c.requires rule := by
    intro i hi
    obtain ⟨message, rfl⟩ := Rule.eq_warning_of_mem_check hi
    exact selects_of_field rfl
  split
  · rename_i hrule
    apply List.filter_eq_self.mpr
    intro i hi
    rw [hselects i hi, hrule]
  · rename_i hrule
    apply List.filter_eq_nil_iff.mpr
    intro i hi
    rwa [hselects i hi]

theorem not_exempts_of_le (h : c ≤ c') (hc : c.exempts record = false) :
    c'.exempts record = false := by
  rw [← Bool.not_eq_true] at hc ⊢
  simp only [exempts, Bool.and_eq_true] at hc ⊢
  rintro ⟨ho, he⟩
  exact hc ⟨h.exportedOnly ho, he⟩

theorem filter_requires_of_le (h : c ≤ c') (rules : List Rule) :
    (rules.filter c'.requires).filter c.requires = rules.filter c.requires := by
  rw [List.filter_filter]
  apply List.filter_congr
  intro rule _
  cases hr : c.requires rule with
  | false => rfl
  | true => rw [h.requires rule hr, Bool.and_self]

/-- What a configuration finds is what one above it finds, as far as it asks for it. -/
theorem issues_eq_filter (h : c ≤ c') (threshold : Threshold) (record : Record) :
    c.issues threshold record =
      if c.exempts record then [] else (c'.issues threshold record).filter c.selects := by
  cases hc : c.exempts record with
  | true => rw [issues, hc, if_pos rfl, if_pos rfl]
  | false =>
    have hc' := not_exempts_of_le h hc
    simp only [issues, hc, hc', Bool.false_eq_true, if_false]
    split
    · rw [List.filter_flatMap]
      simp only [filter_selects_check]
      rw [← flatMap_filter_requires, filter_requires_of_le h]
    · rfl

theorem issues_sublist (h : c ≤ c') (threshold : Threshold) (record : Record) :
    (c.issues threshold record).Sublist (c'.issues threshold record) := by
  rw [issues_eq_filter h]
  split
  · exact List.nil_sublist _
  · exact List.filter_sublist

end Config

end CircuitDocs
