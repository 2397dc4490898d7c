import CircuitDocs.Proofs.Rules.Selection
import Mathlib.Algebra.Order.Ring.Unbundled.Rat
import Mathlib.Data.List.Forall2
import Mathlib.Data.List.Nodup

/-! # The cross-check of parameters

The issues about parameters tell which declared names are not documented and which documented
names are not declared. The hint for a stray name is the first of the undocumented parameters that
are most similar to it, provided that they are similar enough.
-/

namespace CircuitDocs

variable {threshold : Threshold} {record : Record} {config : Config}
variable {v : Rat} {name : Text} {candidates : List Text}

/-! ## Issues of one rule -/

theorem filter_field_check (rule rule' : Rule) :
    (Rule.check threshold record rule').filter (·.field = rule.field) =
      if rule' = rule then Rule.check threshold record rule' else [] := by
  have hfield : ∀ i ∈ Rule.check threshold record rule', i.field = rule'.field := by
    intro i hi
    obtain ⟨message, rfl⟩ := Rule.eq_warning_of_mem_check hi
    rfl
  split
  · rename_i heq
    apply List.filter_eq_self.mpr
    intro i hi
    rw [hfield i hi, heq, decide_eq_true rfl]
  · rename_i hne
    apply List.filter_eq_nil_iff.mpr
    intro i hi
    rw [hfield i hi, decide_eq_true_eq]
    exact fun h => hne (Rule.field_injective h)

theorem flatMap_ite_eq {rules : List Rule} (hrules : rules.Nodup) {rule : Rule} (h : rule ∈ rules)
    (f : Rule → List Issue) : rules.flatMap (fun r => if r = rule then f r else []) = f rule := by
  induction rules with
  | nil => simp at h
  | cons a rules ih =>
    obtain ⟨ha, hrules⟩ := List.nodup_cons.mp hrules
    rw [List.flatMap_cons]
    by_cases heq : a = rule
    · subst heq
      have hrest : rules.flatMap (fun r => if r = a then f r else []) = [] := by
        rw [List.flatMap_eq_nil_iff]
        intro r hr
        have hne : r ≠ a := fun h => ha (h ▸ hr)
        exact if_neg hne
      rw [if_pos rfl, hrest, List.append_nil]
    · rw [if_neg heq, List.nil_append]
      exact ih hrules ((List.mem_cons.mp h).resolve_left (Ne.symm heq))

theorem Config.filter_field_issues (hexempts : config.exempts record = false)
    (hdocumented : record.documented = true) {rule : Rule} (hrule : config.requires rule = true) :
    (config.issues threshold record).filter (·.field = rule.field) =
      Rule.check threshold record rule := by
  have hnodup : (Rule.all.filter config.requires).Nodup := List.Nodup.filter _ (by decide)
  have hmem : rule ∈ Rule.all.filter config.requires :=
    List.mem_filter.mpr ⟨rule.mem_all, hrule⟩
  simp only [issues, hexempts, hdocumented, Bool.false_eq_true, if_false, if_true,
    List.filter_flatMap, filter_field_check]
  exact flatMap_ite_eq hnodup hmem _

/-! ## The best candidate -/

theorem Threshold.metBy_mono {s s' : Rat} (h : threshold.metBy s = true) (hs : s ≤ s') :
    threshold.metBy s' = true := by
  cases threshold with
  | reach value _ _ => exact decide_eq_true ((of_decide_eq_true h).trans hs)
  | never => exact h

namespace Hint

def Close (v : Rat) (name candidate : Text) : Prop :=
  v ≤ Similarity.ratio name candidate ∧ 0 < Similarity.ratio name candidate

/-- The first of the candidates that are most similar to a name. -/
def IsForemost (name : Text) (candidates : List Text) (best : Text) : Prop :=
  ∃ before after, candidates = before ++ best :: after ∧
    (∀ c ∈ before, Similarity.ratio name c < Similarity.ratio name best) ∧
    ∀ c ∈ after, Similarity.ratio name c ≤ Similarity.ratio name best

theorem IsForemost.mem {best : Text} (h : IsForemost name candidates best) :
    best ∈ candidates := by
  obtain ⟨before, after, rfl, -, -⟩ := h
  simp

theorem IsForemost.cons {best d : Text} (h : IsForemost name candidates best)
    (hd : Similarity.ratio name d < Similarity.ratio name best) :
    IsForemost name (d :: candidates) best := by
  obtain ⟨before, after, rfl, hbefore, hafter⟩ := h
  exact ⟨d :: before, after, rfl, List.forall_mem_cons.mpr ⟨hd, hbefore⟩, hafter⟩

/-- The search keeps the best so far if no candidate that reaches the threshold is better than it,
and gives the foremost candidate otherwise. -/
theorem bestFrom_cases (threshold : Threshold) (name : Text) (best : Option Text) (r : Rat)
    (candidates : List Text) :
    (bestFrom threshold name best r candidates = best ∧ ∀ c ∈ candidates,
      threshold.metBy (Similarity.ratio name c) = true → Similarity.ratio name c ≤ r) ∨
    ∃ c, bestFrom threshold name best r candidates = some c ∧
      threshold.metBy (Similarity.ratio name c) = true ∧ r < Similarity.ratio name c ∧
      IsForemost name candidates c := by
  induction candidates generalizing best r with
  | nil => exact Or.inl ⟨rfl, by simp⟩
  | cons d candidates ih =>
    rw [bestFrom]
    split
    · -- the candidate is taken; whatever is more similar than it reaches the threshold as well
      rename_i hd
      right
      rcases ih (some d) (Similarity.ratio name d) with ⟨heq, hle⟩ | ⟨c, heq, hmet, hlt, hbest⟩
      · refine ⟨d, heq, hd.1, hd.2, [], candidates, rfl, by simp, fun c hc => ?_⟩
        by_contra hlt
        exact hlt (hle c hc (Threshold.metBy_mono hd.1 (le_of_not_ge hlt)))
      · exact ⟨c, heq, hmet, hd.2.trans hlt, hbest.cons hlt⟩
    · -- the candidate is passed over, so it is less similar than any that is taken later
      rename_i hd
      rcases ih best r with ⟨heq, hle⟩ | ⟨c, heq, hmet, hlt, hbest⟩
      · refine Or.inl ⟨heq, List.forall_mem_cons.mpr ⟨fun hmet => ?_, hle⟩⟩
        exact le_of_not_gt fun hlt => hd ⟨hmet, hlt⟩
      · refine Or.inr ⟨c, heq, hmet, hlt, hbest.cons (lt_of_not_ge fun hge => hd ?_)⟩
        exact ⟨Threshold.metBy_mono hmet hge, lt_of_lt_of_le hlt hge⟩

/-- There is a hint just when a candidate is close, and then it is the foremost candidate. -/
theorem best?_cases (h₀ : 0 ≤ v) (h₁ : v ≤ 1) (name : Text) (candidates : List Text) :
    (best? (.reach v h₀ h₁) name candidates = none ∧ ∀ c ∈ candidates, ¬ Close v name c) ∨
    ∃ c, best? (.reach v h₀ h₁) name candidates = some c ∧ Close v name c ∧
      IsForemost name candidates c := by
  rcases bestFrom_cases (.reach v h₀ h₁) name none 0 candidates with
    ⟨heq, hle⟩ | ⟨c, heq, hmet, hlt, hbest⟩
  · refine Or.inl ⟨heq, fun c hc hclose => ?_⟩
    exact absurd (hle c hc (decide_eq_true hclose.1)) (not_le_of_gt hclose.2)
  · exact Or.inr ⟨c, heq, ⟨of_decide_eq_true hmet, hlt⟩, hbest⟩

example : best? .usual "amout".toList ["to".toList, "amount".toList] = some "amount".toList := by
  decide +kernel

end Hint

/-! ## The issues about parameters -/

namespace Params

def IsMissing (record : Record) (p : Parameter) (i : Issue) : Prop :=
  i = .warning ("Missing @param documentation for parameter \"".toList ++ p.name ++
    "\" (type: ".toList ++ p.type ++ ")".toList) record.firstLine "@param".toList

def undocumentedNames (record : Record) : List Text :=
  (undocumented record).map (·.name)

def strayText (p : Doc.Param) : Text :=
  "Documented @param \"".toList ++ p.name ++ "\" does not exist in circuit signature".toList

def hintText (best : Text) : Text := " (did you mean \"".toList ++ best ++ "\"?)".toList

/-- The warning that an entry names no declared parameter. It has a hint just when the name of an
undocumented parameter is close; then the hint is the foremost of those names. -/
inductive IsStray (v : Rat) (record : Record) (p : Doc.Param) : Issue → Prop where
  | plain : (∀ name ∈ undocumentedNames record, ¬ Hint.Close v p.name name) →
      IsStray v record p (.warning (strayText p) record.firstLine "@param".toList)
  | hinted {best : Text} : Hint.Close v p.name best →
      Hint.IsForemost p.name (undocumentedNames record) best →
      best ∉ record.doc.params.map (·.name) → best ≠ p.name →
      IsStray v record p
        (.warning (strayText p ++ hintText best) record.firstLine "@param".toList)

theorem of_mem_undocumentedNames {name : Text} (h : name ∈ undocumentedNames record) :
    name ∈ record.signature.parameters.map (·.name) ∧ name ∉ record.doc.params.map (·.name) := by
  obtain ⟨p, hp, rfl⟩ := List.mem_map.mp h
  obtain ⟨hdeclared, hundocumented⟩ := List.mem_filter.mp hp
  exact ⟨List.mem_map_of_mem hdeclared, of_decide_eq_true hundocumented⟩

theorem hint_none : hint none = [] := rfl

theorem hint_of_ne_nil {best : Text} (h : best ≠ []) : hint (some best) = hintText best := by
  obtain ⟨c, best, rfl⟩ := List.exists_cons_of_ne_nil h
  rfl

theorem stray_eq_append (threshold : Threshold) (record : Record) (p : Doc.Param) :
    stray threshold record p =
      strayText p ++ hint (Hint.best? threshold p.name (undocumentedNames record)) := rfl

theorem isStray_stray (h₀ : 0 ≤ v) (h₁ : v ≤ 1)
    (hnames : ∀ p ∈ record.signature.parameters, p.name ≠ []) {p : Doc.Param}
    (hp : p.name ∉ record.signature.parameters.map (·.name)) :
    IsStray v record p
      (.warning (stray (.reach v h₀ h₁) record p) record.firstLine "@param".toList) := by
  have htext := stray_eq_append (.reach v h₀ h₁) record p
  rcases Hint.best?_cases h₀ h₁ p.name (undocumentedNames record) with
    ⟨heq, hclose⟩ | ⟨best, heq, hclose, hbest⟩
  · rw [heq, hint_none, List.append_nil] at htext
    rw [htext]
    exact .plain hclose
  · obtain ⟨hdeclared, hundocumented⟩ := of_mem_undocumentedNames hbest.mem
    have hne : best ≠ [] := by
      obtain ⟨q, hq, rfl⟩ := List.mem_map.mp hdeclared
      exact hnames q hq
    have hself : best ≠ p.name := fun h => hp (h ▸ hdeclared)
    rw [heq, hint_of_ne_nil hne] at htext
    rw [htext]
    exact .hinted hclose hbest hundocumented hself

theorem undocumented_eq_nil_iff : undocumented record = [] ↔
    ∀ name ∈ record.signature.parameters.map (·.name), name ∈ record.doc.params.map (·.name) := by
  simp [undocumented]

theorem undeclared_eq_nil_iff : undeclared record = [] ↔
    ∀ name ∈ record.doc.params.map (·.name), name ∈ record.signature.parameters.map (·.name) := by
  simp [undeclared]

theorem check_eq_nil_iff : check threshold record = [] ↔
    ∀ name, name ∈ record.signature.parameters.map (·.name) ↔
      name ∈ record.doc.params.map (·.name) := by
  rw [check, List.append_eq_nil_iff, List.map_eq_nil_iff, List.map_eq_nil_iff,
    undocumented_eq_nil_iff, undeclared_eq_nil_iff]
  constructor
  · rintro ⟨hdocumented, hdeclared⟩ name
    exact ⟨hdocumented name, hdeclared name⟩
  · intro h
    exact ⟨fun name => (h name).mp, fun name => (h name).mpr⟩

end Params

/-- The issues about parameters are one for each declared parameter that is not documented, and
then one for each documented entry that is not declared, with the best hint there is. -/
theorem Config.cross_check_exact (config : Config) (record : Record) (v : Rat)
    (h₀ : 0 ≤ v) (h₁ : v ≤ 1)
    (hdocumented : record.documented = true) (hexempts : config.exempts record = false)
    (hrequired : config.requireParams = true) (hparameters : record.signature.parameters ≠ [])
    (hnames : ∀ p ∈ record.signature.parameters, p.name ≠ []) :
    let declared := record.signature.parameters.map (·.name)
    let documented := record.doc.params.map (·.name)
    ∃ missing stray,
      (config.issues (.reach v h₀ h₁) record).filter (·.field = "@param".toList) =
        missing ++ stray ∧
      List.Forall₂ (Params.IsMissing record)
        (record.signature.parameters.filter (·.name ∉ documented)) missing ∧
      List.Forall₂ (Params.IsStray v record)
        (record.doc.params.filter (·.name ∉ declared)) stray ∧
      (missing ++ stray = [] ↔ ∀ name, name ∈ declared ↔ name ∈ documented) := by
  intro declared documented
  have hissues : (config.issues (.reach v h₀ h₁) record).filter (·.field = "@param".toList) =
      Params.check (.reach v h₀ h₁) record := by
    have hrule : config.requires .params = true := hrequired
    refine (config.filter_field_issues hexempts hdocumented hrule).trans ?_
    rw [Rule.check, if_neg (by simpa using hparameters)]
  refine ⟨_, _, hissues, ?_, ?_, Params.check_eq_nil_iff⟩
  · exact List.forall₂_map_right_iff.mpr (List.forall₂_same.mpr fun p _ => rfl)
  · refine List.forall₂_map_right_iff.mpr (List.forall₂_same.mpr fun p hp => ?_)
    exact Params.isStray_stray h₀ h₁ hnames (of_decide_eq_true (List.mem_filter.mp hp).2)

def Record.transfer : Record where
  signature := ⟨"transfer".toList, true,
    [⟨"to".toList, "Address".toList⟩, ⟨"amount".toList, "Uint<64>".toList⟩], "[]".toList, 4⟩
  comment := "/**\n * @param \x7bUint<64>\x7d amout - Amount.\n */".toList
  doc := { params := [⟨"amout".toList, "Uint<64>".toList, "Amount.".toList⟩] }
  documented := true
  firstLine := 1
  lastLine := 3

theorem Config.cross_check_exact_transfer :
    ∃ missing stray,
      (({} : Config).issues (.reach (4 / 5) (by decide +kernel) (by decide +kernel))
          Record.transfer).filter (·.field = "@param".toList) = missing ++ stray ∧
        missing.length = 2 ∧ stray.length = 1 ∧ missing ++ stray ≠ [] := by
  obtain ⟨missing, stray, hissues, hmissing, hstray, hnil⟩ :=
    Config.cross_check_exact {} Record.transfer (4 / 5) (by decide +kernel) (by decide +kernel)
      rfl rfl rfl (by decide) (by decide)
  refine ⟨missing, stray, hissues, hmissing.length_eq.symm, hstray.length_eq.symm, ?_⟩
  rw [ne_eq, hnil]
  exact fun h => absurd ((h "to".toList).mp (by decide)) (by decide)

end CircuitDocs
