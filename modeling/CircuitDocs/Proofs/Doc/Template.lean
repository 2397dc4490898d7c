import CircuitDocs.Proofs.Doc.RoundTrip
import CircuitDocs.Proofs.Rules.CircuitInfo

/-! # Filled-in templates

A template has one part for each rule, in the order of the rules, and any part may be left out. A
part that is there is read as it was filled in, whatever the parts around it are.
-/

namespace CircuitDocs

open Text

namespace Doc

/-! ## Marks and rules -/

def Mark.rule : Mark → Rule
  | tag .title => .title
  | tag .description => .description
  | tag .remarks => .remarks
  | tag .circuitInfo => .circuitInfo
  | param _ _ => .params
  | throws _ => .throws
  | returns _ => .returns

theorem Mark.rule_eq_iff {m : Mark} {tag : Tag} : m.rule = (Mark.tag tag).rule ↔ m = .tag tag := by
  cases m with
  | tag t => cases t <;> cases tag <;> decide
  | param type name => cases tag <;> simp [rule]
  | throws type => cases tag <;> simp [rule]
  | returns type => cases tag <;> simp [rule]

def Passage.prose (p : Passage) : Text := [' '].intercalate p.words

namespace Tagged

variable {es : List Tagged}

theorem sectionWords_eq {tag : Tag} {e : Tagged} (h : ∀ e' ∈ es, e'.mark ≠ .tag tag) :
    sectionWords tag e es = e.words := by
  cases es with
  | nil => rfl
  | cons e' es =>
    rw [sectionWords, if_neg]
    rintro ⟨rfl, -, hm⟩
    exact h e' (by simp) hm

theorem value?_of_filter (tag : Tag) {o : Option Tagged}
    (h : es.filter (·.mark.rule = (Mark.tag tag).rule) = o.toList) :
    value? tag es = o.bind fun e => joined? e.words := by
  induction es generalizing o with
  | nil =>
    cases o with
    | none => rfl
    | some e => simp at h
  | cons e es ih =>
    by_cases hm : e.mark = .tag tag
    · rw [List.filter_cons_of_pos (by simp [hm])] at h
      cases o with
      | none => simp at h
      | some e' =>
        obtain ⟨rfl, hnone⟩ := List.cons.inj h
        have hwords : sectionWords tag e es = e.words := sectionWords_eq fun e' he' h => by
          have := List.filter_eq_nil_iff.mp hnone e' he'
          simp [h] at this
        rw [value?, if_pos hm, hwords]
        rfl
    · rw [List.filter_cons_of_neg (by simpa [Mark.rule_eq_iff] using hm)] at h
      rw [value?, if_neg hm, ih h]

theorem param?_eq_none {e : Tagged} (h : e.mark.rule ≠ .params) : e.param? = none := by
  unfold param?
  split
  · rename_i hm
    exact absurd (congrArg Mark.rule hm) h
  · rfl

theorem throws?_eq_none {e : Tagged} (h : e.mark.rule ≠ .throws) : e.throws? = none := by
  unfold throws?
  split
  · rename_i hm
    exact absurd (congrArg Mark.rule hm) h
  · rfl

theorem returns?_cons {e : Tagged} (h : e.mark.rule ≠ .returns) :
    returns? (e :: es) = returns? es := by
  rw [returns?]
  split
  · rename_i hm
    exact absurd (congrArg Mark.rule hm) h
  · rfl

theorem filterMap_filter_rule {α : Type} {f : Tagged → Option α} {rule : Rule}
    (hf : ∀ e : Tagged, e.mark.rule ≠ rule → f e = none) :
    (es.filter (·.mark.rule = rule)).filterMap f = es.filterMap f := by
  rw [List.filterMap_filter]
  refine List.filterMap_congr fun e _ => ?_
  by_cases h : e.mark.rule = rule
  · simp [h]
  · simp [h, hf e h]

theorem returns?_filter_rule : returns? (es.filter (·.mark.rule = .returns)) = returns? es := by
  induction es with
  | nil => rfl
  | cons e es ih =>
    by_cases h : e.mark.rule = .returns
    · rw [List.filter_cons_of_pos (by simp [h]), returns?, returns?, ih]
    · rw [List.filter_cons_of_neg (by simp [h]), returns?_cons h, ih]

end Tagged

end Doc

open Doc

namespace Template

structure Typed where
  type : Text
  passage : Passage
deriving DecidableEq, Repr

structure Param extends Typed where
  name : Text
deriving DecidableEq, Repr

end Template

/-- A filled-in template. Any part may be left out. -/
structure Template where
  lead : Nat
  title : Option Passage
  description : Option Passage
  remarks : Option Passage
  circuitInfo : Option Passage
  params : List Template.Param
  throws : Option Template.Typed
  returns : Option Template.Typed
deriving DecidableEq, Repr

namespace Template

variable {t : Template}

def part (t : Template) : Rule → List Layout
  | .title => t.title.toList.map (⟨.tag .title, ·⟩)
  | .description => t.description.toList.map (⟨.tag .description, ·⟩)
  | .remarks => t.remarks.toList.map (⟨.tag .remarks, ·⟩)
  | .circuitInfo => t.circuitInfo.toList.map (⟨.tag .circuitInfo, ·⟩)
  | .params => t.params.map fun p => ⟨.param p.type p.name, p.passage⟩
  | .throws => t.throws.toList.map fun p => ⟨.throws p.type, p.passage⟩
  | .returns => t.returns.toList.map fun p => ⟨.returns p.type, p.passage⟩

def layouts (t : Template) : List Layout := Rule.all.flatMap t.part

structure WellFormed (t : Template) : Prop where
  layouts : ∀ e ∈ t.layouts, e.WellFormed ∧ e.passage.words ≠ []
  circuitInfo : ∀ p ∈ t.circuitInfo, ∃ k rows, CircuitInfo.IsNumber k ∧
    CircuitInfo.IsNumber rows ∧ p.words = ["k=".toList ++ (k ++ [',']), "rows=".toList ++ rows]

def doc (t : Template) : Doc where
  title := t.title.map Passage.prose
  description := t.description.map Passage.prose
  remarks := t.remarks.map Passage.prose
  circuitInfo := t.circuitInfo.map Passage.prose
  params := t.params.map fun p => ⟨p.name, p.type, p.passage.prose⟩
  throws := t.throws.toList.map fun p => ⟨p.type, p.passage.prose⟩
  returns := t.returns.map fun p => ⟨p.type, p.passage.prose⟩

theorem rule_of_mem_part {rule : Rule} {e : Layout} (h : e ∈ t.part rule) : e.mark.rule = rule := by
  cases rule <;> obtain ⟨p, -, rfl⟩ := List.mem_map.mp h <;> rfl

theorem filter_layouts (t : Template) (rule : Rule) :
    (t.layouts.map Layout.tagged).filter (·.mark.rule = rule) =
      (t.part rule).map Layout.tagged := by
  have hpart : ∀ r : Rule, ((t.part r).map Layout.tagged).filter (·.mark.rule = rule) =
      if r = rule then (t.part rule).map Layout.tagged else [] := by
    intro r
    split
    · subst r
      refine List.filter_eq_self.mpr fun e he => ?_
      obtain ⟨l, hl, rfl⟩ := List.mem_map.mp he
      exact decide_eq_true (rule_of_mem_part hl)
    · rename_i hr
      refine List.filter_eq_nil_iff.mpr fun e he => ?_
      obtain ⟨l, hl, rfl⟩ := List.mem_map.mp he
      have := rule_of_mem_part hl
      simp [Layout.tagged, this, hr]
  simp only [layouts, Rule.all, List.flatMap_cons, List.flatMap_nil, List.map_append,
    List.filter_append, hpart]
  cases rule <;> simp

theorem mem_layouts {rule : Rule} {e : Layout} (h : e ∈ t.part rule) : e ∈ t.layouts :=
  List.mem_flatMap.mpr ⟨rule, by cases rule <;> decide, h⟩

theorem WellFormed.value?_layouts (ht : t.WellFormed) (tag : Tag) {o : Option Passage}
    (hpart : t.part (Mark.tag tag).rule = o.toList.map (⟨.tag tag, ·⟩)) :
    Tagged.value? tag (t.layouts.map Layout.tagged) = o.map Passage.prose := by
  have h := filter_layouts t (Mark.tag tag).rule
  rw [hpart, List.map_map, ← Option.toList_map] at h
  rw [Tagged.value?_of_filter tag h]
  cases o with
  | none => rfl
  | some p =>
    have hp := (ht.layouts ⟨.tag tag, p⟩ (mem_layouts (by rw [hpart]; simp))).2
    simp only [Option.map_some, Option.bind_some, Tagged.joined?]
    exact if_neg hp

theorem WellFormed.doc_layouts (ht : t.WellFormed) :
    Tagged.doc (t.layouts.map Layout.tagged) = t.doc := by
  have hparams : (t.layouts.map Layout.tagged).filterMap Tagged.param? = t.doc.params := by
    rw [← Tagged.filterMap_filter_rule fun e => Tagged.param?_eq_none, filter_layouts, part,
      List.map_map, List.filterMap_map]
    exact congrFun (List.filterMap_eq_map (f := fun p : Param =>
      (⟨p.name, p.type, p.passage.prose⟩ : Doc.Param))) t.params
  have hthrows : (t.layouts.map Layout.tagged).filterMap Tagged.throws? = t.doc.throws := by
    rw [← Tagged.filterMap_filter_rule fun e => Tagged.throws?_eq_none, filter_layouts, part,
      List.map_map, List.filterMap_map]
    exact congrFun (List.filterMap_eq_map (f := fun p : Typed =>
      (⟨p.type, p.passage.prose⟩ : Doc.Throws))) t.throws.toList
  have hreturns : Tagged.returns? (t.layouts.map Layout.tagged) = t.doc.returns := by
    rw [← Tagged.returns?_filter_rule, filter_layouts, part, doc]
    cases hr : t.returns with
    | none => rfl
    | some p =>
      have hp := (ht.layouts ⟨.returns p.type, p.passage⟩
        (mem_layouts (show _ ∈ t.part .returns by simp [part, hr]))).2
      exact if_neg fun h => hp h.2
  rw [Tagged.doc, ht.value?_layouts .title rfl, ht.value?_layouts .description rfl,
    ht.value?_layouts .remarks rfl, ht.value?_layouts .circuitInfo rfl, hparams, hthrows, hreturns,
    doc]

end Template

end CircuitDocs
