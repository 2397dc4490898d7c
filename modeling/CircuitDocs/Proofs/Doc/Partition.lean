import CircuitDocs.Proofs.Doc.FixedPoint
import CircuitDocs.Proofs.Doc.Section
import Mathlib.Data.List.SplitBy

/-! # The sections of a block

A block is cut at the lines that open with an `@` and at its blank lines. The pieces are whole:
none has an end of a section in it, and between two of them a section ends, unless the first of
the two is a blank line.
-/

namespace CircuitDocs

open Text

variable {l t : Text} {ls ss : List Text} {gs : List (List Text)}

def continues (l l' : Text) : Bool := !(blank l || blank l' || opensTag l')

/-- The sections of a block. A line that opens with an `@` begins a section, and every blank line
stands on its own. -/
def sections (block : Text) : List Text := ((lines block).splitBy continues).map unlines

theorem unlines_sections (block : Text) : unlines (sections block) = block := by
  rw [sections, ← unlines_flatten (List.nil_notMem_splitBy _ _), List.flatten_splitBy,
    unlines_lines]

/-- Texts that are whole, such that a section ends after each of them when they are joined; after
an empty text none need end. -/
inductive Sectioned : List Text → Prop where
  | last {s : Text} : Unbroken s → Sectioned [s]
  | ends {s : Text} {ss : List Text} : Unbroken s →
      sectionEnds (fun _ => true) ('\n' :: unlines ss) = true → Sectioned ss → Sectioned (s :: ss)
  | gap {ss : List Text} : Sectioned ss → Sectioned ([] :: ss)

theorem Sectioned.ne_nil (h : Sectioned ss) : ss ≠ [] := by
  cases h <;> simp

theorem Sectioned.unbroken (h : Sectioned ss) : ∀ s ∈ ss, Unbroken s := by
  induction h with
  | last hs => simpa using hs
  | ends hs _ _ ih => simpa using ⟨hs, ih⟩
  | gap _ ih => simpa using ⟨trivial, ih⟩

/-! ## Groups of lines -/

theorem continues_iff {l l' : Text} :
    continues l l' = true ↔ blank l = false ∧ blank l' = false ∧ opensTag l' = false := by
  simp [continues, and_assoc]

theorem forall_of_isChain (h : (l :: ls).IsChain fun l l' => continues l l' = true) :
    ∀ l' ∈ ls, opensTag l' = false ∧ blank l' = false := by
  induction ls generalizing l with
  | nil => simp
  | cons k ls ih =>
    rw [List.isChain_cons_cons] at h
    obtain ⟨-, hb, ha⟩ := continues_iff.mp h.1
    intro l' hl'
    rcases List.mem_cons.mp hl' with rfl | hl'
    · exact ⟨ha, hb⟩
    · exact ih h.2 l' hl'

theorem eq_nil_of_blank (h : (l :: ls).IsChain fun l l' => continues l l' = true)
    (hb : blank l = true) : ls = [] := by
  cases ls with
  | nil => rfl
  | cons k ls =>
    rw [List.isChain_cons_cons, continues_iff, hb] at h
    simp at h

theorem eq_nil_of_blank_getLast (h : (l :: ls).IsChain fun l l' => continues l l' = true)
    (hb : blank ((l :: ls).getLast (by simp)) = true) : ls = [] := by
  by_contra hne
  have hmem : (l :: ls).getLast (by simp) ∈ ls := by
    rw [List.getLast_cons hne]
    exact List.getLast_mem hne
  rw [(forall_of_isChain h _ hmem).2] at hb
  contradiction

theorem unbroken_group (h : (l :: ls).IsChain fun l l' => continues l l' = true)
    (hn : ∀ l' ∈ l :: ls, '\n' ∉ l') : Unbroken (unlines (l :: ls)) :=
  unbroken_unlines (hn l (by simp)) fun l' hl' =>
    ⟨hn l' (by simp [hl']), forall_of_isChain h l' hl'⟩

theorem sectionEnds_of_opensTag (hl : opensTag l = true) (ls ss : List Text) :
    sectionEnds (fun _ => true) ('\n' :: unlines (unlines (l :: ls) :: ss)) = true := by
  obtain ⟨u, hu⟩ := exists_unlines_cons l ls
  obtain ⟨v, hv⟩ := exists_unlines_cons (unlines (l :: ls)) ss
  simp only [opensTag, decide_eq_true_eq] at hl
  obtain ⟨w, hw⟩ : ∃ w, l.dropWhile isPad = '@' :: w := ⟨_, List.eq_cons_of_mem_head? hl⟩
  rw [hv, hu, List.append_assoc]
  simp [sectionEnds, List.dropWhile_append, hw]

theorem sectionEnds_or_empty {l' : Text} {ls' : List Text}
    (hg : (l :: ls).IsChain fun l l' => continues l l' = true)
    (hg' : (l' :: ls').IsChain fun l l' => continues l l' = true)
    (hl : ∀ k ∈ l :: ls, trimRight k = k) (hl' : trimRight l' = l')
    (hcut : continues ((l :: ls).getLast (by simp)) l' = false)
    (hne : unlines (unlines (l' :: ls') :: ss) ≠ []) :
    sectionEnds (fun _ => true) ('\n' :: unlines (unlines (l' :: ls') :: ss)) = true ∨
      unlines (l :: ls) = [] := by
  by_cases ha : opensTag l' = true
  · exact Or.inl (sectionEnds_of_opensTag ha ls' ss)
  · by_cases hb : blank l' = true
    · left
      obtain rfl := eq_nil_of_blank hg' hb
      obtain rfl : l' = [] := by rw [← hl', trimRight_blank hb]
      cases ss with
      | nil => simp at hne
      | cons s ss =>
        rw [unlines_singleton, unlines_cons _ (by simp)]
        rfl
    · right
      have hblank : blank ((l :: ls).getLast (by simp)) = true := by
        simpa [continues, ha, hb] using hcut
      obtain rfl := eq_nil_of_blank_getLast hg hblank
      rw [unlines_singleton, ← hl l (by simp), trimRight_blank (by simpa using hblank)]

theorem sectioned_map (hgs : gs ≠ []) (hne : [] ∉ gs)
    (hchain : ∀ g ∈ gs, g.IsChain fun l l' => continues l l' = true)
    (hsep : gs.IsChain fun g g' => ∃ hg hg', continues (g.getLast hg) (g'.head hg') = false)
    (hline : ∀ g ∈ gs, ∀ l ∈ g, '\n' ∉ l ∧ trimRight l = l)
    (hlast : ∀ c ∈ (unlines (gs.map unlines)).getLast?, isBlank c = false) :
    Sectioned (gs.map unlines) := by
  induction gs with
  | nil => exact absurd rfl hgs
  | cons g gs ih =>
    simp only [List.mem_cons, not_or] at hne
    obtain ⟨l, ls, rfl⟩ := List.exists_cons_of_ne_nil (Ne.symm hne.1)
    have hg := hchain (l :: ls) (by simp)
    have hlines := hline (l :: ls) (by simp)
    have hwhole := unbroken_group hg fun k hk => (hlines k hk).1
    cases gs with
    | nil => exact .last hwhole
    | cons g' gs =>
      obtain ⟨l', ls', rfl⟩ : ∃ l' ls', g' = l' :: ls' :=
        List.exists_cons_of_ne_nil fun h => hne.2 (by simp [h])
      obtain ⟨⟨_, _, hcut⟩, -⟩ := List.isChain_cons_cons.mp hsep
      rw [List.map_cons, unlines_cons _ (by simp)] at hlast
      have hnil : unlines (((l' :: ls') :: gs).map unlines) ≠ [] := by
        intro h
        rw [h] at hlast
        exact absurd (hlast '\n' (by simp)) (by decide)
      rw [List.getLast?_append_of_ne_nil _ (by simp), List.getLast?_cons_of_ne_nil hnil] at hlast
      have ih := ih (by simp) hne.2 (fun g hg => hchain g (by simp [hg])) hsep.tail
        (fun g hg => hline g (by simp [hg])) hlast
      rw [List.map_cons]
      rcases sectionEnds_or_empty hg (hchain (l' :: ls') (by simp)) (fun k hk => (hlines k hk).2)
        (hline (l' :: ls') (by simp) l' (by simp)).2 hcut hnil with hends | hempty
      · exact .ends hwhole hends ih
      · rw [hempty]
        exact .gap ih

/-- The sections of a tidy block are whole, and sections end between them. -/
theorem sectioned_sections (ht : Comment.Tidy t) : Sectioned (sections t) := by
  have hlines : lines t ≠ [] := List.splitOnP_ne_nil _ t
  have hmem : ∀ g ∈ (lines t).splitBy continues, ∀ l ∈ g, l ∈ lines t := by
    intro g hg l hl
    rw [← List.flatten_splitBy continues (lines t)]
    exact List.mem_flatten.mpr ⟨g, hg, hl⟩
  apply sectioned_map
  · exact List.splitBy_ne_nil.mpr hlines
  · exact List.nil_notMem_splitBy _ _
  · exact fun g hg => List.isChain_of_mem_splitBy hg
  · exact List.isChain_getLast_head_splitBy _ _
  · intro g hg l hl
    have hl := hmem g hg l hl
    exact ⟨newline_not_mem_of_mem_lines hl, trimRight_eq_self_iff.mpr (ht.line l hl)⟩
  · rw [← sections, unlines_sections]
    exact ht.last

end CircuitDocs
