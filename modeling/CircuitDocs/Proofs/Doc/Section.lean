import CircuitDocs.Proofs.Text.Words
import CircuitDocs.Doc.Entry

/-! # Reading across a section

A text that no section ends in is taken as a whole, and a reader that starts at an `@` passes over
text that has none.
-/

namespace CircuitDocs

open Text

variable {t u r : Text} {c : Char} {opens : Text → Bool}

/-- Text after whose line breaks another character than a line break or an `@` comes first, pads
aside. -/
def Unbroken : Text → Prop
  | [] => True
  | c :: t => (c = '\n' → ∃ d u, t.dropWhile isPad = d :: u ∧ d ≠ '\n' ∧ d ≠ '@') ∧ Unbroken t

theorem unbroken_append_of_not_mem (h : '\n' ∉ u) (ht : Unbroken t) : Unbroken (u ++ t) := by
  induction u with
  | nil => exact ht
  | cons c u ih =>
    simp only [List.mem_cons, not_or] at h
    exact ⟨fun hc => absurd hc.symm h.1, ih h.2⟩

theorem unbroken_of_not_mem (h : '\n' ∉ u) : Unbroken u := by
  simpa using unbroken_append_of_not_mem (t := []) h trivial

theorem Unbroken.dropWhile (h : Unbroken t) (p : Char → Bool) : Unbroken (t.dropWhile p) := by
  induction t with
  | nil => exact h
  | cons c t ih =>
    rw [List.dropWhile_cons]
    split
    · exact ih h.2
    · exact h

theorem sectionEnds_eq_false (hc : c ≠ '\n') : sectionEnds opens (c :: t) = false := by
  unfold sectionEnds
  split
  · simp_all
  · simp_all
  · rfl

theorem Unbroken.sectionEnds_append (h : Unbroken (c :: t)) :
    sectionEnds opens (c :: (t ++ r)) = false := by
  by_cases hc : c = '\n'
  · subst hc
    obtain ⟨d, u, hd, hn, ha⟩ := h.1 rfl
    have hdrop : (t ++ r).dropWhile isPad = d :: (u ++ r) := by
      simp [List.dropWhile_append, hd]
    simp only [sectionEnds, hdrop]
    split <;> simp_all
  · exact sectionEnds_eq_false hc

theorem Unbroken.takeUntil_append (h : Unbroken t) :
    takeUntil (sectionEnds opens) (t ++ r) = t ++ takeUntil (sectionEnds opens) r := by
  induction t with
  | nil => rfl
  | cons c t ih =>
    rw [List.cons_append, takeUntil, h.sectionEnds_append, ih h.2]
    rfl

theorem Unbroken.dropUntil_append (h : Unbroken t) :
    dropUntil (sectionEnds opens) (t ++ r) = dropUntil (sectionEnds opens) r := by
  induction t with
  | nil => rfl
  | cons c t ih =>
    rw [List.cons_append, dropUntil, h.sectionEnds_append]
    exact ih h.2

theorem takeUntil_of_ends (h : sectionEnds opens r = true) :
    takeUntil (sectionEnds opens) r = [] := by
  cases r with
  | nil => rfl
  | cons c r => rw [takeUntil, if_pos h]

theorem dropUntil_of_ends (h : sectionEnds opens r = true) :
    dropUntil (sectionEnds opens) r = r := by
  cases r with
  | nil => rfl
  | cons c r => rw [dropUntil, if_pos h]

theorem dropWhile_isPad_takeUntil (opens : Text → Bool) (t : Text) :
    (takeUntil (sectionEnds opens) t).dropWhile isPad =
      takeUntil (sectionEnds opens) (t.dropWhile isPad) := by
  induction t with
  | nil => rfl
  | cons c t ih =>
    by_cases hc : isPad c = true
    · have hends : sectionEnds opens (c :: t) = false :=
        sectionEnds_eq_false fun h => absurd (h ▸ hc) (by decide)
      rw [takeUntil, hends, if_neg (by decide), List.dropWhile_cons_of_pos hc,
        List.dropWhile_cons_of_pos hc, ih]
    · rw [List.dropWhile_cons_of_neg hc, takeUntil]
      split
      · rfl
      · rw [List.dropWhile_cons_of_neg hc]

theorem exists_of_not_sectionEnds (hends : sectionEnds (fun _ => true) ('\n' :: t) = false)
    (hlast : ∀ c ∈ ('\n' :: t).getLast?, isBlank c = false) :
    ∃ d u, t.dropWhile isPad = d :: u ∧ d ≠ '\n' ∧ d ≠ '@' := by
  simp only [sectionEnds] at hends
  cases hd : t.dropWhile isPad with
  | nil =>
    have hblank : ∀ c ∈ '\n' :: t, isBlank c = true := by
      intro c hc
      rcases List.mem_cons.mp hc with rfl | hc
      · decide
      · exact isBlank_of_isPad (List.dropWhile_eq_nil_iff.mp hd c hc)
    have hmem := List.getLast?_eq_some_getLast (List.cons_ne_nil '\n' t)
    have hb := hlast _ hmem
    rw [hblank _ (List.mem_of_getLast? hmem)] at hb
    contradiction
  | cons d u =>
    rw [hd] at hends
    refine ⟨d, u, rfl, ?_, ?_⟩ <;> rintro rfl <;> simp at hends

/-- The text of a section has no end of a section in it, wherever it is put. -/
theorem unbroken_sectionBody (hlast : ∀ c ∈ t.getLast?, isBlank c = false) :
    Unbroken (sectionBody t) := by
  induction t with
  | nil => trivial
  | cons c t ih =>
    have ih := ih fun d hd => hlast d (by rw [List.getLast?_cons, hd]; rfl)
    rw [sectionBody, takeUntil]
    cases hends : sectionEnds (fun _ => true) (c :: t) with
    | true => trivial
    | false =>
      refine ⟨?_, ih⟩
      rintro rfl
      obtain ⟨d, u, hd, hne⟩ := exists_of_not_sectionEnds hends hlast
      refine ⟨d, takeUntil (sectionEnds fun _ => true) u, ?_, hne⟩
      rw [dropWhile_isPad_takeUntil, hd, takeUntil, sectionEnds_eq_false hne.1]
      rfl

def opensTag (l : Text) : Bool := (l.dropWhile isPad).head? = some '@'

theorem not_opensTag_of_not_mem {l : Text} (h : '@' ∉ l) : opensTag l = false := by
  rw [opensTag, decide_eq_false_iff_not]
  exact fun ha => h ((List.dropWhile_suffix isPad).subset (List.mem_of_head? ha))

theorem unbroken_unlines {l : Text} {ls : List Text} (hl : '\n' ∉ l)
    (hls : ∀ l ∈ ls, '\n' ∉ l ∧ opensTag l = false ∧ blank l = false) :
    Unbroken (unlines (l :: ls)) := by
  induction ls generalizing l with
  | nil => simpa using unbroken_of_not_mem hl
  | cons l' ls ih =>
    obtain ⟨hn, ha, hb⟩ := hls l' (by simp)
    rw [unlines_cons l (by simp)]
    refine unbroken_append_of_not_mem hl ⟨fun _ => ?_, ih hn fun l hl => hls l (by simp [hl])⟩
    have hne : l'.dropWhile isPad ≠ [] := by
      rw [ne_eq, List.dropWhile_eq_nil_iff]
      intro h
      rw [blank_iff.mpr fun c hc => isBlank_of_isPad (h c hc)] at hb
      exact absurd hb (by decide)
    obtain ⟨d, u, hd⟩ := List.exists_cons_of_ne_nil hne
    have hmem : d ∈ l' := (List.dropWhile_suffix isPad).subset (by rw [hd]; simp)
    obtain ⟨v, hv⟩ := exists_unlines_cons l' ls
    refine ⟨d, u ++ v, ?_, fun h => hn (h ▸ hmem), ?_⟩
    · rw [hv]
      simp [List.dropWhile_append, hd]
    · rintro rfl
      simp [opensTag, hd] at ha

/-! ## Readers -/

theorem first?_append_of_not_mem {α : Type} {read : Text → Option α}
    (hread : ∀ c t, c ≠ '@' → read (c :: t) = none) (hu : '@' ∉ u) :
    first? read (u ++ t) = first? read t := by
  induction u with
  | nil => rfl
  | cons c u ih =>
    simp only [List.mem_cons, not_or] at hu
    rw [List.cons_append, first?, hread c _ (Ne.symm hu.1)]
    exact ih hu.2

theorem first?_of_some {α : Type} {read : Text → Option α} {a : α} (h : read t = some a) :
    first? read t = some a := by
  cases t with
  | nil => exact h
  | cons c t => rw [first?, h]

theorem first?_cons_of_none {α : Type} {read : Text → Option α} (h : read (c :: t) = none) :
    first? read (c :: t) = first? read t := by rw [first?, h]

namespace Reader

variable {α : Type} {R : Reader α}

@[simp] theorem all_nil : R.all [] = [] := by rw [Reader.all]

theorem all_of_some {a : α} (h : R.read t = some (a, r)) : R.all t = a :: R.all r := by
  cases t with
  | nil => exact absurd (R.shorter h) (by simp)
  | cons c t =>
    rw [Reader.all]
    split <;> simp_all

theorem all_cons_of_none (h : R.read (c :: t) = none) : R.all (c :: t) = R.all t := by
  rw [Reader.all]
  split <;> simp_all

theorem all_append_of_not_mem (hread : ∀ c t, c ≠ '@' → R.read (c :: t) = none) (hu : '@' ∉ u) :
    R.all (u ++ t) = R.all t := by
  induction u with
  | nil => rfl
  | cons c u ih =>
    simp only [List.mem_cons, not_or] at hu
    rw [List.cons_append, all_cons_of_none (hread c _ (Ne.symm hu.1))]
    exact ih hu.2

end Reader

/-! ## Parts of entries -/

namespace Entry

theorem braced?_append {type : Text} (ht : '}' ∉ type) (t : Text) :
    braced? ('{' :: (type ++ '}' :: t)) = some (type, t) := by
  have hp : ∀ c ∈ type, decide (c ≠ '}') = true := by
    intro c hc
    exact decide_eq_true fun h => ht (h ▸ hc)
  simp only [braced?]
  rw [List.dropWhile_append_of_pos hp, List.takeWhile_append_of_pos hp]
  simp

theorem undashed_of_ne {c : Char} {r : Text} (ht : t.dropWhile isPad = c :: r) (hc : c ≠ '-') :
    undashed t = c :: r := by
  rw [undashed, ht]
  split <;> simp_all

theorem afterReturns?_of_ne {c : Char} {r : Text}
    (ht : after? "@return".toList t = some (c :: r)) (hc : c ≠ 's') :
    afterReturns? t = if wordEnds (c :: r) then some (c :: r) else none := by
  rw [afterReturns?, ht]
  simp [hc]

end Entry

end CircuitDocs
