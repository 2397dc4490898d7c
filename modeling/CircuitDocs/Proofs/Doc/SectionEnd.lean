import CircuitDocs.Proofs.Doc.Section

/-! # Reading up to the end of a section

What is read on one line of a text is the same whatever comes after the text, if a section ends
there. The exception is a type in braces, which ends at its closing brace, on any line.
-/

namespace CircuitDocs

open Text

variable {t u v r x w type : Text} {p : Char → Bool}

/-! ## On one line -/

/-- The second text is what is left of the first after a part without line breaks. -/
def Passes (t x : Text) : Prop := ∃ w, '\n' ∉ w ∧ t = w ++ x

namespace Passes

theorem trans (h : Passes t u) (h' : Passes u v) : Passes t v := by
  obtain ⟨w, hw, rfl⟩ := h
  obtain ⟨w', hw', rfl⟩ := h'
  exact ⟨w ++ w', by simp [hw, hw'], by simp⟩

theorem suffix (h : Passes t u) : u <:+ t := by
  obtain ⟨w, -, rfl⟩ := h
  exact List.suffix_append w u

theorem dropWhile (hp : p '\n' = false) (t : Text) : Passes t (t.dropWhile p) := by
  refine ⟨t.takeWhile p, fun h => ?_, List.takeWhile_append_dropWhile.symm⟩
  rw [List.mem_takeWhile_imp h] at hp
  contradiction

theorem of_after? (hw : '\n' ∉ w) (h : after? w t = some u) : Passes t u :=
  ⟨w, hw, after?_eq_some_iff.mp h⟩

end Passes

theorem Unbroken.suffix (h : Unbroken t) (hu : u <:+ t) : Unbroken u := by
  obtain ⟨v, rfl⟩ := hu
  induction v with
  | nil => exact h
  | cons c v ih => exact ih h.2

theorem Unbroken.passes (h : Unbroken t) (hu : Passes t u) : Unbroken u := h.suffix hu.suffix

namespace Entry

theorem passes_undashed (t : Text) : Passes t (undashed t) := by
  have hpads := Passes.dropWhile (p := isPad) (by decide) t
  unfold undashed
  split
  · rename_i rest hdrop
    rw [hdrop] at hpads
    have hdash : Passes ('-' :: rest) rest := ⟨['-'], by decide, rfl⟩
    exact (hpads.trans hdash).trans (.dropWhile (by decide) rest)
  · exact hpads

theorem eq_of_afterReturns? (h : afterReturns? t = some u) :
    t = "@return".toList ++ u ∨ t = "@returns".toList ++ u := by
  unfold afterReturns? at h
  split at h
  · rename_i v hv
    rw [Option.ite_none_right_eq_some, Option.some.injEq] at h
    obtain ⟨-, rfl⟩ := h
    rw [after?_eq_some_iff.mp hv]
    split
    · exact Or.inr rfl
    · exact Or.inl rfl
  · contradiction

theorem passes_afterReturns? (h : afterReturns? t = some u) : Passes t u := by
  rcases eq_of_afterReturns? h with rfl | rfl
  · exact ⟨_, by decide, rfl⟩
  · exact ⟨_, by decide, rfl⟩

theorem braced?_of_not_mem (h : '}' ∉ t) : braced? ('{' :: t) = none := by
  have hdrop : t.dropWhile (· ≠ '}') = [] := by
    rw [List.dropWhile_eq_nil_iff]
    exact fun c hc => decide_eq_true fun hbrace => h (hbrace ▸ hc)
  simp only [braced?, hdrop]

theorem braced?_of_ne {c : Char} (hc : c ≠ '{') : braced? (c :: t) = none := by
  unfold braced?
  split <;> simp_all

theorem eq_of_braced? (h : braced? t = some (type, u)) :
    t = '{' :: (type ++ '}' :: u) ∧ '}' ∉ type := by
  cases t with
  | nil => contradiction
  | cons c t =>
    by_cases hc : c = '{'
    · subst hc
      by_cases ht : '}' ∈ t
      · obtain ⟨type', u', rfl, htype⟩ := List.eq_append_cons_of_mem ht
        rw [braced?_append htype] at h
        obtain ⟨rfl, rfl⟩ := Prod.mk.inj (Option.some.inj h)
        exact ⟨rfl, htype⟩
      · rw [braced?_of_not_mem ht] at h
        contradiction
    · rw [braced?_of_ne hc] at h
      contradiction

theorem passes_of_type? (h : type? t = some (type, u)) :
    Passes t ('{' :: (type ++ '}' :: u)) ∧ '}' ∉ type := by
  unfold type? at h
  split at h
  · rename_i c t
    split at h
    · rename_i hc
      split at h
      · rename_i hb
        rw [Option.ite_none_left_eq_some] at h
        obtain ⟨rfl, rfl⟩ := Prod.mk.inj (Option.some.inj h.2)
        obtain ⟨ht, htype⟩ := eq_of_braced? hb
        have hpad : Passes (c :: t) t :=
          ⟨[c], fun h => absurd (List.mem_singleton.mp h ▸ hc) (by decide), rfl⟩
        exact ⟨ht ▸ hpad.trans (.dropWhile (by decide) t), htype⟩
      · contradiction
    · contradiction
  · contradiction

def afterPad? : Text → Option Text
  | c :: t => if isPad c then some t else none
  | [] => none

def afterBrace? (t : Text) : Option Text := after? ['{'] (t.dropWhile isPad)

end Entry

/-! ## Texts after which a section ends -/

section Ends

variable (hr : sectionEnds (fun _ => true) r = true)

include hr

theorem cases_of_ends : r = [] ∨ ∃ r', r = '\n' :: r' := by
  cases r with
  | nil => exact Or.inl rfl
  | cons c r =>
    by_cases hc : c = '\n'
    · exact Or.inr ⟨r, by rw [hc]⟩
    · rw [sectionEnds_eq_false hc] at hr
      contradiction

theorem dropWhile_append_of_ends (hp : p '\n' = false) (t : Text) :
    (t ++ r).dropWhile p = t.dropWhile p ++ r := by
  rcases cases_of_ends hr with rfl | ⟨r, rfl⟩
  · simp
  · rw [List.dropWhile_append, List.dropWhile_cons_of_neg (by simp [hp])]
    split
    · rename_i h
      rw [List.isEmpty_iff.mp h, List.nil_append]
    · rfl

theorem takeWhile_append_of_ends (hp : p '\n' = false) (t : Text) :
    (t ++ r).takeWhile p = t.takeWhile p := by
  rcases cases_of_ends hr with rfl | ⟨r, rfl⟩
  · simp
  · rw [List.takeWhile_append, List.takeWhile_cons_of_neg (by simp [hp])]
    split
    · rename_i h
      rw [List.append_nil, (List.takeWhile_prefix p).eq_of_length h]
    · rfl

theorem after?_append_of_ends (hw : '\n' ∉ w) (t : Text) :
    after? w (t ++ r) = (after? w t).map (· ++ r) := by
  induction w generalizing t with
  | nil => rfl
  | cons c w ih =>
    simp only [List.mem_cons, not_or] at hw
    cases t with
    | nil =>
      rcases cases_of_ends hr with rfl | ⟨r, rfl⟩
      · rfl
      · simp [after?, Ne.symm hw.1]
    | cons d t =>
      rw [List.cons_append, after?, after?]
      split
      · exact ih hw.2 t
      · rfl

theorem wordEnds_append_of_ends (t : Text) : wordEnds (t ++ r) = wordEnds t := by
  cases t with
  | nil => rcases cases_of_ends hr with rfl | ⟨r, rfl⟩ <;> rfl
  | cons c t => rfl

theorem undashed_append_of_ends (t : Text) :
    Entry.undashed (t ++ r) = Entry.undashed t ++ r := by
  have happend := dropWhile_append_of_ends hr (show isPad '\n' = false by decide) t
  cases hd : t.dropWhile isPad with
  | nil =>
    rw [hd] at happend
    rw [Entry.undashed, Entry.undashed, happend, hd]
    rcases cases_of_ends hr with rfl | ⟨r, rfl⟩ <;> rfl
  | cons c u =>
    rw [hd] at happend
    by_cases hc : c = '-'
    · subst hc
      rw [Entry.undashed, Entry.undashed, happend, hd]
      exact dropWhile_append_of_ends hr (by decide) u
    · rw [Entry.undashed_of_ne happend hc, Entry.undashed_of_ne hd hc]
      rfl

theorem sectionBody_append (hu : Unbroken u) : sectionBody (u ++ r) = u := by
  rw [sectionBody, hu.takeUntil_append, takeUntil_of_ends hr, List.append_nil]

theorem sectionRest_append (hu : Unbroken u) : sectionRest (u ++ r) = r := by
  rw [sectionRest, hu.dropUntil_append, dropUntil_of_ends hr]

theorem braced?_append_of_ends (hc : ∀ v ∈ after? ['{'] t, '}' ∈ v ∨ '}' ∉ r) :
    Entry.braced? (t ++ r) = (Entry.braced? t).map fun x => (x.1, x.2 ++ r) := by
  cases t with
  | nil => rcases cases_of_ends hr with rfl | ⟨r, rfl⟩ <;> rfl
  | cons c u =>
    by_cases hbrace : c = '{'
    · subst hbrace
      by_cases hu : '}' ∈ u
      · obtain ⟨type, rest, rfl, ht⟩ := List.eq_append_cons_of_mem hu
        rw [Entry.braced?_append ht, List.cons_append, List.append_assoc, List.cons_append,
          Entry.braced?_append ht]
        rfl
      · have hr : '}' ∉ r := (hc u rfl).resolve_left hu
        rw [List.cons_append, Entry.braced?_of_not_mem hu,
          Entry.braced?_of_not_mem (by simp [hu, hr])]
        rfl
    · rw [List.cons_append, Entry.braced?_of_ne hbrace, Entry.braced?_of_ne hbrace]
      rfl

theorem type?_append_of_ends
    (hc : ∀ v ∈ (Entry.afterPad? t).bind Entry.afterBrace?, '}' ∈ v ∨ '}' ∉ r) :
    Entry.type? (t ++ r) = (Entry.type? t).map fun x => (x.1, x.2 ++ r) := by
  cases t with
  | nil => rcases cases_of_ends hr with rfl | ⟨r, rfl⟩ <;> rfl
  | cons c u =>
    rw [List.cons_append, Entry.type?, Entry.type?]
    by_cases hpad : isPad c = true
    · have hbrace : ∀ v ∈ after? ['{'] (u.dropWhile isPad), '}' ∈ v ∨ '}' ∉ r := by
        simpa [Entry.afterPad?, hpad, Entry.afterBrace?] using hc
      rw [if_pos hpad, if_pos hpad, dropWhile_append_of_ends hr (by decide),
        braced?_append_of_ends hr hbrace]
      cases Entry.braced? (u.dropWhile isPad) with
      | none => rfl
      | some x =>
        simp only [Option.map_some]
        cases hx : x.1.isEmpty <;> simp
    · rw [if_neg hpad, if_neg hpad]
      rfl

theorem afterReturns?_append_of_ends (t : Text) :
    Entry.afterReturns? (t ++ r) = (Entry.afterReturns? t).map (· ++ r) := by
  have hends : ∀ u : Text, (if wordEnds (u ++ r) then some (u ++ r) else none) =
      (if wordEnds u then some u else none).map (· ++ r) := by
    intro u
    rw [wordEnds_append_of_ends hr]
    split <;> rfl
  have happend := after?_append_of_ends hr (show '\n' ∉ "@return".toList by decide) t
  cases ha : after? "@return".toList t with
  | none =>
    rw [ha] at happend
    rw [Entry.afterReturns?, Entry.afterReturns?, happend, ha]
    rfl
  | some u =>
    rw [ha, Option.map_some] at happend
    cases u with
    | nil =>
      rw [Entry.afterReturns?, Entry.afterReturns?, happend, ha]
      rcases cases_of_ends hr with rfl | ⟨r, rfl⟩ <;> rfl
    | cons c u =>
      by_cases hc : c = 's'
      · subst hc
        rw [Entry.afterReturns?, Entry.afterReturns?, happend, ha]
        exact hends u
      · rw [Entry.afterReturns?_of_ne happend hc, Entry.afterReturns?_of_ne ha hc]
        exact hends (c :: u)

end Ends

theorem Unbroken.sectionBody_eq (h : Unbroken t) : sectionBody t = t := by
  simpa using sectionBody_append (r := []) rfl h

end CircuitDocs
