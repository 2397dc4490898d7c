import CircuitDocs.Proofs.Circuit.Heading
import CircuitDocs.Circuit.DocBlock

/-! # Where a documentation block stands

The lines above a declaration are, from the nearest up, a gap of blank lines, the lines of the
block, and the rest. The search finds a block exactly when the lines can be cut like that.
-/

namespace CircuitDocs

open Text

variable {line first : Text} {above ls : List Text}

namespace DocBlock

theorem opensComment_of_opensDoc (h : opensDoc line = true) : opensComment line = true := by
  simp only [opensDoc, opensComment, List.isPrefixOf_iff_prefix] at h ⊢
  exact List.IsPrefix.trans ⟨['*'], rfl⟩ h

theorem head_of_opensComment (h : opensComment line = true) : ∃ t, trimLeft line = '/' :: t := by
  simp only [opensComment, List.isPrefixOf_iff_prefix] at h
  have hm : trim line <+: trimLeft line := List.rdropWhile_prefix isBlank _
  obtain ⟨t, ht⟩ := h.trans hm
  exact ⟨'*' :: t, ht.symm⟩

theorem not_declares_of_opensComment (h : opensComment line = true) : declares line = false := by
  obtain ⟨t, ht⟩ := head_of_opensComment h
  exact not_declares_of_head ht (by decide)

theorem not_blank_of_closesComment (h : closesComment line = true) : blank line = false := by
  cases hb : blank line with
  | false => rfl
  | true =>
    rw [closesComment, trim, trimLeft_eq_nil_iff.mpr hb, trimRight_nil] at h
    exact absurd h (by decide)

theorem not_closesComment_concat {c : Char} {t : Text} (hb : isBlank c = false) (hc : c ≠ '/') :
    closesComment (t ++ [c]) = false := by
  have ht : ∃ u, trim (t ++ [c]) = u ++ [c] := by
    cases h : blank t with
    | true =>
      refine ⟨[], ?_⟩
      rw [trim_blank_append h, trim, trimLeft_cons hb]
      exact trimRight_concat (t := []) hb
    | false =>
      refine ⟨trimLeft t, ?_⟩
      rw [trim, trimLeft_append h, trimRight_concat hb]
  obtain ⟨u, hu⟩ := ht
  rw [closesComment, hu, ← Bool.not_eq_true, List.isSuffixOf_iff_suffix]
  rintro ⟨v, hv⟩
  have hv' : (v ++ ['*']) ++ ['/'] = u ++ [c] := by simpa [Comment.closing] using hv
  exact hc (List.singleton_inj.mp (List.append_inj_right' hv' rfl)).symm

/-! ## The search -/

/-- A line inside a block, below the one that opens it. -/
def Inner (line : Text) : Prop := opensComment line = false ∧ declares line = false

theorem inner_of_star {t : Text} (h : trimLeft line = '*' :: t) : Inner line := by
  refine ⟨?_, not_declares_of_head h (by decide)⟩
  cases ho : opensComment line with
  | false => rfl
  | true =>
    obtain ⟨t', ht'⟩ := head_of_opensComment ho
    rw [h] at ht'
    exact absurd (List.cons.inj ht').1 (by decide)

theorem climb_eq_some_iff :
    climb above = some ls ↔ ∃ first inner rest, ls = first :: inner ∧
      above = inner.reverse ++ first :: rest ∧ opensDoc first = true ∧ ∀ l ∈ inner, Inner l := by
  induction above generalizing ls with
  | nil => simp [climb]
  | cons line above ih =>
    rw [climb]
    constructor
    · intro h
      split at h
      · rename_i ho
        obtain rfl := Option.some.inj h
        exact ⟨line, [], above, rfl, rfl, ho, by simp⟩
      · split at h
        · simp at h
        · rename_i hi
          obtain ⟨ls', hc, rfl⟩ := Option.map_eq_some_iff.mp h
          obtain ⟨first, inner, rest, rfl, rfl, ho, hall⟩ := ih.mp hc
          have hline : Inner line := by simpa [Inner] using hi
          refine ⟨first, inner ++ [line], rest, rfl, by simp, ho, ?_⟩
          intro l hl
          rcases List.mem_append.mp hl with hl | hl
          · exact hall l hl
          · rwa [List.mem_singleton.mp hl]
    · rintro ⟨first, inner, rest, rfl, habove, ho, hall⟩
      rcases List.eq_nil_or_concat' inner with rfl | ⟨inner, last, rfl⟩
      · obtain ⟨rfl, rfl⟩ := List.cons.inj habove
        simp [ho]
      · simp only [List.reverse_append, List.reverse_singleton, List.cons_append,
          List.nil_append, List.cons.injEq] at habove
        obtain ⟨rfl, rfl⟩ := habove
        have hline := hall line (by simp)
        have hnot : opensDoc line = false := by
          cases hd : opensDoc line with
          | false => rfl
          | true => exact absurd (opensComment_of_opensDoc hd) (by simp [hline.1])
        have hc := ih.mpr ⟨first, inner, rest, rfl, rfl, ho, fun l hl => hall l (by simp [hl])⟩
        simp [hnot, hline.1, hline.2, hc]

theorem getLast_eq_head {last : Text} {inner rest tail : List Text}
    (h : inner.reverse ++ first :: rest = last :: tail) :
    (first :: inner).getLast (by simp) = last := by
  rcases List.eq_nil_or_concat' inner with rfl | ⟨inner, l, rfl⟩
  · exact (List.cons.inj h).1
  · simp only [List.reverse_append, List.reverse_singleton, List.cons_append, List.nil_append,
      List.cons.injEq] at h
    simpa using h.1

/-- The lines `above` a declaration, nearest first, are a gap of blank lines, then the block that
`first` opens, then the rest. -/
structure Cut (above gap : List Text) (first : Text) (inner rest : List Text) : Prop where
  eq : above = gap ++ (inner.reverse ++ first :: rest)
  gap_blank : ∀ l ∈ gap, blank l = true
  closes : closesComment ((first :: inner).getLast (by simp)) = true
  opens : opensDoc first = true
  inner : ∀ l ∈ inner, Inner l

/-- The search finds the block of a cut, and nothing else. -/
theorem above?_eq_some_iff {b : DocBlock} :
    above? above = some b ↔
      ∃ gap first inner rest, Cut above gap first inner rest ∧
        b = ⟨first :: inner, gap.length⟩ := by
  constructor
  · intro h
    unfold above? at h
    split at h
    · simp at h
    · rename_i last rest hd
      split at h
      · rename_i hlast
        obtain ⟨ls, hc, rfl⟩ := Option.map_eq_some_iff.mp h
        obtain ⟨first, inner, rest', rfl, hrest, ho, hall⟩ := climb_eq_some_iff.mp hc
        refine ⟨above.takeWhile blank, first, inner, rest', ⟨?_, ?_, ?_, ho, hall⟩, rfl⟩
        · rw [← hrest, ← hd, List.takeWhile_append_dropWhile]
        · exact fun l hl => List.mem_takeWhile_imp hl
        · rwa [getLast_eq_head hrest.symm]
      · simp at h
  · rintro ⟨gap, first, inner, rest, hcut, rfl⟩
    obtain ⟨last, tail, htail⟩ : ∃ last tail, inner.reverse ++ first :: rest = last :: tail :=
      List.exists_cons_of_ne_nil (by simp)
    have hcl : closesComment last = true := getLast_eq_head htail ▸ hcut.closes
    have hb := not_blank_of_closesComment hcl
    have hdrop : above.dropWhile blank = last :: tail := by
      rw [hcut.eq, List.dropWhile_append_of_pos hcut.gap_blank, htail,
        List.dropWhile_cons_of_neg (by simp [hb])]
    have htake : above.takeWhile blank = gap := by
      rw [hcut.eq, List.takeWhile_append_of_pos hcut.gap_blank, htail,
        List.takeWhile_cons_of_neg (by simp [hb]), List.append_nil]
    have hc := climb_eq_some_iff.mpr ⟨first, inner, rest, rfl, htail.symm, hcut.opens, hcut.inner⟩
    simp only [above?, hdrop, hcl, if_true, hc, Option.map_some, htake]

theorem Cut.nearest {gap inner rest : List Text} (h : Cut above gap first inner rest) :
    above.find? (fun l => !blank l) = some ((first :: inner).getLast (by simp)) := by
  obtain ⟨last, tail, htail⟩ : ∃ last tail, inner.reverse ++ first :: rest = last :: tail :=
    List.exists_cons_of_ne_nil (by simp)
  have hn : gap.find? (fun l => !blank l) = none :=
    List.find?_eq_none.mpr fun l hl => by simp [h.gap_blank l hl]
  have hb := not_blank_of_closesComment h.closes
  rw [h.eq, List.find?_append, hn, Option.none_or, htail, ← getLast_eq_head htail,
    List.find?_cons_of_pos (by simp [hb])]

theorem Cut.not_declares {gap inner rest : List Text} (h : Cut above gap first inner rest)
    {l : Text} (hl : l ∈ gap ++ (inner.reverse ++ [first])) : declares l = false := by
  simp only [List.mem_append, List.mem_reverse, List.mem_singleton] at hl
  rcases hl with hl | hl | rfl
  · exact not_declares_of_blank (h.gap_blank l hl)
  · exact (h.inner l hl).2
  · exact not_declares_of_opensComment (opensComment_of_opensDoc h.opens)

end DocBlock

end CircuitDocs
