import CircuitDocs.Proofs.Text.Words
import CircuitDocs.Doc.Basic
import Mathlib.Logic.Function.Iterate

/-! # Plain text is plain already

Taking the plain text a second time changes nothing, unless the plain text opens with the mark of
a comment again. Blanks at the ends of the text and of its lines are gone after the first time, so
the second time there is only an opening mark to lose.
-/

namespace CircuitDocs.Comment

open Text

variable {c : Char} {t u d : Text} {ls : List Text}

/-! ## Lines without blanks at their ends -/

/-- Text none of whose lines ends with a blank. -/
def Clipped (t : Text) : Prop := ∀ l ∈ lines t, trimRight l = l

theorem trimRight_of_cons (h : trimRight (c :: t) = c :: t) : trimRight t = t := by
  rw [trimRight_eq_self_iff] at h ⊢
  intro d hd
  apply h
  rw [List.getLast?_cons, hd]
  rfl

theorem Clipped.of_cons (h : Clipped (c :: t)) : Clipped t := by
  intro l hl
  by_cases hc : c = '\n'
  · rw [Clipped, hc, lines_cons_newline] at h
    exact h l (List.mem_cons_of_mem _ hl)
  · rw [Clipped, lines_cons hc] at h
    cases hls : lines t with
    | nil => simp [hls] at hl
    | cons l' ls =>
      rw [hls, List.modifyHead_cons] at h
      rw [hls] at hl
      rcases List.mem_cons.mp hl with rfl | hl
      · exact trimRight_of_cons (h _ List.mem_cons_self)
      · exact h l (List.mem_cons_of_mem _ hl)

theorem Clipped.trimLeft (h : Clipped t) : Clipped (trimLeft t) := by
  obtain ⟨b, -, ht⟩ := exists_blank_append_trimLeft t
  rw [ht] at h
  clear ht
  induction b with
  | nil => exact h
  | cons c b ih => exact ih h.of_cons

theorem Clipped.eq_newline (h : Clipped (t ++ [c])) (hc : isBlank c = true) : c = '\n' := by
  by_contra hn
  obtain ⟨ls, l, hls⟩ := (List.eq_nil_or_concat' (lines t)).resolve_left (List.splitOnP_ne_nil _ t)
  have hbreak : ∀ l' ∈ ls ++ [l ++ [c]], '\n' ∉ l' := by
    intro l' hl'
    rcases List.mem_append.mp hl' with hl' | hl'
    · exact newline_not_mem_of_mem_lines (t := t) (hls ▸ List.mem_append_left _ hl')
    · have hl := newline_not_mem_of_mem_lines (t := t) (l := l) (by simp [hls])
      rw [List.mem_singleton.mp hl']
      simp [hl, Ne.symm hn]
  have hlast : l ++ [c] ∈ lines (t ++ [c]) := by
    have ht : t ++ [c] = unlines (ls ++ [l ++ [c]]) := by
      rw [unlines_concat_append, ← hls, unlines_lines]
    rw [ht, lines_unlines (by simp) hbreak]
    simp
  have hl := trimRight_eq_self_iff.mp (h _ hlast) c (by simp)
  rw [hc] at hl
  contradiction

theorem Clipped.trimRight (h : Clipped t) : Clipped (trimRight t) := by
  induction t using List.reverseRecOn with
  | nil => exact h
  | append_singleton t c ih =>
    cases hc : isBlank c with
    | true =>
      rw [trimRight_append_blank (by simpa using hc)]
      apply ih
      obtain rfl := h.eq_newline hc
      rw [Clipped, lines_append_newline] at h
      intro l hl
      exact h l (List.mem_append_left _ hl)
    | false => rwa [trimRight_concat hc]

theorem clipped_unlines (hls : ∀ l ∈ ls, '\n' ∉ l) : Clipped (unlines (ls.map trimRight)) := by
  cases ls with
  | nil =>
    intro l hl
    obtain rfl : l = [] := List.mem_singleton.mp hl
    exact trimRight_nil
  | cons l ls =>
    rw [Clipped, lines_unlines (by simp)]
    · intro l' hl'
      obtain ⟨k, -, rfl⟩ := List.mem_map.mp hl'
      exact trimRight_trimRight
    · intro l' hl'
      obtain ⟨k, hk, rfl⟩ := List.mem_map.mp hl'
      exact fun hn => hls k hk (mem_of_mem_trimRight hn)

/-! ## Tidy text -/

/-- Text that has no blank at its ends, nor at the end of a line. -/
structure Tidy (t : Text) : Prop where
  head : ∀ c ∈ t.head?, isBlank c = false
  last : ∀ c ∈ t.getLast?, isBlank c = false
  line : ∀ l ∈ lines t, ∀ c ∈ l.getLast?, isBlank c = false

theorem Tidy.trim_eq (h : Tidy t) : trim t = t :=
  trim_eq_self (trimLeft_eq_self_iff.mpr h.head) (trimRight_eq_self_iff.mpr h.last)

theorem tidy_tidy (hls : ∀ l ∈ ls, '\n' ∉ l) : Tidy (tidy ls) where
  head := trimLeft_eq_self_iff.mp trimLeft_trim
  last := trimRight_eq_self_iff.mp trimRight_trim
  line l hl := trimRight_eq_self_iff.mp ((clipped_unlines hls).trimLeft.trimRight l hl)

theorem Tidy.tidy_lines (h : Tidy t) : tidy (lines t) = t := by
  have hmap : (lines t).map trimRight = lines t :=
    (List.map_congr_left fun l hl => trimRight_eq_self_iff.mpr (h.line l hl)).trans
      (List.map_id' _)
  rw [tidy, hmap, unlines_lines, h.trim_eq]

theorem newline_not_mem_bare {l : Text} (hl : '\n' ∉ l) : '\n' ∉ bare l := by
  have hsub : ∀ c ∈ trimLeft l, c ∈ l := fun _ h => (List.dropWhile_suffix isBlank).subset h
  unfold bare
  split
  · rename_i c rest heq
    rw [heq] at hsub
    intro hn
    split at hn
    · exact hl (hsub _ (by simp [hn]))
    · exact hl (hsub _ (List.mem_cons_of_mem _ hn))
  · simp
  · exact hl

theorem tidy_plain (d : Text) : Tidy (plain d) := by
  unfold plain
  split
  · apply tidy_tidy
    intro l hl
    obtain ⟨k, hk, rfl⟩ := List.mem_map.mp hl
    exact newline_not_mem_bare (newline_not_mem_of_mem_lines hk)
  · exact tidy_tidy fun l hl => newline_not_mem_of_mem_lines hl

theorem plain_of_not_opening (h : ¬ opening <+: trim d) : plain d = tidy (lines (trim d)) := by
  have hnone : after? opening (trim d) = none := by
    cases ha : after? opening (trim d) with
    | none => rfl
    | some r => exact absurd ⟨r, (after?_eq_some_iff.mp ha).symm⟩ h
  rw [plain, hnone]

theorem Tidy.plain_eq (h : Tidy t) (ho : ¬ opening <+: t) : plain t = t := by
  rw [← h.trim_eq] at ho
  rw [plain_of_not_opening ho, h.trim_eq, h.tidy_lines]

/-! ## Lengths -/

theorem length_unlines_map_le {f : Text → Text} (hf : ∀ l, (f l).length ≤ l.length)
    (ls : List Text) : (unlines (ls.map f)).length ≤ (unlines ls).length := by
  induction ls with
  | nil => exact le_rfl
  | cons l ls ih =>
    cases ls with
    | nil => simpa using hf l
    | cons l' ls =>
      rw [List.map_cons, unlines_cons _ (by simp), unlines_cons _ (by simp)]
      simp only [List.length_append, List.length_cons]
      have := hf l
      omega

theorem length_tidy_le (ls : List Text) : (tidy ls).length ≤ (unlines ls).length :=
  (length_trim_le _).trans (length_unlines_map_le length_trimRight_le ls)

theorem length_bare_le (l : Text) : (bare l).length ≤ l.length := by
  have hlen := length_trimLeft_le l
  unfold bare
  split
  · rename_i c rest heq
    rw [heq, List.length_cons, List.length_cons] at hlen
    split
    · omega
    · rw [List.length_cons]
      omega
  · exact Nat.zero_le _
  · exact le_rfl

theorem length_unclosed_le (t : Text) : (unclosed t).length ≤ t.length := by
  unfold unclosed
  split
  · rename_i r hr
    obtain ⟨s, hs, rfl⟩ := Option.map_eq_some_iff.mp hr
    have hlen := congrArg List.length (after?_eq_some_iff.mp hs)
    have htrim := length_trimRight_le s.reverse
    simp only [List.length_reverse, List.length_append] at hlen htrim
    omega
  · exact le_rfl

theorem length_plain_lt (h : opening <+: trim d) : (plain d).length < d.length := by
  obtain ⟨body, hbody⟩ := h
  have hd := length_trim_le d
  rw [← hbody, List.length_append] at hd
  calc (plain d).length
      = (tidy ((lines (unclosed (trimLeft body))).map bare)).length := by
        rw [plain, after?_eq_some_iff.mpr hbody.symm]
    _ ≤ (unlines ((lines (unclosed (trimLeft body))).map bare)).length := length_tidy_le _
    _ ≤ (unlines (lines (unclosed (trimLeft body)))).length :=
        length_unlines_map_le length_bare_le _
    _ = (unclosed (trimLeft body)).length := by rw [unlines_lines]
    _ ≤ body.length := (length_unclosed_le _).trans (length_trimLeft_le body)
    _ < d.length := by
      have : opening.length = 3 := rfl
      omega

theorem length_plain_le (d : Text) : (plain d).length ≤ d.length := by
  by_cases h : opening <+: trim d
  · exact (length_plain_lt h).le
  · calc (plain d).length
        = (tidy (lines (trim d))).length := by rw [plain_of_not_opening h]
      _ ≤ (unlines (lines (trim d))).length := length_tidy_le _
      _ = (trim d).length := by rw [unlines_lines]
      _ ≤ d.length := length_trim_le d

/-! ## Fixed points -/

theorem plain_plain_iff (d : Text) : plain (plain d) = plain d ↔ ¬ opening <+: plain d := by
  constructor
  · intro h ho
    rw [← (tidy_plain d).trim_eq] at ho
    have hlt := length_plain_lt ho
    rw [h] at hlt
    exact lt_irrefl _ hlt
  · exact (tidy_plain d).plain_eq

/-- Plain text is tidy, no longer than the comment, and plain again exactly if it opens no comment;
then it stays as it is however often the plain text is taken. -/
theorem plain_fixed_points (d : Text) :
    Tidy (plain d) ∧ (plain d).length ≤ d.length ∧
      (plain (plain d) = plain d ↔ ¬ opening <+: plain d) ∧
      (¬ opening <+: plain d → ∀ k, plain^[k] (plain d) = plain d) := by
  refine ⟨tidy_plain d, length_plain_le d, plain_plain_iff d, ?_⟩
  intro ho k
  exact Function.iterate_fixed ((plain_plain_iff d).mpr ho) k

example : plain (plain "/**\n * Steps:\n * * first\n */".toList) = "Steps:\n* first".toList := by
  decide

end CircuitDocs.Comment
