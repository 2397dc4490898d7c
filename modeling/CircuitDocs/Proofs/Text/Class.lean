import CircuitDocs.Text.Class

/-! # Character classes are apart

The tables of blanks, of letters and of digits have no range in common, so a character of a name
or of a number is never a blank.
-/

namespace CircuitDocs

theorem exists_range_of_inRanges {rs : List (Nat × Nat)} {n : Nat} (h : inRanges rs n = true) :
    ∃ p ∈ rs, p.1 ≤ n ∧ n ≤ p.2 := by
  induction rs with
  | nil => simp [inRanges] at h
  | cons p rs ih =>
    simp only [inRanges] at h
    split at h
    · simp at h
    · split at h
      · exact ⟨p, by simp, by omega, by omega⟩
      · obtain ⟨q, hq, hn⟩ := ih h
        exact ⟨q, by simp [hq], hn⟩

theorem inRanges_disjoint {rs ss : List (Nat × Nat)}
    (hd : ∀ p ∈ rs, ∀ q ∈ ss, p.2 < q.1 ∨ q.2 < p.1) {n : Nat} (h : inRanges ss n = true) :
    inRanges rs n = false := by
  by_cases hr : inRanges rs n = true
  · obtain ⟨p, hp, hp₁, hp₂⟩ := exists_range_of_inRanges hr
    obtain ⟨q, hq, hq₁, hq₂⟩ := exists_range_of_inRanges h
    have := hd p hp q hq
    omega
  · simpa using hr

theorem blank_apart_letter :
    ∀ p ∈ Blank.ranges, ∀ q ∈ Letter.ranges, p.2 < q.1 ∨ q.2 < p.1 := by decide +kernel

theorem blank_apart_digit :
    ∀ p ∈ Blank.ranges, ∀ q ∈ Digit.ranges, p.2 < q.1 ∨ q.2 < p.1 := by decide +kernel

theorem isBlank_of_isWord {c : Char} (h : isWord c = true) : isBlank c = false := by
  simp only [isWord, Bool.or_eq_true, decide_eq_true_eq] at h
  rcases h with rfl | h
  · decide
  · exact inRanges_disjoint blank_apart_letter h

theorem not_isWord_of_isBlank {c : Char} (h : isBlank c = true) : isWord c = false := by
  cases hw : isWord c with
  | false => rfl
  | true =>
    rw [isBlank_of_isWord hw] at h
    contradiction

theorem isBlank_of_isDigit {c : Char} (h : isDigit c = true) : isBlank c = false :=
  inRanges_disjoint blank_apart_digit h

theorem isBlank_of_isPad {c : Char} (h : isPad c = true) : isBlank c = true := by
  simp only [isPad, Bool.or_eq_true, decide_eq_true_eq] at h
  rcases h with rfl | rfl <;> decide

theorem not_isPad_of_isWord {c : Char} (h : isWord c = true) : isPad c = false := by
  cases hp : isPad c with
  | false => rfl
  | true =>
    have hb := isBlank_of_isWord h
    rw [isBlank_of_isPad hp] at hb
    exact absurd hb (by decide)

end CircuitDocs
