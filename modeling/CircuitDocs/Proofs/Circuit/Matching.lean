import CircuitDocs.Proofs.Circuit.Paren

/-! # The match of a parenthesis

The search for a match counts depth. It finds the one place where the grammar of balanced text puts
the match, and finds none only where the grammar has none.
-/

namespace CircuitDocs.Paren

variable {t u v w : Text} {i j : Nat}

/-- Text that closes `n` more parentheses than it opens: balanced parts with a closing one between
each two. -/
inductive Falls : Nat → Text → Prop where
  | level {w : Text} : Balanced w → Falls 0 w
  | down {n : Nat} {w v : Text} : Balanced w → Falls n v → Falls (n + 1) (w ++ ')' :: v)

theorem Falls.balanced (h : Falls 0 w) : Balanced w := by
  cases h with
  | level h => exact h

theorem Falls.append {n : Nat} (hw : Balanced w) (hv : Falls n v) : Falls n (w ++ v) := by
  cases hv with
  | level hv => exact .level (hw.append hv)
  | down hu hv =>
    rw [← List.append_assoc]
    exact .down (hw.append hu) hv

theorem falls_of_split? {n : Nat} (h : split? (n + 1) t = some (u, v)) : Falls n u := by
  induction t generalizing n u with
  | nil => simp [split?] at h
  | cons c t ih =>
    rw [split?] at h
    split at h
    · rename_i hc
      obtain ⟨rfl, -⟩ := Prod.mk.inj (Option.some.inj h)
      obtain rfl : n = 0 := by omega
      exact .level .nil
    · rename_i hc
      obtain ⟨⟨u', v'⟩, h', he⟩ := Option.map_eq_some_iff.mp h
      obtain ⟨rfl, rfl⟩ := Prod.mk.inj he
      by_cases hopen : c = '('
      · subst hopen
        have hfall : Falls (n + 1) u' := ih (by simpa [level] using h')
        cases hfall with
        | @down _ w r hw hr =>
          have hgroup : Balanced ('(' :: (w ++ [')'])) := .group hw .nil
          simpa using hr.append hgroup
      · by_cases hclose : c = ')'
        · subst hclose
          obtain ⟨m, rfl⟩ : ∃ m, n = m + 1 := Nat.exists_eq_succ_of_ne_zero (by
            rintro rfl
            exact hc ⟨rfl, by simp⟩)
          have hfall : Falls m u' := ih (by simpa [level] using h')
          exact .down .nil hfall
        · have hfall : Falls n u' := ih (by simpa [level, hopen, hclose] using h')
          exact hfall.append (.cons hopen hclose .nil)

theorem split?_one_eq_some_iff : split? 1 t = some (u, v) ↔ t = u ++ ')' :: v ∧ Balanced u := by
  constructor
  · intro h
    exact ⟨eq_append_of_split? h, (falls_of_split? (n := 0) (by simpa using h)).balanced⟩
  · rintro ⟨rfl, hu⟩
    rw [split?_append_of_balanced hu (by omega), split?, if_pos ⟨rfl, rfl⟩]
    simp

/-- The closing parenthesis at `j` is the partner of what stands at `i`: the text strictly between
them is balanced. -/
structure Closes (t : Text) (i j : Nat) : Prop where
  lt : i < j
  close : t[j]? = some ')'
  balanced : Balanced ((t.take j).drop (i + 1))

theorem exists_append_of_getElem? {c : Char} (h : t[i]? = some c) :
    ∃ u v, t = u ++ c :: v ∧ u.length = i := by
  obtain ⟨hi, rfl⟩ := List.getElem?_eq_some_iff.mp h
  refine ⟨t.take i, t.drop (i + 1), ?_, List.length_take_of_le hi.le⟩
  rw [← List.drop_eq_getElem_cons hi, List.take_append_drop]

theorem closes_append_iff {head : Text} :
    Closes (head ++ '(' :: t) head.length j ↔
      ∃ u v, t = u ++ ')' :: v ∧ Balanced u ∧ j = u.length + 1 + head.length := by
  constructor
  · rintro ⟨hlt, hclose, hbalanced⟩
    obtain ⟨k, rfl⟩ : ∃ k, j = k + 1 + head.length := ⟨j - head.length - 1, by omega⟩
    rw [List.getElem?_append_right (by omega), Nat.add_sub_cancel_right,
      List.getElem?_cons_succ] at hclose
    obtain ⟨u, v, rfl, rfl⟩ := exists_append_of_getElem? hclose
    rw [take_drop_between] at hbalanced
    exact ⟨u, v, rfl, hbalanced, rfl⟩
  · rintro ⟨u, v, rfl, hu, rfl⟩
    refine ⟨by omega, ?_, by rwa [take_drop_between]⟩
    rw [List.getElem?_append_right (by omega), Nat.add_sub_cancel_right, List.getElem?_cons_succ]
    simp

theorem match?_eq_some_iff (hi : t[i]? = some '(') : match? t i = some j ↔ Closes t i j := by
  obtain ⟨head, tail, rfl, rfl⟩ := exists_append_of_getElem? hi
  rw [match?_append, closes_append_iff, Option.map_eq_some_iff]
  constructor
  · rintro ⟨⟨u, v⟩, hsplit, rfl⟩
    obtain ⟨htail, hu⟩ := split?_one_eq_some_iff.mp hsplit
    exact ⟨u, v, htail, hu, rfl⟩
  · rintro ⟨u, v, htail, hu, rfl⟩
    exact ⟨(u, v), split?_one_eq_some_iff.mpr ⟨htail, hu⟩, rfl⟩

/-- The search from an opening parenthesis answers with the place that the grammar of balanced text
gives as its match. It answers with none exactly if there is no such place, and there are never
two. -/
theorem match?_exact (hi : t[i]? = some '(') :
    (∀ j, match? t i = some j ↔ Closes t i j) ∧
      (match? t i = none ↔ ¬ ∃ j, Closes t i j) ∧
      ∀ j k, Closes t i j → Closes t i k → j = k := by
  refine ⟨fun j => match?_eq_some_iff hi, ?_, fun j k hj hk => ?_⟩
  · simp only [Option.eq_none_iff_forall_ne_some, ne_eq, match?_eq_some_iff hi, not_exists]
  · rw [← match?_eq_some_iff hi] at hj hk
    exact Option.some.inj (hj.symm.trans hk)

/-- In `g(a(b)c)d)(` the parenthesis at 1 closes behind `c`, and the last one never. -/
theorem match?_exact_nested :
    let t := "g(a(b)c)d)(".toList
    t[1]? = some '(' ∧ match? t 1 = some 7 ∧ Closes t 1 7 ∧ (∀ j, Closes t 1 j → j = 7) ∧
      t[10]? = some '(' ∧ match? t 10 = none ∧ ∀ j, ¬ Closes t 10 j := by
  intro t
  have hfirst : t[1]? = some '(' := by decide
  have hlast : t[10]? = some '(' := by decide
  have hmatch : match? t 1 = some 7 := by decide
  have hnone : match? t 10 = none := by decide
  obtain ⟨hiff, -, hunique⟩ := match?_exact hfirst
  have hcloses : Closes t 1 7 := (hiff 7).mp hmatch
  refine ⟨hfirst, hmatch, hcloses, fun j hj => hunique j 7 hj hcloses, hlast, hnone, ?_⟩
  exact not_exists.mp ((match?_exact hlast).2.1.mp hnone)

end CircuitDocs.Paren
