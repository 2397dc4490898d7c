import Mathlib.Data.Char
import Mathlib.Data.List.Lex
import Mathlib.Data.List.Sort
import CircuitDocs.Disk.Discovery

/-! # Order of paths

Names are ordered by their code points and lists of names by their names. Both orders are linear,
so sorting a list without repetitions depends on its members only.
-/

namespace CircuitDocs

variable {paths paths' : List (List Text)}

theorem nameBefore_iff (s t : Text) : nameBefore s t = true ↔ s < t := by
  rw [nameBefore, List.lex_eq_true_iff_lex]
  simp only [decide_eq_true_eq]
  rfl

theorem namesBefore_iff (p q : List Text) : namesBefore p q = true ↔ p < q := by
  rw [namesBefore, List.lex_eq_true_iff_lex]
  simp only [nameBefore_iff]
  rfl

theorem perm_insertName (n : Text) (names : List Text) :
    (insertName n names).Perm (n :: names) := by
  induction names with
  | nil => exact .refl _
  | cons m names ih =>
    rw [insertName]
    split
    · exact (ih.cons m).trans (.swap n m names)
    · exact .refl _

theorem perm_orderNames (names : List Text) : (orderNames names).Perm names := by
  induction names with
  | nil => exact .nil
  | cons n names ih => exact (perm_insertName n _).trans (ih.cons n)

theorem mem_sortNames {p : List Text} : p ∈ sortNames paths ↔ p ∈ paths := List.mem_mergeSort

theorem perm_sortNames (paths : List (List Text)) : (sortNames paths).Perm paths :=
  List.mergeSort_perm _ _

theorem pairwise_le_sortNames (paths : List (List Text)) :
    (sortNames paths).Pairwise (· ≤ ·) := by
  have hle : ∀ p q : List Text, (!namesBefore q p) = true ↔ p ≤ q := by
    intro p q
    rw [Bool.not_eq_true', ← Bool.not_eq_true, namesBefore_iff, not_lt]
  refine (List.pairwise_mergeSort ?_ ?_ paths).imp fun h => (hle _ _).mp h
  · intro p q r
    simp only [hle]
    exact le_trans
  · intro p q
    rw [Bool.or_eq_true, hle, hle]
    exact le_total p q

theorem pairwise_sortNames (h : paths.Nodup) :
    (sortNames paths).Pairwise fun p q => namesBefore p q = true := by
  have hnodup : (sortNames paths).Pairwise (· ≠ ·) := (perm_sortNames paths).nodup_iff.mpr h
  refine (pairwise_le_sortNames paths |>.and hnodup).imp ?_
  rintro p q ⟨hle, hne⟩
  exact (namesBefore_iff p q).mpr (lt_of_le_of_ne hle hne)

theorem sortNames_eq_of_perm (h : paths.Perm paths') : sortNames paths = sortNames paths' := by
  have hperm := (perm_sortNames paths).trans (h.trans (perm_sortNames paths').symm)
  exact hperm.eq_of_pairwise (fun p q _ _ => le_antisymm) (pairwise_le_sortNames paths)
    (pairwise_le_sortNames paths')

/-- A list without repetitions whose members are among those of another is sorted into a part of
it. -/
theorem sublist_sortNames (h : paths.Nodup) (hm : ∀ p ∈ paths, p ∈ paths') :
    (sortNames paths).Sublist (sortNames paths') := by
  have hsubperm : (sortNames paths).Subperm (sortNames paths') := by
    refine List.subperm_of_subset ((perm_sortNames paths).nodup_iff.mpr h) fun p hp => ?_
    exact mem_sortNames.mpr (hm p (mem_sortNames.mp hp))
  exact List.sublist_of_subperm_of_pairwise hsubperm (pairwise_le_sortNames paths)
    (pairwise_le_sortNames paths')

end CircuitDocs
