import Mathlib.Data.List.DropRight
import CircuitDocs.Proofs.Text.Class
import CircuitDocs.Text.Basic

/-! # Trimming

How trimming acts on a text that is put together from a part of blanks only and one that is not.
-/

namespace CircuitDocs.Text

variable {t u v : Text} {c : Char}

theorem blank_iff : blank t = true ↔ ∀ c ∈ t, isBlank c = true := by simp [blank]

@[simp] theorem blank_nil : blank [] = true := rfl

@[simp] theorem blank_cons : blank (c :: t) = (isBlank c && blank t) := rfl

@[simp] theorem blank_append : blank (u ++ v) = (blank u && blank v) := by simp [blank]

@[simp] theorem blank_reverse : blank t.reverse = blank t := by simp [blank]

theorem blank_replicate_newline (n : Nat) : blank (List.replicate n '\n') = true := by
  simp only [blank_iff, List.mem_replicate]
  rintro c ⟨-, rfl⟩
  decide

theorem not_blank_of_mem (h : c ∈ t) (hc : isBlank c = false) : blank t = false := by
  cases hb : blank t with
  | false => rfl
  | true => simp [blank_iff.mp hb c h] at hc

theorem not_mem_of_blank (ht : blank t = true) (hc : isBlank c = false) : c ∉ t := by
  intro h
  rw [not_blank_of_mem h hc] at ht
  contradiction

theorem decide_ne_of_isBlank (hc : isBlank c = false) (d : Char) (hd : isBlank d = true) :
    decide (d ≠ c) = true := by
  apply decide_eq_true
  rintro rfl
  rw [hc] at hd
  contradiction

/-! ## At the front -/

@[simp] theorem trimLeft_nil : trimLeft [] = [] := rfl

theorem trimLeft_cons (hc : isBlank c = false) : trimLeft (c :: t) = c :: t := by
  simp [trimLeft, hc]

theorem trimLeft_append_blank (hu : blank u = true) : trimLeft (u ++ v) = trimLeft v :=
  List.dropWhile_append_of_pos (blank_iff.mp hu)

theorem trimLeft_append (hu : blank u = false) : trimLeft (u ++ v) = trimLeft u ++ v := by
  have h : (u.dropWhile isBlank).isEmpty = false := by
    rw [← Bool.not_eq_true, List.isEmpty_iff, List.dropWhile_eq_nil_iff, ← blank_iff, hu]
    decide
  simp only [trimLeft, List.dropWhile_append, h, Bool.false_eq_true, if_false]

theorem trimLeft_eq_nil_iff : trimLeft t = [] ↔ blank t = true := by
  rw [trimLeft, List.dropWhile_eq_nil_iff, blank_iff]

theorem append_inj_of_blank {s : Text} (hu : blank u = true) (hv : blank v = true)
    (hs : trimLeft s = s) (ht : trimLeft t = t) (h : u ++ s = v ++ t) : u = v ∧ s = t := by
  have hst : s = t := by
    rw [← hs, ← ht, ← trimLeft_append_blank hu, h, trimLeft_append_blank hv]
  subst hst
  exact ⟨List.append_cancel_right h, rfl⟩

theorem exists_blank_append_trimLeft (t : Text) : ∃ b, blank b = true ∧ t = b ++ trimLeft t :=
  ⟨t.takeWhile isBlank, blank_iff.mpr fun _ h => List.mem_takeWhile_imp h,
    List.takeWhile_append_dropWhile.symm⟩

@[simp] theorem trimLeft_trimLeft : trimLeft (trimLeft t) = trimLeft t :=
  List.dropWhile_idempotent isBlank t

theorem length_trimLeft_le (t : Text) : (trimLeft t).length ≤ t.length :=
  (List.dropWhile_suffix isBlank).length_le

theorem trimLeft_eq_self_iff : trimLeft t = t ↔ ∀ c ∈ t.head?, isBlank c = false := by
  cases t with
  | nil => simp
  | cons c t =>
    simp only [List.head?_cons, Option.mem_some_iff, forall_eq']
    refine ⟨fun h => ?_, trimLeft_cons⟩
    cases hc : isBlank c with
    | false => rfl
    | true =>
      have hlen := length_trimLeft_le t
      rw [← trimLeft_append_blank (u := [c]) (by simpa using hc), List.singleton_append, h] at hlen
      exact absurd hlen (by simp)

theorem trimLeft_of_head? (h : t.head? = some c) (hc : isBlank c = false) : trimLeft t = t := by
  obtain ⟨r, rfl⟩ := List.head?_eq_some_iff.mp h
  exact trimLeft_cons hc

/-! ## At the back -/

@[simp] theorem trimRight_nil : trimRight [] = [] := rfl

theorem trimRight_eq_reverse : trimRight t = (trimLeft t.reverse).reverse := rfl

theorem rdropWhile_cons {p : Char → Bool} (hc : p c = false) (t : Text) :
    (c :: t).rdropWhile p = c :: t.rdropWhile p := by
  rw [List.rdropWhile, List.reverse_cons, List.dropWhile_append]
  split
  · rename_i h
    rw [List.rdropWhile, List.isEmpty_iff.mp h, List.dropWhile_cons_of_neg (by simp [hc])]
    rfl
  · rw [List.reverse_append]
    rfl

theorem trimRight_append_blank (hv : blank v = true) : trimRight (u ++ v) = trimRight u := by
  rw [trimRight_eq_reverse, List.reverse_append, trimLeft_append_blank (by simpa using hv)]
  rfl

theorem trimRight_append (hv : blank v = false) : trimRight (u ++ v) = u ++ trimRight v := by
  rw [trimRight_eq_reverse, List.reverse_append, trimLeft_append (by simpa using hv)]
  simp [trimRight_eq_reverse]

theorem trimRight_blank (ht : blank t = true) : trimRight t = [] := by
  rw [trimRight_eq_reverse, trimLeft_eq_nil_iff.mpr (by simpa using ht), List.reverse_nil]

theorem trimRight_concat (hc : isBlank c = false) : trimRight (t ++ [c]) = t ++ [c] := by
  rw [trimRight_append (by simp [hc])]
  simp [trimRight_eq_reverse, trimLeft_cons hc]

theorem exists_trimRight_append_blank (t : Text) :
    ∃ b, blank b = true ∧ t = trimRight t ++ b := by
  obtain ⟨b, hb, ht⟩ := exists_blank_append_trimLeft t.reverse
  refine ⟨b.reverse, by simpa using hb, ?_⟩
  rw [trimRight_eq_reverse, ← List.reverse_append, ← ht, List.reverse_reverse]

@[simp] theorem trimRight_trimRight : trimRight (trimRight t) = trimRight t := by
  simp [trimRight_eq_reverse]

@[simp] theorem blank_trimRight : blank (trimRight t) = blank t := by
  obtain ⟨b, hb, ht⟩ := exists_trimRight_append_blank t
  conv_rhs => rw [ht, blank_append, hb, Bool.and_true]

theorem length_trimRight_le (t : Text) : (trimRight t).length ≤ t.length :=
  (List.rdropWhile_prefix isBlank t).length_le

theorem trimRight_eq_self_iff : trimRight t = t ↔ ∀ c ∈ t.getLast?, isBlank c = false := by
  rw [trimRight_eq_reverse, ← List.head?_reverse, ← trimLeft_eq_self_iff, List.reverse_eq_iff]

theorem mem_of_mem_trimRight (h : c ∈ trimRight t) : c ∈ t :=
  (List.rdropWhile_prefix isBlank (l := t)).subset h

/-! ## At both ends -/

theorem trim_append_blank (hv : blank v = true) : trim (u ++ v) = trim u := by
  cases hu : blank u with
  | true =>
    rw [trim, trim, trimLeft_eq_nil_iff.mpr (by simp [hu, hv]), trimLeft_eq_nil_iff.mpr hu]
  | false => rw [trim, trim, trimLeft_append hu, trimRight_append_blank hv]

theorem trim_blank_append (hu : blank u = true) : trim (u ++ v) = trim v := by
  rw [trim, trim, trimLeft_append_blank hu]

theorem length_trim_le (t : Text) : (trim t).length ≤ t.length :=
  (length_trimRight_le _).trans (length_trimLeft_le t)

theorem trimLeft_trim : trimLeft (trim t) = trim t := by
  rw [trimLeft_eq_self_iff]
  intro c hc
  obtain ⟨b, -, hb⟩ := exists_trimRight_append_blank (trimLeft t)
  have hfront := trimLeft_eq_self_iff.mp (trimLeft_trimLeft (t := t))
  rw [hb, ← trim, List.head?_append, hc] at hfront
  exact hfront c rfl

theorem trimRight_trim : trimRight (trim t) = trim t := trimRight_trimRight

theorem trim_eq_self (hl : trimLeft t = t) (hr : trimRight t = t) : trim t = t := by
  rw [trim, hl, hr]

end CircuitDocs.Text
