import Mathlib.Data.List.Basic
import CircuitDocs.Disk.Path
import CircuitDocs.Ignore.Match

/-! # Written names

The names of entries have no slashes, so a written list of names is read back by cutting it at its
slashes, and one list leads through another exactly when its text goes on after a slash.
-/

namespace CircuitDocs

variable {n : Text} {p q : List Text}

/-- A name that an entry of a directory may have. -/
structure IsEntryName (n : Text) : Prop where
  ne_nil : n ≠ []
  ne_dot : n ≠ ['.']
  slash_not_mem : '/' ∉ n

instance (n : Text) : Decidable (IsEntryName n) :=
  decidable_of_iff (n ≠ [] ∧ n ≠ ['.'] ∧ '/' ∉ n)
    ⟨fun h => ⟨h.1, h.2.1, h.2.2⟩, fun h => ⟨h.ne_nil, h.ne_dot, h.slash_not_mem⟩⟩

namespace Path

@[simp] theorem joined_nil : joined [] = [] := rfl

@[simp] theorem joined_singleton (n : Text) : joined [n] = n := by simp [joined]

theorem joined_cons (n : Text) (hp : p ≠ []) : joined (n :: p) = n ++ '/' :: joined p := by
  simp [joined, List.intercalate_cons_of_ne_nil hp]

theorem joined_append (hp : p ≠ []) (hq : q ≠ []) :
    joined (p ++ q) = joined p ++ '/' :: joined q := by
  induction p with
  | nil => exact absurd rfl hp
  | cons n p ih =>
    cases p with
    | nil => rw [List.singleton_append, joined_cons n hq, joined_singleton]
    | cons m p =>
      rw [List.cons_append, joined_cons n (by simp), ih (by simp), joined_cons n (by simp)]
      simp

theorem splitOn_joined (hne : p ≠ []) (hp : ∀ n ∈ p, '/' ∉ n) : (joined p).splitOn '/' = p :=
  List.splitOn_intercalate '/' hp hne

theorem splitOn_joined_append (hne : p ≠ []) (hp : ∀ n ∈ p, '/' ∉ n) (t : Text) :
    (joined p ++ '/' :: t).splitOn '/' = p ++ t.splitOn '/' := by
  have h : (joined p ++ '/' :: t).splitOn '/' = (joined p).splitOn '/' ++ t.splitOn '/' :=
    List.splitOnP_append_cons (joined p) t (by decide)
  rw [h, splitOn_joined hne hp]

theorem splitOn_ne_singleton_nil {t : Text} (ht : t ≠ []) : t.splitOn '/' ≠ [[]] := by
  intro h
  have hj : ['/'].intercalate (t.splitOn '/') = t := List.intercalate_splitOn '/'
  rw [h] at hj
  exact ht (by simpa using hj.symm)

theorem joined_ne_nil (hne : p ≠ []) (hp : ∀ n ∈ p, IsEntryName n) : joined p ≠ [] := by
  intro h
  have hs := splitOn_joined hne fun n hn => (hp n hn).slash_not_mem
  rw [h] at hs
  have hnil : p = [[]] := by simpa using hs.symm
  exact (hp [] (by simp [hnil])).ne_nil rfl

theorem lt_of_joined_eq {tail u : Text} (hq : q ≠ []) (hqs : ∀ n ∈ q, '/' ∉ n) (hp : p ≠ [])
    (hps : ∀ n ∈ p, '/' ∉ n) (ht : tail = [] ∨ tail = ['/']) (hu : u ≠ [])
    (h : joined q ++ tail = joined p ++ '/' :: u) : p <+: q ∧ p ≠ q := by
  have hright := splitOn_joined_append hp hps u
  have hcut : u.splitOn '/' ≠ [] := List.splitOn_ne_nil '/' u
  rcases ht with rfl | rfl
  · rw [List.append_nil] at h
    rw [← h, splitOn_joined hq hqs] at hright
    refine ⟨⟨_, hright.symm⟩, ?_⟩
    rintro rfl
    exact hcut (List.self_eq_append_right.mp hright)
  · have hleft := splitOn_joined_append hq hqs []
    rw [h, hright, List.splitOn_nil] at hleft
    obtain ⟨init, last, hinit⟩ := (List.eq_nil_or_concat' _).resolve_left hcut
    rw [hinit, ← List.append_assoc] at hleft
    obtain ⟨hq', hlast⟩ := List.append_inj' hleft rfl
    refine ⟨⟨init, hq'⟩, ?_⟩
    rintro rfl
    obtain rfl := List.append_right_eq_self.mp hq'
    rw [hlast, List.nil_append] at hinit
    exact splitOn_ne_singleton_nil hu hinit

theorem exists_joined_eq_cons (hne : p ≠ []) (hp : ∀ n ∈ p, IsEntryName n) :
    ∃ c t, joined p = c :: t ∧ c ≠ '/' := by
  obtain ⟨n, p, rfl⟩ := List.exists_cons_of_ne_nil hne
  have hn := hp n (by simp)
  obtain ⟨c, n, rfl⟩ := List.exists_cons_of_ne_nil hn.ne_nil
  have hc : c ≠ '/' := by
    rintro rfl
    exact hn.slash_not_mem (by simp)
  cases p with
  | nil => exact ⟨c, n, joined_singleton _, hc⟩
  | cons m p => exact ⟨c, n ++ '/' :: joined (m :: p), joined_cons _ (by simp), hc⟩

theorem exists_joined_eq_concat (hne : p ≠ []) (hp : ∀ n ∈ p, IsEntryName n) :
    ∃ t c, joined p = t ++ [c] ∧ c ≠ '/' := by
  obtain ⟨p, n, rfl⟩ := (List.eq_nil_or_concat' p).resolve_left hne
  have hn := hp n (by simp)
  obtain ⟨m, c, rfl⟩ := (List.eq_nil_or_concat' n).resolve_left hn.ne_nil
  have hc : c ≠ '/' := by
    rintro rfl
    exact hn.slash_not_mem (by simp)
  cases p with
  | nil => exact ⟨m, c, joined_singleton _, hc⟩
  | cons k p =>
    refine ⟨joined (k :: p) ++ '/' :: m, c, ?_, hc⟩
    rw [joined_append (by simp) (by simp), joined_singleton]
    simp

end Path

namespace Ignore

theorem unslashed_eq_self {t : Text} (hfront : t.head? ≠ some '/')
    (hback : t.getLast? ≠ some '/') : unslashed t = t := by
  have hdrop : ∀ u : Text, u.head? ≠ some '/' → u.dropWhile (· = '/') = u := by
    intro u hu
    cases u with
    | nil => rfl
    | cons c u => exact List.dropWhile_cons_of_neg (by simpa using hu)
  rw [unslashed, hdrop t hfront, hdrop t.reverse (by rwa [List.head?_reverse]),
    List.reverse_reverse]

theorem unslashed_joined (hne : p ≠ []) (hp : ∀ n ∈ p, IsEntryName n) :
    unslashed (Path.joined p) = Path.joined p := by
  obtain ⟨c, t, hct, hc⟩ := Path.exists_joined_eq_cons hne hp
  obtain ⟨u, d, hud, hd⟩ := Path.exists_joined_eq_concat hne hp
  apply unslashed_eq_self
  · simpa [hct] using hc
  · simpa [hud] using hd

theorem unrooted_joined_append (hne : p ≠ []) (hp : ∀ n ∈ p, IsEntryName n) {tail : Text}
    (ht : tail = [] ∨ tail = ['/']) :
    unrooted (Path.joined p ++ tail) = Path.joined p ++ tail := by
  obtain ⟨c, t, hct, hc⟩ := Path.exists_joined_eq_cons hne hp
  unfold unrooted
  split
  · rename_i r he
    rw [hct] at he
    exact absurd (List.cons.inj he).1 hc
  · rename_i r he
    have hdot : ['.'] ∈ (Path.joined p ++ tail).splitOn '/' := by
      have hsplit := Path.splitOn_joined_append (p := [['.']]) (by simp) (by decide) r
      rw [he, show '.' :: '/' :: r = Path.joined [['.']] ++ '/' :: r from rfl, hsplit]
      simp
    have hnames := fun n hn => (hp n hn).slash_not_mem
    rcases ht with rfl | rfl
    · rw [List.append_nil, Path.splitOn_joined hne hnames] at hdot
      exact absurd rfl (hp _ hdot).ne_dot
    · rw [Path.splitOn_joined_append hne hnames, List.splitOn_nil] at hdot
      rcases List.mem_append.mp hdot with hdot | hdot
      · exact absurd rfl (hp _ hdot).ne_dot
      · simp at hdot
  · rfl

theorem ignored_joined (hne : p ≠ []) (hp : ∀ n ∈ p, IsEntryName n) (ps : List Pattern)
    (directory : Bool) :
    ignored ps (Path.joined p) directory =
      (decides ps (Path.joined p) || (directory && decides ps (Path.joined p ++ ['/']))) := by
  simp only [ignored, unslashed_joined hne hp, List.isEmpty_iff, Path.joined_ne_nil hne hp,
    if_false]

end Ignore

end CircuitDocs
