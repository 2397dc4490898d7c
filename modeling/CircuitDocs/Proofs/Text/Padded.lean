import Mathlib.Data.List.Forall2
import CircuitDocs.Proofs.Text.Words

/-! # Padded text

Blanks are put at the two ends of the lines of a text, of one class in front and of another one
behind. The relation is read from left to right, character by character, and turning both texts
around exchanges the classes. So what holds at the front of a text holds at its back.
-/

namespace CircuitDocs.Text

/-- A class of blanks that leave a line in one piece. -/
structure Filler where
  holds : Char → Bool
  blank : ∀ c, holds c = true → isBlank c = true
  newline : holds '\n' = false

namespace Filler

variable {f : Filler} {u : Text}

def pads : Filler := ⟨isPad, fun _ => isBlank_of_isPad, by decide⟩

def blanks : Filler :=
  ⟨fun c => isBlank c && c ≠ '\n', fun _ h => (Bool.and_eq_true_iff.mp h).1, by decide⟩

def nothing : Filler := ⟨fun _ => false, fun _ h => absurd h (by decide), rfl⟩

def Run (f : Filler) (u : Text) : Prop := ∀ c ∈ u, f.holds c = true

instance : Decidable (f.Run u) := decidable_of_iff (u.all f.holds = true) List.all_eq_true

theorem run_nil : f.Run [] := by simp [Run]

theorem Run.reverse (h : f.Run u) : f.Run u.reverse := fun c hc => h c (List.mem_reverse.mp hc)

theorem Run.blank (h : f.Run u) : Text.blank u = true :=
  blank_iff.mpr fun c hc => f.blank c (h c hc)

theorem Run.newline_not_mem (h : f.Run u) : '\n' ∉ u := by
  intro hn
  have := h _ hn
  rw [f.newline] at this
  contradiction

theorem Run.not_mem {c : Char} (h : f.Run u) (hc : isBlank c = false) : c ∉ u :=
  not_mem_of_blank h.blank hc

theorem Run.eq_nil (h : nothing.Run u) : u = [] := by
  cases u with
  | nil => rfl
  | cons c u => exact absurd (h c (by simp)) (by simp [nothing])

end Filler

theorem rel_cases {α β : Type} {r : α → β → Prop} {x : Option α} {y : Option β}
    (h : Option.Rel r x y) :
    (x = none ∧ y = none) ∨ ∃ a b, x = some a ∧ y = some b ∧ r a b := by
  cases h with
  | none => exact Or.inl ⟨rfl, rfl⟩
  | some h => exact Or.inr ⟨_, _, rfl, rfl, h⟩

open Filler

variable {f b : Filler} {t t' : Text}

/-! ## Lines -/

/-- The second line is the first with characters of one class in front and of another behind. -/
def PaddedLine (f b : Filler) (l l' : Text) : Prop :=
  ∃ u v, f.Run u ∧ b.Run v ∧ l' = u ++ (l ++ v)

namespace PaddedLine

variable {l l' : Text}

theorem trim_eq (h : PaddedLine f b l l') : trim l' = trim l := by
  obtain ⟨u, v, hu, hv, rfl⟩ := h
  rw [trim_blank_append hu.blank, trim_append_blank hv.blank]

theorem blank_eq (h : PaddedLine f b l l') : blank l' = blank l := by
  obtain ⟨u, v, hu, hv, rfl⟩ := h
  simp [hu.blank, hv.blank]

theorem words_eq (h : PaddedLine f b l l') : words l' = words l := by
  obtain ⟨u, v, hu, hv, rfl⟩ := h
  rw [words_blank_append hu.blank, words_append_blank hv.blank]

theorem mem_iff (h : PaddedLine f b l l') {c : Char} (hc : isBlank c = false) :
    c ∈ l' ↔ c ∈ l := by
  obtain ⟨u, v, hu, hv, rfl⟩ := h
  simp [hu.not_mem hc, hv.not_mem hc]

theorem newline_not_mem (h : PaddedLine f b l l') (hl : '\n' ∉ l) : '\n' ∉ l' := by
  obtain ⟨u, v, hu, hv, rfl⟩ := h
  simp [hu.newline_not_mem, hv.newline_not_mem, hl]

theorem forall_newline_not_mem {ls ls' : List Text} (h : List.Forall₂ (PaddedLine f b) ls ls')
    (hls : ∀ l ∈ ls, '\n' ∉ l) : ∀ l ∈ ls', '\n' ∉ l := by
  induction h with
  | nil => exact hls
  | cons hl _ ih =>
    rw [List.forall_mem_cons] at hls ⊢
    exact ⟨hl.newline_not_mem hls.1, ih hls.2⟩

end PaddedLine

/-! ## Texts -/

theorem blank_line_end {u v : Text} (hu : f.Run u) (hv : b.Run v) :
    blank (v ++ '\n' :: u) = true := by
  simp [hu.blank, hv.blank, show isBlank '\n' = true by decide]

theorem line_end_append (u v t : Text) : v ++ '\n' :: (u ++ t) = (v ++ '\n' :: u) ++ t := by simp

/-- The second text is the first with characters of one class put after line breaks and of another
before them. -/
inductive Padded (f b : Filler) : Text → Text → Prop where
  | nil : Padded f b [] []
  | cons (c : Char) {t t' : Text} : Padded f b t t' → Padded f b (c :: t) (c :: t')
  | newline {u v t t' : Text} : f.Run u → b.Run v → Padded f b t t' →
      Padded f b ('\n' :: t) (v ++ '\n' :: (u ++ t'))

namespace Padded

theorem refl (t : Text) : Padded f b t t := by
  induction t with
  | nil => exact .nil
  | cons c t ih => exact .cons c ih

theorem append {u u' : Text} (hu : Padded f b u u') (ht : Padded f b t t') :
    Padded f b (u ++ t) (u' ++ t') := by
  induction hu with
  | nil => exact ht
  | cons c _ ih => exact .cons c ih
  | newline hu hv _ ih => simpa using Padded.newline hu hv ih

theorem reverse (h : Padded f b t t') : Padded b f t.reverse t'.reverse := by
  induction h with
  | nil => exact .nil
  | cons c _ ih => simpa using ih.append (refl [c])
  | newline hu hv _ ih =>
    simpa using ih.append (Padded.newline hv.reverse hu.reverse .nil)

theorem eq_nil_iff (h : Padded f b t t') : t' = [] ↔ t = [] := by
  cases h <;> simp

/-! ### Characters that are never put in -/

/-- A test that no character that may come before a line break passes, nor the break itself. -/
def Stops (b : Filler) (p : Char → Bool) : Prop :=
  p '\n' = false ∧ ∀ c, b.holds c = true → p c = false

variable {p : Char → Bool}

theorem stops_of_not_blank (hp : ∀ c, p c = true → isBlank c = false) : Stops b p := by
  have h : ∀ c, isBlank c = true → p c = false := by
    intro c hc
    by_contra hpc
    rw [hp c (by simpa using hpc)] at hc
    contradiction
  exact ⟨h _ (by decide), fun c hc => h c (b.blank c hc)⟩

theorem Stops.exists_head (hp : Stops b p) {v : Text} (hv : b.Run v) (s : Text) :
    ∃ c r, v ++ '\n' :: s = c :: r ∧ p c = false := by
  cases v with
  | nil => exact ⟨'\n', s, rfl, hp.1⟩
  | cons c v => exact ⟨c, v ++ '\n' :: s, rfl, hp.2 c (hv c (by simp))⟩

theorem takeWhile_eq (h : Padded f b t t') (hp : Stops b p) :
    t'.takeWhile p = t.takeWhile p := by
  induction h with
  | nil => rfl
  | cons c _ ih => rw [List.takeWhile_cons, List.takeWhile_cons, ih]
  | newline hu hv _ _ =>
    obtain ⟨c, r, hc, hpc⟩ := hp.exists_head hv _
    rw [hc, List.takeWhile_cons_of_neg (by simp [hpc]), List.takeWhile_cons_of_neg (by simp [hp.1])]

theorem dropWhile (h : Padded f b t t') (hp : Stops b p) :
    Padded f b (t.dropWhile p) (t'.dropWhile p) := by
  induction h with
  | nil => exact .nil
  | cons c h ih =>
    rw [List.dropWhile_cons, List.dropWhile_cons]
    split
    · exact ih
    · exact .cons c h
  | newline hu hv h _ =>
    obtain ⟨c, r, hc, hpc⟩ := hp.exists_head hv _
    rw [List.dropWhile_cons_of_neg (by simp [hp.1]), hc,
      List.dropWhile_cons_of_neg (by simp [hpc]), ← hc]
    exact .newline hu hv h

theorem after? (h : Padded f b t t') {w : Text} (hw : w.any isBlank = false) :
    Option.Rel (Padded f b) (Text.after? w t) (Text.after? w t') := by
  induction w generalizing t t' with
  | nil =>
    rw [Text.after?, Text.after?]
    exact .some h
  | cons c w ih =>
    obtain ⟨hc, hw⟩ := Bool.or_eq_false_iff.mp hw
    cases h with
    | nil => exact .none
    | cons d h =>
      rw [Text.after?, Text.after?]
      split
      · exact ih h hw
      · exact .none
    | @newline u v t s hu hv h =>
      have hstop : Stops b (fun d => d = c) :=
        stops_of_not_blank fun d hd => by rw [of_decide_eq_true hd, hc]
      obtain ⟨d, r, hd, hdc⟩ := hstop.exists_head hv (u ++ s)
      have h₁ : c ≠ '\n' := fun h => of_decide_eq_false hstop.1 h.symm
      have h₂ : c ≠ d := fun h => of_decide_eq_false hdc h.symm
      rw [hd, Text.after?, Text.after?, if_neg h₁, if_neg h₂]
      exact .none

theorem head_cases (h : Padded f b t t') {c : Char} (hc : isBlank c = false) :
    ((∀ r, t ≠ c :: r) ∧ ∀ r, t' ≠ c :: r) ∨
      ∃ r r', t = c :: r ∧ t' = c :: r' ∧ Padded f b r r' := by
  rcases rel_cases (h.after? (w := [c]) (by simpa using hc)) with ⟨hx, hy⟩ | ⟨r, r', hx, hy, hr⟩
  · left
    constructor
    · rintro r rfl
      simp [Text.after?] at hx
    · rintro r rfl
      simp [Text.after?] at hy
  · exact Or.inr ⟨r, r', after?_eq_some_iff.mp hx, after?_eq_some_iff.mp hy, hr⟩

theorem before? (h : Padded f b t t') {w : Text} (hw : w.any isBlank = false) :
    Option.Rel (Padded f b) (Text.before? w t) (Text.before? w t') := by
  have hr := h.reverse.after? (w := w.reverse) (by rwa [List.any_reverse])
  rcases rel_cases hr with ⟨hx, hy⟩ | ⟨r, r', hx, hy, hr⟩
  · rw [Text.before?, Text.before?, hx, hy]
    exact .none
  · rw [Text.before?, Text.before?, hx, hy]
    exact .some hr.reverse

/-! ### Characters of which some are put in -/

section

variable (hp : ∀ c, isBlank c = true → p c = true)
include hp

theorem forall_line_end {u v : Text} (hu : f.Run u) (hv : b.Run v) :
    ∀ c ∈ v ++ '\n' :: u, p c = true :=
  fun c hc => hp c (blank_iff.mp (blank_line_end hu hv) c hc)

theorem takeWhile_of_blank (h : Padded f b t t') :
    Padded f b (t.takeWhile p) (t'.takeWhile p) := by
  induction h with
  | nil => exact .nil
  | cons c _ ih =>
    rw [List.takeWhile_cons, List.takeWhile_cons]
    split
    · exact .cons c ih
    · exact .nil
  | @newline u v t s hu hv _ ih =>
    rw [line_end_append, List.takeWhile_append_of_pos (forall_line_end hp hu hv),
      List.takeWhile_cons_of_pos (hp _ (by decide))]
    simpa using Padded.newline hu hv ih

theorem dropWhile_of_blank (h : Padded f b t t') :
    Padded f b (t.dropWhile p) (t'.dropWhile p) := by
  induction h with
  | nil => exact .nil
  | cons c h ih =>
    rw [List.dropWhile_cons, List.dropWhile_cons]
    split
    · exact ih
    · exact .cons c h
  | @newline u v t s hu hv _ ih =>
    rw [line_end_append, List.dropWhile_append_of_pos (forall_line_end hp hu hv),
      List.dropWhile_cons_of_pos (hp _ (by decide))]
    exact ih

end

theorem dropWhile_ne_cases (h : Padded f b t t') {c : Char} (hc : isBlank c = false) :
    (t.dropWhile (· ≠ c) = [] ∧ t'.dropWhile (· ≠ c) = []) ∨
      ∃ r r', t.dropWhile (· ≠ c) = c :: r ∧ t'.dropWhile (· ≠ c) = c :: r' ∧
        Padded f b r r' := by
  induction h with
  | nil => exact Or.inl ⟨rfl, rfl⟩
  | @cons d t t' h ih =>
    by_cases hd : d = c
    · subst hd
      exact Or.inr ⟨t, t', by simp, by simp, h⟩
    · rw [List.dropWhile_cons_of_pos (by simpa using hd),
        List.dropWhile_cons_of_pos (by simpa using hd)]
      exact ih
  | @newline u v t s hu hv _ ih =>
    have hp := decide_ne_of_isBlank hc
    have hbreak : decide ('\n' ≠ c) = true := hp '\n' (by decide)
    rw [line_end_append, List.dropWhile_append_of_pos (forall_line_end hp hu hv),
      List.dropWhile_cons_of_pos (p := fun d => decide (d ≠ c)) hbreak]
    exact ih

theorem trimLeft (h : Padded f b t t') : Padded f b (trimLeft t) (trimLeft t') :=
  dropWhile_of_blank (fun _ hc => hc) h

theorem trimRight (h : Padded f b t t') : Padded f b (trimRight t) (trimRight t') := by
  rw [trimRight_eq_reverse, trimRight_eq_reverse]
  exact h.reverse.trimLeft.reverse

theorem trim (h : Padded f b t t') : Padded f b (trim t) (trim t') := h.trimLeft.trimRight

/-! ### Lines and words -/

theorem exists_lines (h : Padded f b t t') :
    ∃ l v ls ls', lines t = l :: ls ∧ lines t' = (l ++ v) :: ls' ∧ b.Run v ∧
      List.Forall₂ (PaddedLine f b) ls ls' := by
  induction h with
  | nil => exact ⟨[], [], [], [], rfl, rfl, run_nil, .nil⟩
  | cons c h ih =>
    obtain ⟨l, v, ls, ls', hl, hl', hv, hls⟩ := ih
    by_cases hc : c = '\n'
    · subst hc
      refine ⟨[], [], l :: ls, (l ++ v) :: ls', ?_, ?_, run_nil, ?_⟩
      · rw [lines_cons_newline, hl]
      · rw [lines_cons_newline, hl']
        rfl
      · exact .cons ⟨[], v, run_nil, hv, rfl⟩ hls
    · refine ⟨c :: l, v, ls, ls', ?_, ?_, hv, hls⟩
      · rw [lines_cons hc, hl]
        rfl
      · rw [lines_cons hc, hl']
        rfl
  | newline hu hv h ih =>
    rename_i u v t s
    obtain ⟨l, w, ls, ls', hl, hl', hw, hls⟩ := ih
    refine ⟨[], v, l :: ls, (u ++ (l ++ w)) :: ls', ?_, ?_, hv, ?_⟩
    · rw [lines_cons_newline, hl]
    · rw [lines_append_newline, lines_append hu.newline_not_mem, hl', lines,
        List.splitOn_eq_singleton hv.newline_not_mem]
      rfl
    · exact .cons ⟨u, w, hu, hw, rfl⟩ hls

theorem forall₂_lines (h : Padded f b t t') :
    List.Forall₂ (PaddedLine f b) (lines t) (lines t') := by
  obtain ⟨l, v, ls, ls', hl, hl', hv, hls⟩ := h.exists_lines
  rw [hl, hl']
  exact .cons ⟨[], v, run_nil, hv, rfl⟩ hls

theorem words_eq (h : Padded f b t t') : words t' = words t := by
  rw [← unlines_lines t, ← unlines_lines t', words_unlines, words_unlines]
  have hls := h.forall₂_lines
  generalize lines t = ls, lines t' = ls' at hls
  induction hls with
  | nil => rfl
  | cons hl _ ih => rw [List.flatMap_cons, List.flatMap_cons, hl.words_eq, ih]

theorem collapse_eq (h : Padded f b t t') : collapse t' = collapse t := collapse_congr h.words_eq

end Padded

theorem exists_padded_unlines {ls ls' : List Text} (h : List.Forall₂ (PaddedLine f b) ls ls') :
    ∃ u t v, f.Run u ∧ b.Run v ∧ unlines ls' = u ++ (t ++ v) ∧ Padded f b (unlines ls) t := by
  induction h with
  | nil => exact ⟨[], [], [], run_nil, run_nil, rfl, .nil⟩
  | @cons l l' ls ls' hl hls ih =>
    obtain ⟨u, v, hu, hv, rfl⟩ := hl
    cases hls with
    | nil => exact ⟨u, l, v, hu, hv, by simp, by simpa using Padded.refl l⟩
    | cons hm hls =>
      obtain ⟨u', t, v', hu', hv', he, ht⟩ := ih
      refine ⟨u, l ++ (v ++ '\n' :: (u' ++ t)), v', hu, hv', ?_, ?_⟩
      · rw [unlines_cons _ (by simp), he]
        simp
      · rw [unlines_cons _ (by simp)]
        exact (Padded.refl l).append (.newline hu' hv ht)

end CircuitDocs.Text
