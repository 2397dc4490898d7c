import CircuitDocs.Ignore.Match

/-! # Matching below a directory

A pattern that asks for the names of a directory, a slash and then some steps matches a path
exactly as these steps match what follows the directory. Directories between two names and
directories at the front are the same thing seen from the directory and from below it.
-/

namespace CircuitDocs

theorem Text.after?_append (v w t : Text) : after? (v ++ w) t = (after? v t).bind (after? w) := by
  induction v generalizing t with
  | nil => rfl
  | cons c v ih =>
    cases t with
    | nil => rfl
    | cons d t =>
      rw [List.cons_append, after?, after?]
      split
      · exact ih t
      · rfl

namespace Ignore

open Text

variable {ending : Ending} {ss : List Step} {s : Step} {t u : Text}

def Step.literal (c : Char) : Step := if c = '/' then .slash else .token (.exact c)

theorem Step.take_literal (next : Text → Option Strength) (c : Char) :
    (literal c).take next = takeOne next (· = c) := by
  unfold literal
  split
  · subst_vars
    rfl
  · simp only [take]
    congr 1
    funext d
    simp only [accepts, eq_comm]

theorem strengthFrom?_literal_append (w : Text) (t : Text) :
    strengthFrom? ending (w.map .literal ++ ss) t =
      (after? w t).bind (strengthFrom? ending ss) := by
  induction w generalizing t with
  | nil => rfl
  | cons c w ih =>
    rw [List.map_cons, List.cons_append, strengthFrom?, Step.take_literal]
    cases t with
    | nil => rfl
    | cons d t =>
      rw [takeOne, after?]
      by_cases h : c = d
      · subst h
        simp only [decide_true, if_true]
        exact ih t
      · simp [h, Ne.symm h]

/-! ## Steps seen from the directory above -/

/-- Steps from the front of a path on, below any directories if `above` says so. -/
def front (above : Bool) (ss : List Step) : List Step :=
  if above then .directoriesAbove :: ss else ss

/-- The same steps as they follow a directory. -/
def under (above : Bool) (ss : List Step) : List Step :=
  if above then .directoriesBetween :: .slash :: ss else .slash :: ss

theorem takeOne_slash (next : Text → Option Strength) (t : Text) :
    takeOne next (· = '/') t = (after? ['/'] t).bind next := by
  cases t with
  | nil => rfl
  | cons c t =>
    rw [takeOne, after?]
    by_cases h : '/' = c
    · subst h
      rfl
    · simp [h, Ne.symm h]

theorem takeMost_takeOne_slash (next : Text → Option Strength) (t : Text) :
    takeMost (takeOne next (· = '/')) (· ≠ '\n') t = afterSlash next t := by
  induction t with
  | nil => rfl
  | cons c t ih =>
    rw [takeMost, afterSlash, ih, takeOne]
    by_cases h : c = '\n'
    · subst h
      simp
    · simp [h]

/-- A slash and directories after it are a slash and then directories at the front. -/
theorem takeBetween_takeOne_slash (next : Text → Option Strength) (t : Text) :
    takeBetween (takeOne next (· = '/')) t = (after? ['/'] t).bind (takeAbove next) := by
  unfold takeBetween
  split
  · rw [takeMost_takeOne_slash]
    rfl
  · rename_i hne
    rw [takeOne_slash]
    cases t with
    | nil => rfl
    | cons d t =>
      by_cases hd : '/' = d
      · subst hd
        cases t with
        | nil => rfl
        | cons c t => exact absurd rfl (hne c t)
      · rw [after?, if_neg hd]
        rfl

theorem strengthFrom?_under (above : Bool) (t : Text) :
    strengthFrom? ending (under above ss) t =
      (after? ['/'] t).bind (strengthFrom? ending (front above ss)) := by
  cases above with
  | false => exact takeOne_slash _ t
  | true => exact takeBetween_takeOne_slash _ t

theorem strengthFrom?_literal_under (above : Bool) (w t : Text) :
    strengthFrom? ending (w.map .literal ++ under above ss) t =
      (after? (w ++ ['/']) t).bind (strengthFrom? ending (front above ss)) := by
  rw [strengthFrom?_literal_append, after?_append, Option.bind_assoc]
  congr 1
  funext r
  exact strengthFrom?_under above r

/-! ## The empty path -/

/-- Whether a step can be taken without any character. -/
def Step.Idle : Step → Prop
  | .token .anyRun | .directoriesAbove | .directoriesBetween => True
  | _ => False

theorem Step.idle_of_take_nil {next : Text → Option Strength} {x : Strength}
    (h : s.take next [] = some x) : s.Idle ∧ next [] = some x := by
  cases s with
  | token t =>
    cases t with
    | anyRun => exact ⟨trivial, h⟩
    | exact c => exact absurd h (by simp [take, takeOne])
    | anyOne => exact absurd h (by simp [take, takeOne])
    | oneOf negated ranges => exact absurd h (by simp [take, takeOne])
  | someName => exact absurd h (by simp [take, takeOne])
  | slash => exact absurd h (by simp [take, takeOne])
  | directoriesAbove => exact ⟨trivial, h⟩
  | directoriesBetween => exact ⟨trivial, h⟩

theorem idle_of_strengthFrom?_nil {x : Strength} (h : strengthFrom? ending ss [] = some x) :
    ∀ s ∈ ss, s.Idle := by
  induction ss with
  | nil => simp
  | cons s ss ih =>
    obtain ⟨hs, hss⟩ := Step.idle_of_take_nil h
    exact List.forall_mem_cons.mpr ⟨hs, ih hss⟩

/-! ## Matches that end at a slash -/

/-- Whether a path needs a slash to be matched. -/
def Slashed (next : Text → Option Strength) : Prop := ∀ t, (next t).isSome → '/' ∈ t

theorem slashed_deepEnding (directory : Bool) : Slashed (deepEnding directory).strength? := by
  intro t h
  cases t with
  | nil => cases directory <;> simp [deepEnding, Ending.strength?] at h
  | cons c t =>
    by_cases hc : c = '/'
    · simp [hc]
    · cases directory <;> simp [deepEnding, Ending.strength?, hc] at h

section Slashed

variable {next : Text → Option Strength}

theorem Slashed.takeMost (h : Slashed next) (f : Char → Bool) :
    Slashed (takeMost next f) := by
  intro t ht
  induction t with
  | nil => exact h [] ht
  | cons c t ih =>
    rw [Ignore.takeMost] at ht
    split at ht
    · rw [Option.isSome_or, Bool.or_eq_true] at ht
      exact ht.elim (fun ht => List.mem_cons_of_mem _ (ih ht)) (h _)
    · exact h _ ht

theorem Slashed.takeOne (h : Slashed next) (f : Char → Bool) :
    Slashed (takeOne next f) := by
  intro t ht
  cases t with
  | nil => simp [Ignore.takeOne] at ht
  | cons c t =>
    rw [Ignore.takeOne] at ht
    split at ht
    · exact List.mem_cons_of_mem _ (h t ht)
    · simp at ht

theorem slashed_afterSlash (next : Text → Option Strength) : Slashed (afterSlash next) := by
  intro t ht
  induction t with
  | nil => simp [afterSlash] at ht
  | cons c t ih =>
    rw [afterSlash, Option.isSome_or, Bool.or_eq_true] at ht
    rcases ht with ht | ht
    · split at ht
      · simp at ht
      · exact List.mem_cons_of_mem _ (ih ht)
    · split at ht
      · simp_all
      · simp at ht

theorem Slashed.takeAbove (h : Slashed next) : Slashed (takeAbove next) := by
  intro t ht
  cases t with
  | nil => exact h [] ht
  | cons c t =>
    rw [Ignore.takeAbove, Option.isSome_or, Bool.or_eq_true] at ht
    refine ht.elim (fun ht => ?_) (h _)
    split at ht
    · simp at ht
    · exact List.mem_cons_of_mem _ (slashed_afterSlash next t ht)

theorem isSome_takeAbove (h : (next t).isSome) : (takeAbove next t).isSome := by
  cases t with
  | nil => exact h
  | cons c t => rw [takeAbove, Option.isSome_or, h, Bool.or_true]

end Slashed

/-! ## Decisions -/

theorem exists_of_decides {ps : List Pattern} {path : Text} (h : decides ps path = true) :
    ∃ p ∈ ps, p.ignores = true ∧ ∃ x, p.shape.strength? (unrooted path) = some x := by
  have hhits : ∀ x, (hits ps x (unrooted path)).getLast? = some true →
      ∃ p ∈ ps, p.ignores = true ∧ ∃ x, p.shape.strength? (unrooted path) = some x := by
    intro x hx
    obtain ⟨p, hp, hi⟩ := List.mem_map.mp (List.mem_of_getLast? hx)
    obtain ⟨hmem, hs⟩ := List.mem_filter.mp hp
    exact ⟨p, hmem, hi, x, by simpa using hs⟩
  simp only [decides] at h
  rw [Option.getD_eq_iff] at h
  rcases h with h | ⟨-, h⟩
  · rcases Option.or_eq_some_iff.mp h with h | ⟨-, h⟩
    · exact hhits _ h
    · exact hhits _ h
  · exact absurd h (by decide)

theorem decides_singleton (p : Pattern) (path : Text) :
    decides [p] path = (p.ignores && (p.shape.strength? (unrooted path)).isSome) := by
  rw [decides, hits, hits]
  cases h : p.shape.strength? (unrooted path) with
  | none => simp [h]
  | some x => cases x <;> simp [h]

end Ignore

end CircuitDocs
