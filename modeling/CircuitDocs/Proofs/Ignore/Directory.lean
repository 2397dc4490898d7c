import CircuitDocs.Disk.Discovery
import CircuitDocs.Proofs.Disk.Path
import CircuitDocs.Proofs.Ignore.Match

/-! # Decisions about directories

A directory is looked up with a slash behind its path and without one. What matches the path alone
matches it with the slash as well, so the two look-ups part only over directories that a negated
pattern takes back: these are left to the look-up without the slash.
-/

namespace CircuitDocs.Ignore

variable {next : Text → Option Strength} {ps : List Pattern} {t : Text}

/-! ## A slash behind a path -/

/-- Whether what matches a path also matches it with a slash behind it. A line feed at the end of
the path is left aside: the path may end before it, and not before the slash. -/
def Widens (next : Text → Option Strength) : Prop :=
  ∀ t : Text, t.getLast? ≠ some '\n' → (next t).isSome → (next (t ++ ['/'])).isSome

theorem getLast?_tail_ne {c d : Char} (h : (c :: t).getLast? ≠ some d) : t.getLast? ≠ some d := by
  cases t with
  | nil => simp
  | cons e t => simpa using h

theorem Ending.widens (e : Ending) : Widens e.strength? := by
  intro t ht h
  unfold Ending.strength? at h
  split at h
  · rfl
  · rfl
  · rfl
  · rfl
  · exact absurd rfl ht
  · simp at h

theorem Widens.takeMost (hn : Widens next) (p : Char → Bool) : Widens (takeMost next p) := by
  intro t ht h
  induction t with
  | nil =>
    have hslash := hn [] ht h
    rw [List.nil_append] at hslash ⊢
    rw [Ignore.takeMost]
    split
    · rw [Option.isSome_or, hslash, Bool.or_true]
    · exact hslash
  | cons c t ih =>
    have hnext := hn (c :: t) ht
    rw [List.cons_append] at hnext ⊢
    rw [Ignore.takeMost] at h ⊢
    by_cases hc : p c = true
    · rw [if_pos hc, Option.isSome_or, Bool.or_eq_true] at h ⊢
      exact h.imp (ih (getLast?_tail_ne ht)) hnext
    · rw [if_neg hc] at h ⊢
      exact hnext h

theorem Widens.takeOne (hn : Widens next) (p : Char → Bool) : Widens (takeOne next p) := by
  intro t ht h
  cases t with
  | nil => simp [Ignore.takeOne] at h
  | cons c t =>
    rw [List.cons_append]
    rw [Ignore.takeOne] at h ⊢
    by_cases hc : p c = true
    · rw [if_pos hc] at h ⊢
      exact hn t (getLast?_tail_ne ht) h
    · simp [hc] at h

theorem Widens.afterSlash (hn : Widens next) : Widens (afterSlash next) := by
  intro t ht h
  induction t with
  | nil => simp [Ignore.afterSlash] at h
  | cons c t ih =>
    have ht' := getLast?_tail_ne ht
    rw [List.cons_append]
    rw [Ignore.afterSlash, Option.isSome_or, Bool.or_eq_true] at h ⊢
    refine h.imp ?_ ?_
    · split
      · exact id
      · exact ih ht'
    · split
      · exact hn t ht'
      · exact id

theorem Widens.takeAbove (hn : Widens next) : Widens (takeAbove next) := by
  intro t ht h
  cases t with
  | nil =>
    rw [List.nil_append, Ignore.takeAbove, Option.isSome_or, Bool.or_eq_true]
    exact Or.inr (hn [] ht h)
  | cons c t =>
    have hnext := hn (c :: t) ht
    rw [List.cons_append] at hnext ⊢
    rw [Ignore.takeAbove, Option.isSome_or, Bool.or_eq_true] at h ⊢
    refine h.imp ?_ hnext
    split
    · exact id
    · exact hn.afterSlash t (getLast?_tail_ne ht)

theorem Widens.takeBetween (hn : Widens next) : Widens (takeBetween next) := by
  intro t ht h
  have hnext := hn t ht
  unfold Ignore.takeBetween at h
  split at h
  · rename_i c t
    rw [Option.isSome_or, Bool.or_eq_true] at h
    rw [List.cons_append, List.cons_append] at hnext ⊢
    rw [Ignore.takeBetween, Option.isSome_or, Bool.or_eq_true]
    refine h.imp ?_ hnext
    split
    · exact id
    · exact hn.takeMost _ t (getLast?_tail_ne (getLast?_tail_ne ht))
  · unfold Ignore.takeBetween
    split
    · rename_i c u he
      rw [Option.isSome_or, Bool.or_eq_true, ← he]
      exact Or.inr (hnext h)
    · exact hnext h

theorem Step.widens (s : Step) (hn : Widens next) : Widens (s.take next) := by
  cases s with
  | token token =>
    cases token with
    | anyRun => exact hn.takeMost _
    | exact c => exact hn.takeOne _
    | anyOne => exact hn.takeOne _
    | oneOf negated ranges => exact hn.takeOne _
  | someName => exact (hn.takeMost _).takeOne _
  | slash => exact hn.takeOne _
  | directoriesAbove => exact hn.takeAbove
  | directoriesBetween => exact hn.takeBetween

theorem widens_strengthFrom? (e : Ending) (ss : List Step) : Widens (strengthFrom? e ss) := by
  induction ss with
  | nil => exact e.widens
  | cons s ss ih => exact s.widens ih

theorem Shape.widens (shape : Shape) : Widens shape.strength? := by
  cases shape with
  | anything =>
    intro t _ h
    simp only [strength?] at h ⊢
    split at h
    · simp_all
    · simp at h
  | anySlash directory =>
    intro t _ _
    simp [strength?]
  | steps ss e => exact widens_strengthFrom? e ss

/-! ## The last word -/

/-- What the pattern that has the last word says about a path, if any pattern matches it. -/
def lastWord? (ps : List Pattern) (path : Text) : Option Bool :=
  (hits ps .strong (unrooted path)).getLast?.or (hits ps .weak (unrooted path)).getLast?

theorem decides_eq_getD (ps : List Pattern) (path : Text) :
    decides ps path = (lastWord? ps path).getD false := rfl

theorem lastWord?_eq_none_iff {path : Text} :
    lastWord? ps path = none ↔ ∀ p ∈ ps, p.shape.strength? (unrooted path) = none := by
  simp only [lastWord?, Option.or_eq_none_iff, List.getLast?_eq_none_iff, hits,
    List.map_eq_nil_iff, List.filter_eq_nil_iff, decide_eq_true_eq]
  constructor
  · rintro ⟨hstrong, hweak⟩ p hp
    cases hs : p.shape.strength? (unrooted path) with
    | none => rfl
    | some x =>
      cases x with
      | strong => exact absurd hs (hstrong p hp)
      | weak => exact absurd hs (hweak p hp)
  · intro h
    constructor
    · intro p hp
      simp [h p hp]
    · intro p hp
      simp [h p hp]

/-- The path of something below the root, written without slashes at its ends. The root itself and
names that end in a line feed are left aside. -/
structure IsRelative (t : Text) : Prop where
  ne_nil : t ≠ []
  ne_dot : t ≠ ['.']
  front : t.head? ≠ some '/'
  back : t.getLast? ≠ some '/'
  unbroken : t.getLast? ≠ some '\n'

theorem unrooted_eq_self (hslash : t.head? ≠ some '/') (hdot : ∀ u, t ≠ '.' :: '/' :: u) :
    unrooted t = t := by
  unfold unrooted
  split
  · exact absurd rfl hslash
  · exact absurd rfl (hdot _)
  · rfl

theorem IsRelative.unrooted_append (ht : IsRelative t) :
    unrooted (t ++ ['/']) = unrooted t ++ ['/'] ∧ (unrooted t).getLast? ≠ some '\n' := by
  obtain ⟨c, t, rfl⟩ := List.exists_cons_of_ne_nil ht.ne_nil
  by_cases hdot : ∃ u, c :: t = '.' :: '/' :: u
  · obtain ⟨u, hu⟩ := hdot
    rw [hu] at ht ⊢
    exact ⟨rfl, getLast?_tail_ne (getLast?_tail_ne ht.unbroken)⟩
  · have hdot' : ∀ u, (c :: t) ++ ['/'] ≠ '.' :: '/' :: u := by
      intro u hu
      cases t with
      | nil => exact ht.ne_dot (by simp_all)
      | cons d t => exact hdot ⟨t, by simp_all⟩
    rw [unrooted_eq_self ht.front fun u hu => hdot ⟨u, hu⟩,
      unrooted_eq_self (t := c :: t ++ ['/']) ht.front hdot']
    exact ⟨rfl, ht.unbroken⟩

theorem decides_eq_false_of_lastWord? (ht : IsRelative t) (h : lastWord? ps (t ++ ['/']) = none) :
    decides ps t = false := by
  obtain ⟨hroot, hline⟩ := ht.unrooted_append
  rw [lastWord?_eq_none_iff, hroot] at h
  have hnone : lastWord? ps t = none := by
    rw [lastWord?_eq_none_iff]
    intro p hp
    by_contra hne
    have hsome := p.shape.widens _ hline (Option.isSome_iff_ne_none.mpr hne)
    rw [h p hp] at hsome
    simp at hsome
  rw [decides_eq_getD, hnone, Option.getD_none]

/-- A directory that no negated pattern takes back is ignored exactly when the last pattern that
matches it as a directory says so. One that is taken back is ignored when it would be as a file. -/
theorem ignored_directory (ps : List Pattern) (ht : IsRelative t) :
    (lastWord? ps (t ++ ['/']) ≠ some false → ignored ps t true = decides ps (t ++ ['/'])) ∧
      (lastWord? ps (t ++ ['/']) = some false → ignored ps t true = decides ps t) := by
  have hignored : ignored ps t true = (decides ps t || decides ps (t ++ ['/'])) := by
    simp [ignored, unslashed_eq_self ht.front ht.back, ht.ne_nil]
  rw [hignored, decides_eq_getD ps (t ++ ['/'])]
  cases h : lastWord? ps (t ++ ['/']) with
  | none => simp [decides_eq_false_of_lastWord? ht h]
  | some ignores => cases ignores <;> simp

theorem ignored_directory_out :
    let ps : List Pattern := [⟨true, .steps ("out".toList.map Step.literal) .directory⟩,
      ⟨false, .steps ("out/k".toList.map Step.literal ++ [.token .anyRun]) .directoryOrEnd⟩]
    Pattern.ofLines ["/out/".toList, "!out/k*".toList] = .ok ps ∧
      lastWord? ps "out/a/".toList = some true ∧
      ignored ps "out/a".toList true = decides ps "out/a/".toList ∧
      lastWord? ps "out/keep/".toList = some false ∧
      ignored ps "out/keep".toList true = decides ps "out/keep".toList := by
  intro ps
  have hignored : lastWord? ps "out/a/".toList = some true := by decide +kernel
  have hkept : lastWord? ps "out/keep/".toList = some false := by decide +kernel
  refine ⟨by decide +kernel, hignored, ?_, hkept, ?_⟩
  · refine (ignored_directory ps (t := "out/a".toList) ?_).1 (by decide +kernel)
    exact ⟨by decide, by decide, by decide, by decide, by decide⟩
  · refine (ignored_directory ps (t := "out/keep".toList) ?_).2 hkept
    exact ⟨by decide, by decide, by decide, by decide, by decide⟩

def clearing : Disk where
  root := .file ignoreFileName (Utf8.encode "gen\n!*/\n".toList)
    (.folder "gen".toList (.file "a.compact".toList [] .empty) .empty)

/-- The last pattern that matches the directory takes it back, but it is ignored as a file would be,
and the source file in it is not found. -/
theorem ignored_of_taken_back :
    let ps : List Pattern := [⟨true, .steps (.directoriesAbove :: "gen".toList.map Step.literal)
      .directoryOrEnd⟩, ⟨false, .anySlash true⟩]
    clearing.patterns (.absolute []) = .ok (.ok ps) ∧
      lastWord? ps "gen/".toList = some false ∧ decides ps "gen/".toList = false ∧
      ignored ps "gen".toList true = true ∧ clearing.discover true (.absolute []) = .ok [] := by
  decide +kernel

end CircuitDocs.Ignore
