import Mathlib.Data.List.Forall2
import CircuitDocs.Proofs.Text.Words
import CircuitDocs.Doc.Basic

/-! # Plain text behind stars

A block whose lines stand behind stars loses the stars, the indentation before them and the marks,
and nothing else. Blanks at the ends of the lines are lost with them.
-/

namespace CircuitDocs.Comment

open Text

variable {l d t : Text} {ls ds : List Text}

/-- A line behind a star; the space after the star may be left out of an empty line. -/
inductive Starred : Text → Text → Prop where
  | spaced {indent l : Text} : blank indent = true → '\n' ∉ indent →
      Starred l (indent ++ '*' :: ' ' :: l)
  | empty {indent : Text} : blank indent = true → '\n' ∉ indent → Starred [] (indent ++ ['*'])

theorem Starred.not_blank (h : Starred l d) : blank d = false := by
  cases h <;> exact not_blank_of_mem (c := '*') (by simp) (by decide)

theorem Starred.newline_not_mem (h : Starred l d) (hl : '\n' ∉ l) : '\n' ∉ d := by
  cases h <;> simp_all

theorem Starred.trimLeft_cases (h : Starred l d) :
    trimLeft d = '*' :: ' ' :: l ∨ trimLeft d = ['*'] ∧ l = [] := by
  cases h with
  | spaced hi _ =>
    rw [trimLeft_append_blank hi, trimLeft_cons (by decide)]
    exact Or.inl rfl
  | empty hi _ =>
    rw [trimLeft_append_blank hi, trimLeft_cons (by decide)]
    exact Or.inr ⟨rfl, rfl⟩

theorem Starred.exists_trimLeft_eq (h : Starred l d) : ∃ t, trimLeft d = '*' :: t := by
  rcases h.trimLeft_cases with hd | ⟨hd, -⟩
  · exact ⟨_, hd⟩
  · exact ⟨_, hd⟩

/-! ## Lines that lost blanks at their ends -/

/-- The second text is the first without some of the blanks at its ends. -/
def Shorn (d t : Text) : Prop :=
  ∃ a b, blank a = true ∧ blank b = true ∧ d = a ++ (t ++ b)

theorem shorn_refl (d : Text) : Shorn d d := ⟨[], [], rfl, rfl, by simp⟩

theorem shorn_trimLeft (d : Text) : Shorn d (trimLeft d) := by
  obtain ⟨a, ha, hd⟩ := exists_blank_append_trimLeft d
  exact ⟨a, [], ha, rfl, by rwa [List.append_nil]⟩

theorem shorn_trimRight (d : Text) : Shorn d (trimRight d) := by
  obtain ⟨b, hb, hd⟩ := exists_trimRight_append_blank d
  exact ⟨[], b, rfl, hb, hd⟩

theorem shorn_trim (d : Text) : Shorn d (trim d) := by
  obtain ⟨a, ha, hd⟩ := exists_blank_append_trimLeft d
  obtain ⟨b, hb, ht⟩ := exists_trimRight_append_blank (trimLeft d)
  exact ⟨a, b, ha, hb, by rw [trim, ← ht, ← hd]⟩

theorem shorn_lines_trim (hne : ds ≠ []) (hb : ∀ d ∈ ds, blank d = false)
    (hn : ∀ d ∈ ds, '\n' ∉ d) : List.Forall₂ Shorn ds (lines (trim (unlines ds))) := by
  have hsub : ∀ {d t : Text}, Shorn d t → '\n' ∉ d → '\n' ∉ t := by
    rintro d t ⟨a, b, -, -, rfl⟩ h
    simp_all
  obtain ⟨first, rest, rfl⟩ := List.exists_cons_of_ne_nil hne
  rcases List.eq_nil_or_concat' rest with rfl | ⟨mid, last, rfl⟩
  · have h := hsub (shorn_trim first) (hn first (by simp))
    rw [unlines_singleton, lines, List.splitOn_eq_singleton h]
    exact .cons (shorn_trim first) .nil
  · have hlast := hb last (by simp)
    have ht : trim (unlines (first :: (mid ++ [last]))) =
        unlines (trimLeft first :: (mid ++ [trimRight last])) := by
      rw [unlines_cons_concat, unlines_cons_concat, trim, trimLeft_append (hb first (by simp)),
        trimRight_append (by simp [hlast]), trimRight_append (by simp [hlast]),
        ← List.singleton_append, trimRight_append hlast, List.singleton_append]
    rw [ht, lines_unlines (by simp)]
    · refine .cons (shorn_trimLeft first) ?_
      exact List.rel_append (List.forall₂_same.mpr fun d _ => shorn_refl d)
        (.cons (shorn_trimRight last) .nil)
    · intro d hd
      rcases List.mem_cons.mp hd with rfl | hd
      · exact hsub (shorn_trimLeft first) (hn first (by simp))
      · rcases List.mem_append.mp hd with hd | hd
        · exact hn d (by simp [hd])
        · rw [List.mem_singleton.mp hd]
          exact hsub (shorn_trimRight last) (hn last (by simp))

theorem Starred.trimRight_bare (h : Starred l d) (hs : Shorn d t) :
    trimRight (bare t) = trimRight l := by
  obtain ⟨a, b, ha, hb, rfl⟩ := hs
  have ht : blank t = false := by
    have := h.not_blank
    simp_all
  have hbare : trimLeft t ++ b = '*' :: ' ' :: l ∨ trimLeft t ++ b = ['*'] ∧ l = [] := by
    rw [← trimLeft_append ht, ← trimLeft_append_blank ha]
    exact h.trimLeft_cases
  have hne : trimLeft t ≠ [] := by
    rw [ne_eq, trimLeft_eq_nil_iff, ht]
    decide
  obtain ⟨c, u, hu⟩ := List.exists_cons_of_ne_nil hne
  rw [hu] at hbare
  cases u with
  | nil =>
    rcases hbare with hbare | ⟨hbare, rfl⟩
    · obtain ⟨rfl, rfl⟩ := List.cons.inj hbare
      rw [bare, hu]
      simp only [blank_cons, Bool.and_eq_true] at hb
      rw [trimRight_blank (t := l) hb.2]
      rfl
    · obtain ⟨rfl, -⟩ := List.cons.inj hbare
      rw [bare, hu]
      rfl
  | cons c' u =>
    rcases hbare with hbare | ⟨hbare, rfl⟩
    · simp only [List.cons_append, List.cons.injEq] at hbare
      obtain ⟨rfl, rfl, rfl⟩ := hbare
      rw [bare, hu, trimRight_append_blank hb]
      rfl
    · simp at hbare

/-! ## Whole blocks -/

def block (inner : List Text) : List Text := opening :: (inner ++ [' ' :: closing])

def star : Text → Text
  | [] => " *".toList
  | c :: l => " * ".toList ++ c :: l

theorem starred_star (l : Text) : Starred l (star l) := by
  cases l with
  | nil => exact @Starred.empty [' '] (by decide) (by decide)
  | cons c l => exact @Starred.spaced [' '] (c :: l) (by decide) (by decide)

theorem unclosed_trimLeft (t : Text) : unclosed (trimLeft (t ++ closing)) = trim t := by
  have hbefore : ∀ u : Text, before? closing (u ++ closing) = some u := by
    intro u
    rw [before?, List.reverse_append, after?_eq_some_iff.mpr rfl, Option.map_some,
      List.reverse_reverse]
  cases h : blank t with
  | true =>
    rw [trimLeft_append_blank h, show trimLeft closing = [] ++ closing from rfl, unclosed, hbefore,
      trim, trimLeft_eq_nil_iff.mpr h]
  | false => rw [trimLeft_append h, unclosed, hbefore, trim]

theorem forall_starred (h : List.Forall₂ Starred ls ds) (hls : ∀ l ∈ ls, '\n' ∉ l) :
    ∀ d ∈ ds, blank d = false ∧ '\n' ∉ d := by
  induction h with
  | nil => simp
  | cons hd _ ih =>
    intro d' hd'
    rcases List.mem_cons.mp hd' with rfl | hd'
    · exact ⟨hd.not_blank, hd.newline_not_mem (hls _ (by simp))⟩
    · exact ih (fun l hl => hls l (by simp [hl])) d' hd'

theorem map_trimRight_bare {ts : List Text} (h : List.Forall₂ Starred ls ds)
    (hs : List.Forall₂ Shorn ds ts) : (ts.map bare).map trimRight = ls.map trimRight := by
  induction h generalizing ts with
  | nil =>
    cases hs
    rfl
  | cons hd _ ih =>
    cases hs with
    | cons ht hs =>
      rw [List.map_cons, List.map_cons, List.map_cons, hd.trimRight_bare ht, ih hs]

theorem plain_of_starred {front back indent : Text} (hf : blank front = true)
    (hb : blank back = true) (hi : blank indent = true) (hls : ∀ l ∈ ls, '\n' ∉ l)
    (h : List.Forall₂ Starred ls ds) :
    plain (front ++ (unlines (opening :: (ds ++ [indent ++ closing])) ++ back)) = tidy ls := by
  have hds := forall_starred h hls
  have htrim : trim (front ++ (unlines (opening :: (ds ++ [indent ++ closing])) ++ back)) =
      opening ++ ((ds.flatMap ('\n' :: ·) ++ '\n' :: indent) ++ closing) := by
    have he : unlines (opening :: (ds ++ [indent ++ closing])) =
        opening ++ ((ds.flatMap ('\n' :: ·) ++ '\n' :: indent) ++ closing) := by
      rw [unlines_cons_concat]
      simp
    rw [trim_blank_append hf, trim_append_blank hb, he]
    refine trim_eq_self (trimLeft_cons (by decide)) ?_
    rw [show closing = ['*'] ++ ['/'] from rfl, ← List.append_assoc, ← List.append_assoc,
      trimRight_concat (by decide)]
  have hbody : trim (ds.flatMap ('\n' :: ·) ++ '\n' :: indent) = trim (unlines ds) := by
    rw [trim_append_blank (by simpa [hi] using (by decide))]
    cases ds with
    | nil => rfl
    | cons d ds =>
      rw [flatMap_cons_eq '\n' (by simp), ← List.singleton_append, trim_blank_append (by decide),
        unlines]
  rw [plain, htrim, after?_eq_some_iff.mpr rfl]
  simp only [unclosed_trimLeft, hbody]
  cases h with
  | nil => rfl
  | @cons l d ls ds hd h =>
    have hs := shorn_lines_trim (List.cons_ne_nil d ds) (fun d hd => (hds d hd).1)
      fun d hd => (hds d hd).2
    rw [tidy, map_trimRight_bare (.cons hd h) hs, tidy]

theorem trim_unlines_block (inner : List Text) :
    trim (unlines (block inner)) = unlines (block inner) := by
  have he : unlines (block inner) =
      ("/**".toList ++ inner.flatMap ('\n' :: ·) ++ "\n *".toList) ++ ['/'] := by
    rw [block, unlines_cons_concat]
    simp [opening, closing]
  refine trim_eq_self ?_ ?_
  · rw [he]
    exact trimLeft_cons (by decide)
  · rw [he, trimRight_concat (by decide)]

theorem plain_block (hls : ∀ l ∈ ls, '\n' ∉ l) :
    plain (unlines (block (ls.map star))) = tidy ls := by
  have h : List.Forall₂ Starred ls (ls.map star) := by
    rw [List.forall₂_map_right_iff]
    exact List.forall₂_same.mpr fun l _ => starred_star l
  have hp := plain_of_starred blank_nil blank_nil (show blank [' '] = true by decide) hls h
  rwa [List.append_nil] at hp

end CircuitDocs.Comment
