import Mathlib.Data.List.Chain
import CircuitDocs.Proofs.Text.Words

/-! # Collapsed text

Collapsed text has no blanks but single spaces between words. Collapsing keeps the words of a text,
and a reader that passes over blanks between two marks, however many there are, cannot tell apart
two texts with the same words.
-/

namespace CircuitDocs.Text

variable {t u v w : Text} {ws : List Text} {c : Char}

/-! ## The first word of a text -/

def Begins (t : Text) : Prop := ∃ c r, t = c :: r ∧ isBlank c = false

theorem begins_cons : Begins (c :: t) ↔ isBlank c = false := by
  constructor
  · rintro ⟨d, r, h, hd⟩
    obtain ⟨rfl, -⟩ := List.cons.inj h
    exact hd
  · exact fun hc => ⟨c, t, rfl, hc⟩

theorem not_begins_nil : ¬ Begins [] := by
  rintro ⟨c, r, h, -⟩
  contradiction

theorem begins_trimLeft_iff : Begins (trimLeft t) ↔ words t ≠ [] := by
  rw [ne_eq, words_eq_nil_iff, ← trimLeft_eq_nil_iff]
  have hhead := trimLeft_eq_self_iff.mp (trimLeft_trimLeft (t := t))
  cases ht : trimLeft t with
  | nil => simp [not_begins_nil]
  | cons c r =>
    rw [ht] at hhead
    simp [begins_cons, hhead c rfl]

theorem split_of_not_begins {p : Char → Bool} (hp : ∀ c, p c = true → isBlank c = false)
    (ht : ¬ Begins t) : t.takeWhile p = [] ∧ t.dropWhile p = t := by
  cases t with
  | nil => exact ⟨rfl, rfl⟩
  | cons c t =>
    have hc : ¬ p c = true := fun hc => ht (begins_cons.mpr (hp c hc))
    exact ⟨List.takeWhile_cons_of_neg hc, List.dropWhile_cons_of_neg hc⟩

def leading (t : Text) : Text := t.takeWhile fun c => !isBlank c

def trailing (t : Text) : Text := t.dropWhile fun c => !isBlank c

theorem leading_append_trailing (t : Text) : leading t ++ trailing t = t :=
  List.takeWhile_append_dropWhile

theorem leading_cons (hc : isBlank c = false) : leading (c :: t) = c :: leading t := by
  rw [leading, List.takeWhile_cons_of_pos (by simp [hc]), leading]

theorem trailing_cons (hc : isBlank c = false) : trailing (c :: t) = trailing t := by
  rw [trailing, List.dropWhile_cons_of_pos (by simp [hc]), trailing]

theorem begins_iff : Begins t ↔ leading t ≠ [] := by
  cases t with
  | nil => simp [not_begins_nil, leading]
  | cons c t => cases hc : isBlank c <;> simp [begins_cons, leading, hc]

theorem words_eq_leading (t : Text) :
    words t = if leading t = [] then words (trailing t) else leading t :: words (trailing t) := by
  conv_lhs => rw [← leading_append_trailing t]
  split
  · rename_i h
    rw [h, List.nil_append]
  · rename_i h
    have hword : words (leading t) = [leading t] :=
      words_singleton ⟨h, fun c hc => by simpa using List.mem_takeWhile_imp hc⟩
    cases ht : trailing t with
    | nil => rw [List.append_nil, hword, words_nil]
    | cons d r =>
      have hd : isBlank d = true := by
        have := List.head?_dropWhile_not (fun c => !isBlank c) t
        rw [← trailing, ht] at this
        simpa using this
      rw [words_append_cons hd, hword, words_cons_blank hd, List.singleton_append]

theorem words_cons (hc : isBlank c = false) (t : Text) :
    words (c :: t) = (c :: leading t) :: words (trailing t) := by
  rw [words_eq_leading, leading_cons hc, trailing_cons hc, if_neg (by simp)]

/-! ## Collapsed text -/

structure Trimmed (t : Text) : Prop where
  head : ∀ c ∈ t.head?, isBlank c = false
  last : ∀ c ∈ t.getLast?, isBlank c = false

/-- Text whose blanks are single spaces between words. -/
structure Collapsed (t : Text) : Prop extends Trimmed t where
  space : ∀ c ∈ t, isBlank c = true → c = ' '
  single : t.IsChain fun c d => isBlank c = false ∨ isBlank d = false

structure Filled (t : Text) : Prop extends Collapsed t where
  ne_nil : t ≠ []

theorem trimmed_trim (t : Text) : Trimmed (trim t) where
  head := trimLeft_eq_self_iff.mp trimLeft_trim
  last := trimRight_eq_self_iff.mp trimRight_trim

theorem exists_intercalate_cons (w : Text) (ws : List Text) :
    ∃ v, [' '].intercalate (w :: ws) = w ++ v := by
  cases ws with
  | nil => exact ⟨[], by simp⟩
  | cons w' ws => exact ⟨_, by rw [List.intercalate_cons_cons, List.append_assoc]⟩

theorem head?_collapse (t : Text) : (collapse t).head? = (trimLeft t).head? := by
  cases ht : trimLeft t with
  | nil =>
    have hb := words_blank (trimLeft_eq_nil_iff.mp ht)
    rw [collapse_eq_nil_iff.mpr hb]
  | cons c r =>
    have hc : isBlank c = false := by
      have hhead := trimLeft_eq_self_iff.mp (trimLeft_trimLeft (t := t))
      exact hhead c (by simp [ht])
    obtain ⟨v, hv⟩ := exists_intercalate_cons (c :: leading r) (words (trailing r))
    rw [collapse, ← words_trimLeft, ht, words_cons hc, hv]
    rfl

theorem isChain_intercalate (hws : ∀ w ∈ ws, IsWordText w) :
    ([' '].intercalate ws).IsChain fun c d => isBlank c = false ∨ isBlank d = false := by
  have hword : ∀ w ∈ ws, w.IsChain fun c d => isBlank c = false ∨ isBlank d = false := by
    intro w hw
    rw [List.isChain_iff_forall_rel_of_append_cons_cons]
    rintro c d u v rfl
    exact Or.inl ((hws _ hw).not_blank c (by simp))
  induction ws with
  | nil => exact .nil
  | cons w ws ih =>
    rw [List.forall_mem_cons] at hws hword
    cases ws with
    | nil =>
      rw [List.intercalate_singleton]
      exact hword.1
    | cons w' ws =>
      obtain ⟨c, r, rfl⟩ := List.exists_cons_of_ne_nil (hws.2 w' (by simp)).ne_nil
      have hc := (hws.2 (c :: r) (by simp)).not_blank c (by simp)
      obtain ⟨v, hv⟩ := exists_intercalate_cons (c :: r) ws
      have htail := (ih hws.2 hword.2).cons (x := ' ') (by simpa [hv] using Or.inr hc)
      rw [List.intercalate_cons_cons, List.append_assoc]
      refine hword.1.append htail fun d hd e _ => Or.inl ?_
      exact hws.1.not_blank d (List.mem_of_getLast? hd)

theorem collapsed_collapse (t : Text) : Collapsed (collapse t) where
  head := by
    rw [head?_collapse]
    exact trimLeft_eq_self_iff.mp trimLeft_trimLeft
  last := trimRight_eq_self_iff.mp trimRight_collapse
  space c hc hb := (mem_collapse hc).resolve_right (by simp [hb])
  single := isChain_intercalate fun _ => isWordText_of_mem_words

theorem Collapsed.of_isPrefix (h : Collapsed t) (hu : u <+: t) (hlast : trimRight u = u) :
    Collapsed u where
  head c hc := by
    obtain ⟨v, rfl⟩ := hu
    exact h.head c (by rw [List.head?_append, hc]; rfl)
  last := trimRight_eq_self_iff.mp hlast
  space c hc := h.space c (hu.subset hc)
  single := by
    obtain ⟨v, rfl⟩ := hu
    exact h.single.left_of_append

theorem mem_of_mem_collapse (h : c ∈ collapse t) : c = ' ' ∨ c ∈ t := by
  rw [or_iff_not_imp_left]
  intro hc
  obtain ⟨w, hw, hm⟩ : ∃ w ∈ words t, c ∈ w := by
    cases hws : words t with
    | nil => simp [collapse, hws] at h
    | cons w ws =>
      have hmem : c ∈ (w :: ws).flatMap (' ' :: ·) := by
        rw [flatMap_cons_eq _ (by simp), ← hws]
        exact List.mem_cons_of_mem _ h
      obtain ⟨w', hw', hm⟩ := List.mem_flatMap.mp hmem
      exact ⟨w', hw', (List.mem_cons.mp hm).resolve_left hc⟩
  exact mem_of_mem_words hw hm

/-! ## Texts with the same words -/

/-- The texts have the same words, and both begin with the first of them or both do not. -/
structure Respaced (u v : Text) : Prop where
  words_eq : words u = words v
  begins_iff : Begins u ↔ Begins v

theorem respaced_trimLeft (h : words u = words v) : Respaced (trimLeft u) (trimLeft v) where
  words_eq := by rw [words_trimLeft, words_trimLeft, h]
  begins_iff := by rw [begins_trimLeft_iff, begins_trimLeft_iff, h]

theorem respaced_trim (h : words u = words v) : Respaced (trim u) (trim v) := by
  rw [← trimLeft_trim (t := u), ← trimLeft_trim (t := v)]
  exact respaced_trimLeft (by rw [words_trim, words_trim, h])

namespace Respaced

theorem cases (h : Respaced u v) :
    (¬ Begins u ∧ ¬ Begins v) ∨
      ∃ c u' v', isBlank c = false ∧ u = c :: u' ∧ v = c :: v' ∧ Respaced u' v' := by
  by_cases hu : Begins u
  · right
    obtain ⟨d, v', rfl, hd⟩ := h.begins_iff.mp hu
    obtain ⟨c, u', rfl, hc⟩ := hu
    have hw := h.words_eq
    rw [words_cons hc, words_cons hd] at hw
    obtain ⟨hhead, hrest⟩ := List.cons.inj hw
    obtain ⟨rfl, hleading⟩ := List.cons.inj hhead
    refine ⟨c, u', v', hc, rfl, rfl, ?_, ?_⟩
    · rw [words_eq_leading u', words_eq_leading v', hleading, hrest]
    · rw [Text.begins_iff, Text.begins_iff, hleading]
  · exact Or.inl ⟨hu, fun hv => hu (h.begins_iff.mpr hv)⟩

theorem after? {w : Text} (hw : ∀ c ∈ w, isBlank c = false) (h : Respaced u v) :
    Option.Rel Respaced (after? w u) (after? w v) := by
  induction w generalizing u v with
  | nil => exact .some h
  | cons c w ih =>
    rw [List.forall_mem_cons] at hw
    have hnone : ∀ {t : Text}, ¬ Begins t → Text.after? (c :: w) t = none := by
      intro t ht
      cases t with
      | nil => rfl
      | cons d t =>
        have hne : c ≠ d := by
          rintro rfl
          exact ht (begins_cons.mpr hw.1)
        rw [Text.after?, if_neg hne]
    rcases h.cases with ⟨hu, hv⟩ | ⟨d, u', v', -, rfl, rfl, h'⟩
    · rw [hnone hu, hnone hv]
      exact .none
    · rw [Text.after?, Text.after?]
      split
      · exact ih hw.2 h'
      · exact .none

variable {p : Char → Bool}

theorem takeWhile_eq (hp : ∀ c, p c = true → isBlank c = false) (h : Respaced u v) :
    u.takeWhile p = v.takeWhile p := by
  induction u generalizing v with
  | nil =>
    have hv : ¬ Begins v := fun hv => not_begins_nil (h.begins_iff.mpr hv)
    rw [(split_of_not_begins hp hv).1, List.takeWhile_nil]
  | cons c u ih =>
    rcases h.cases with ⟨hu, hv⟩ | ⟨d, u', v', -, hu, rfl, h'⟩
    · rw [(split_of_not_begins hp hu).1, (split_of_not_begins hp hv).1]
    · obtain ⟨rfl, rfl⟩ := List.cons.inj hu
      rw [List.takeWhile_cons, List.takeWhile_cons, ih h']

theorem dropWhile (hp : ∀ c, p c = true → isBlank c = false) (h : Respaced u v) :
    Respaced (u.dropWhile p) (v.dropWhile p) := by
  induction u generalizing v with
  | nil =>
    have hv : ¬ Begins v := fun hv => not_begins_nil (h.begins_iff.mpr hv)
    rwa [(split_of_not_begins hp hv).2, List.dropWhile_nil]
  | cons c u ih =>
    rcases h.cases with ⟨hu, hv⟩ | ⟨d, u', v', -, hu, rfl, h'⟩
    · rwa [(split_of_not_begins hp hu).2, (split_of_not_begins hp hv).2]
    · obtain ⟨rfl, rfl⟩ := List.cons.inj hu
      rw [List.dropWhile_cons, List.dropWhile_cons]
      split
      · exact ih h'
      · exact h

end Respaced

end CircuitDocs.Text
