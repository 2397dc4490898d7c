import CircuitDocs.Proofs.Text.Collapsed
import CircuitDocs.Proofs.Text.Padded
import CircuitDocs.Rules.CircuitInfo

/-! # The form of circuit information

A text passes the check exactly if it reads `k=<number>, rows=<number>`, with any blanks around the
marks and at the ends. The readers only ever pass over blanks between two marks, so collapsing the
text first does not change the outcome.
-/

namespace CircuitDocs.CircuitInfo

open Text

variable {n t u v w r : Text}

/-! ## Numbers -/

structure IsNumber (n : Text) : Prop where
  ne_nil : n ≠ []
  all : ∀ c ∈ n, isDigit c = true

instance (n : Text) : Decidable (IsNumber n) :=
  decidable_of_iff (n ≠ [] ∧ n.all isDigit = true)
    ⟨fun h => ⟨h.1, List.all_eq_true.mp h.2⟩, fun h => ⟨h.1, List.all_eq_true.mpr h.2⟩⟩

theorem IsNumber.not_blank (hn : IsNumber n) {c : Char} (hc : c ∈ n) : isBlank c = false :=
  isBlank_of_isDigit (hn.all c hc)

theorem IsNumber.trimLeft_append (hn : IsNumber n) (t : Text) : trimLeft (n ++ t) = n ++ t := by
  obtain ⟨c, u, rfl⟩ := List.exists_cons_of_ne_nil hn.ne_nil
  exact trimLeft_cons (hn.not_blank (by simp))

theorem IsNumber.trimRight_append (hn : IsNumber n) (t : Text) : trimRight (t ++ n) = t ++ n := by
  obtain ⟨u, c, rfl⟩ := (List.eq_nil_or_concat' n).resolve_left hn.ne_nil
  rw [← List.append_assoc, trimRight_concat (hn.not_blank (by simp))]

def NumberEnds (t : Text) : Prop := ∀ c ∈ t.head?, isDigit c = false

theorem numberEnds_of_blank {b : Text} (hb : blank b = true) (ht : NumberEnds t) :
    NumberEnds (b ++ t) := by
  cases b with
  | nil => exact ht
  | cons c b =>
    intro d hd
    obtain rfl : c = d := by simpa using hd
    simp only [blank_cons, Bool.and_eq_true] at hb
    by_contra hdigit
    rw [isBlank_of_isDigit (by simpa using hdigit)] at hb
    exact absurd hb.1 (by decide)

/-! ## What the readers accept -/

theorem afterWord?_eq_some_iff :
    afterWord? w t = some r ↔ trimLeft r = r ∧ ∃ b, blank b = true ∧ t = w ++ (b ++ r) := by
  rw [afterWord?, Option.map_eq_some_iff]
  constructor
  · rintro ⟨s, hs, rfl⟩
    obtain ⟨b, hb, he⟩ := exists_blank_append_trimLeft s
    exact ⟨trimLeft_trimLeft, b, hb, by rw [← he, after?_eq_some_iff.mp hs]⟩
  · rintro ⟨hr, b, hb, rfl⟩
    exact ⟨b ++ r, after?_eq_some_iff.mpr rfl, by rw [trimLeft_append_blank hb, hr]⟩

theorem afterNumber?_eq_some_iff :
    afterNumber? t = some r ↔ trimLeft r = r ∧
      ∃ n b, IsNumber n ∧ blank b = true ∧ NumberEnds (b ++ r) ∧ t = n ++ (b ++ r) := by
  simp only [afterNumber?, Option.ite_none_left_eq_some, Option.some.injEq, List.isEmpty_iff]
  constructor
  · rintro ⟨hne, rfl⟩
    obtain ⟨b, hb, he⟩ := exists_blank_append_trimLeft (t.dropWhile isDigit)
    refine ⟨trimLeft_trimLeft, t.takeWhile isDigit, b, ⟨hne, fun c => List.mem_takeWhile_imp⟩, hb,
      ?_, by rw [← he, List.takeWhile_append_dropWhile]⟩
    rw [← he]
    intro c hc
    have := List.head?_dropWhile_not isDigit t
    rw [hc] at this
    exact this
  · rintro ⟨hr, n, b, hn, hb, hends, rfl⟩
    have htake : (b ++ r).takeWhile isDigit = [] := by
      cases h : b ++ r with
      | nil => rfl
      | cons c s => exact List.takeWhile_cons_of_neg (by simp [hends c (by simp [h])])
    have hdrop : (b ++ r).dropWhile isDigit = b ++ r := by
      have h := List.takeWhile_append_dropWhile (p := isDigit) (l := b ++ r)
      rwa [htake] at h
    rw [List.takeWhile_append_of_pos hn.all, List.dropWhile_append_of_pos hn.all, htake, hdrop,
      List.append_nil, trimLeft_append_blank hb]
    exact ⟨hn.ne_nil, hr⟩

/-- A word, an equals sign and a number, with blanks allowed between them. -/
inductive Setting (w : Text) : Text → Prop where
  | mk {b b' n : Text} (hb : blank b = true) (hb' : blank b' = true) (hn : IsNumber n) :
      Setting w (w ++ (b ++ '=' :: (b' ++ n)))

theorem Setting.trimRight_append {s : Text} (hs : Setting w s) (t : Text) :
    trimRight (t ++ s) = t ++ s := by
  obtain ⟨hb, hb', hn⟩ := hs
  rename_i b b' n
  have h := hn.trimRight_append (t ++ (w ++ (b ++ '=' :: b')))
  simpa using h

theorem afterSetting?_eq_some_iff :
    afterSetting? w t = some r ↔ trimLeft r = r ∧
      ∃ s b, Setting w s ∧ blank b = true ∧ NumberEnds (b ++ r) ∧ t = s ++ (b ++ r) := by
  constructor
  · intro h
    unfold afterSetting? at h
    split at h
    · rename_i t₁ h₁
      split at h
      · rename_i t₂ h₂
        obtain ⟨-, b₁, hb₁, rfl⟩ := afterWord?_eq_some_iff.mp h₁
        obtain ⟨-, b₂, hb₂, rfl⟩ := afterWord?_eq_some_iff.mp h₂
        obtain ⟨hr, n, b, hn, hb, hends, rfl⟩ := afterNumber?_eq_some_iff.mp h
        exact ⟨hr, _, b, .mk hb₁ hb₂ hn, hb, hends, by simp⟩
      · contradiction
    · contradiction
  · rintro ⟨hr, s, b, ⟨hb₁, hb₂, hn⟩, hb, hends, rfl⟩
    rename_i b₁ b₂ n
    have h₁ : afterWord? w (w ++ (b₁ ++ '=' :: (b₂ ++ n)) ++ (b ++ r)) =
        some ('=' :: (b₂ ++ (n ++ (b ++ r)))) :=
      afterWord?_eq_some_iff.mpr ⟨trimLeft_cons (by decide), b₁, hb₁, by simp⟩
    have h₂ : afterWord? ['='] ('=' :: (b₂ ++ (n ++ (b ++ r)))) = some (n ++ (b ++ r)) :=
      afterWord?_eq_some_iff.mpr ⟨hn.trimLeft_append _, b₂, hb₂, rfl⟩
    simp only [afterSetting?, h₁, h₂]
    exact afterNumber?_eq_some_iff.mpr ⟨hr, n, b, hn, hb, hends, rfl⟩

/-- The form that is asked for: two settings and a comma, with blanks allowed between them. -/
inductive Form : Text → Prop where
  | mk {k rows b b' : Text} (hk : Setting "k".toList k) (hb : blank b = true)
      (hb' : blank b' = true) (hrows : Setting "rows".toList rows) :
      Form (k ++ (b ++ ',' :: (b' ++ rows)))

theorem wellFormed_iff : wellFormed t = true ↔ Form (trim t) := by
  constructor
  · intro h
    unfold wellFormed at h
    split at h
    · rename_i t₁ h₁
      split at h
      · rename_i t₂ h₂
        obtain ⟨-, k, b, hk, hb, -, ht⟩ := afterSetting?_eq_some_iff.mp h₁
        obtain ⟨-, b', hb', rfl⟩ := afterWord?_eq_some_iff.mp h₂
        obtain ⟨-, rows, b₃, hrows, hb₃, -, rfl⟩ :=
          afterSetting?_eq_some_iff.mp (of_decide_eq_true h)
        have htrim : trim t = k ++ (b ++ ',' :: (b' ++ rows)) := by
          have he : trim t = (k ++ (b ++ ',' :: b') ++ rows) ++ b₃ := by
            rw [ht]
            simp
          rw [← trimRight_trim, he, trimRight_append_blank hb₃, hrows.trimRight_append]
          simp
        rw [htrim]
        exact .mk hk hb hb' hrows
      · contradiction
    · contradiction
  · intro h
    unfold wellFormed
    generalize trim t = s at h ⊢
    obtain ⟨hk, hb, hb', hrows⟩ := h
    rename_i k rows b b'
    have hcomma : NumberEnds (',' :: (b' ++ rows)) := by
      have hdigit : isDigit ',' = false := by decide
      simpa [NumberEnds] using hdigit
    have h₁ : afterSetting? "k".toList (k ++ (b ++ ',' :: (b' ++ rows))) =
        some (',' :: (b' ++ rows)) :=
      afterSetting?_eq_some_iff.mpr ⟨trimLeft_cons (by decide), k, b, hk, hb,
        numberEnds_of_blank hb hcomma, rfl⟩
    have h₂ : afterWord? [','] (',' :: (b' ++ rows)) = some rows :=
      afterWord?_eq_some_iff.mpr ⟨by cases hrows; exact trimLeft_cons (by decide), b', hb', rfl⟩
    have h₃ : afterSetting? "rows".toList rows = some [] :=
      afterSetting?_eq_some_iff.mpr ⟨rfl, rows, [], hrows, rfl, by simp [NumberEnds], by simp⟩
    simp only [h₁, h₂, h₃, decide_true]

def written (k rows : Text) : Text := "k=".toList ++ (k ++ (", rows=".toList ++ rows))

theorem wellFormed_written {k rows : Text} (hk : IsNumber k) (hr : IsNumber rows) :
    wellFormed (written k rows) = true := by
  have hform : Form (written k rows) := by
    have h := @Form.mk _ _ [] [' '] (@Setting.mk _ [] [] k rfl rfl hk) rfl (by decide)
      (@Setting.mk _ [] [] rows rfl rfl hr)
    simpa [written] using h
  have htrim : trim (written k rows) = written k rows := by
    refine trim_eq_self (trimLeft_cons (by decide)) ?_
    have h := hr.trimRight_append ("k=".toList ++ (k ++ ", rows=".toList))
    simpa [written] using h
  rw [wellFormed_iff, htrim]
  exact hform

/-! ## Collapsed texts -/

theorem rel_afterWord? (hw : IsWordText w) (h : Respaced u v) :
    Option.Rel Respaced (afterWord? w u) (afterWord? w v) := by
  rw [afterWord?, afterWord?]
  rcases rel_cases (h.after? hw.not_blank) with ⟨hu, hv⟩ | ⟨u', v', hu, hv, h'⟩
  · rw [hu, hv]
    exact .none
  · rw [hu, hv]
    exact .some (respaced_trimLeft h'.words_eq)

theorem rel_afterNumber? (h : Respaced u v) :
    Option.Rel Respaced (afterNumber? u) (afterNumber? v) := by
  have hdigit : ∀ c, isDigit c = true → isBlank c = false := fun _ => isBlank_of_isDigit
  rw [afterNumber?, afterNumber?, h.takeWhile_eq hdigit]
  split
  · exact .none
  · exact .some (respaced_trimLeft (h.dropWhile hdigit).words_eq)

theorem rel_afterSetting? (hw : IsWordText w) (h : Respaced u v) :
    Option.Rel Respaced (afterSetting? w u) (afterSetting? w v) := by
  rw [afterSetting?, afterSetting?]
  rcases rel_cases (rel_afterWord? hw h) with ⟨hu, hv⟩ | ⟨u₁, v₁, hu, hv, h₁⟩
  · rw [hu, hv]
    exact .none
  · rw [hu, hv]
    dsimp only
    rcases rel_cases (rel_afterWord? (w := ['=']) (by decide) h₁) with
      ⟨hu, hv⟩ | ⟨u₂, v₂, hu, hv, h₂⟩
    · rw [hu, hv]
      exact .none
    · rw [hu, hv]
      exact rel_afterNumber? h₂

theorem wellFormed_congr (h : words u = words v) : wellFormed u = wellFormed v := by
  have hnil : ∀ {r : Text}, trimLeft r = r → (r = [] ↔ words r = []) := by
    intro r hr
    rw [words_eq_nil_iff, ← trimLeft_eq_nil_iff, hr]
  rw [wellFormed, wellFormed]
  rcases rel_cases (rel_afterSetting? (w := "k".toList) (by decide) (respaced_trim h)) with
    ⟨hu, hv⟩ | ⟨u₁, v₁, hu, hv, h₁⟩
  · rw [hu, hv]
  · rw [hu, hv]
    dsimp only
    rcases rel_cases (rel_afterWord? (w := [',']) (by decide) h₁) with
      ⟨hu, hv⟩ | ⟨u₂, v₂, hu, hv, h₂⟩
    · rw [hu, hv]
    · rw [hu, hv]
      dsimp only
      rcases rel_cases (rel_afterSetting? (w := "rows".toList) (by decide) h₂) with
        ⟨hu, hv⟩ | ⟨u₃, v₃, hu, hv, h₃⟩
      · rw [hu, hv]
      · have hu' := hnil (afterSetting?_eq_some_iff.mp hu).1
        have hv' := hnil (afterSetting?_eq_some_iff.mp hv).1
        rw [hu, hv, decide_eq_decide, Option.some.injEq, Option.some.injEq, hu', hv', h₃.words_eq]

theorem wellFormed_collapse (t : Text) : wellFormed (collapse t) = wellFormed t :=
  wellFormed_congr words_collapse

/-! ## The check -/

theorem exists_check_eq (t : Text) (line : Int) :
    ∃ message, check (some t) line =
      if wellFormed t then [] else [.warning message line "@circuitInfo".toList] := by
  cases t with
  | nil => exact ⟨_, rfl⟩
  | cons c t => exact ⟨_, rfl⟩

/-- The check accepts exactly the texts of the form that is asked for, gives one warning about every
other text, and accepts a text exactly if it accepts the text collapsed. -/
theorem check_exact (t : Text) (line : Int) :
    (check (some t) line = [] ↔ Form (trim t)) ∧
      (¬ Form (trim t) →
        ∃ message, check (some t) line = [.warning message line "@circuitInfo".toList]) ∧
      (check (some (collapse t)) line = [] ↔ check (some t) line = []) := by
  have accepts : ∀ t, check (some t) line = [] ↔ wellFormed t = true := by
    intro t
    obtain ⟨message, h⟩ := exists_check_eq t line
    rw [h]
    split <;> simp_all
  refine ⟨by rw [accepts, wellFormed_iff], ?_, by rw [accepts, accepts, wellFormed_collapse]⟩
  intro hform
  obtain ⟨message, h⟩ := exists_check_eq t line
  rw [← wellFormed_iff] at hform
  exact ⟨message, by rw [h, if_neg hform]⟩

end CircuitDocs.CircuitInfo
