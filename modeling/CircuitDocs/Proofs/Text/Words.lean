import CircuitDocs.Proofs.Text.Blank

/-! # Words and lines

Everything about words follows from one equation: a blank cuts the words of a text in two. So the
words of joined lines are those of the lines, and words that are set one space apart, or collapsed,
are the words that were there before.
-/

namespace CircuitDocs.Text

variable {t u v w : Text} {c : Char} {ws ls : List Text}

structure IsWordText (w : Text) : Prop where
  ne_nil : w ≠ []
  not_blank : ∀ c ∈ w, isBlank c = false

instance (w : Text) : Decidable (IsWordText w) :=
  decidable_of_iff (w ≠ [] ∧ w.any isBlank = false)
    ⟨fun h => ⟨h.1, by simpa using h.2⟩, fun h => ⟨h.1, by simpa using h.not_blank⟩⟩

@[simp] theorem words_nil : words [] = [] := by simp [words]

theorem words_append_cons (hc : isBlank c = true) : words (u ++ c :: v) = words u ++ words v := by
  rw [words, List.splitOnP_append_cons u v hc, List.filter_append]
  rfl

theorem words_cons_blank (hc : isBlank c = true) : words (c :: t) = words t := by
  simpa using words_append_cons (u := []) (v := t) hc

theorem words_blank_append (hu : blank u = true) : words (u ++ v) = words v := by
  induction u with
  | nil => rfl
  | cons c u ih =>
    simp only [blank_cons, Bool.and_eq_true] at hu
    rw [List.cons_append, words_cons_blank hu.1, ih hu.2]

theorem words_blank (ht : blank t = true) : words t = [] := by
  simpa using words_blank_append (v := []) ht

theorem words_append_blank (hv : blank v = true) : words (u ++ v) = words u := by
  cases v with
  | nil => rw [List.append_nil]
  | cons c v =>
    simp only [blank_cons, Bool.and_eq_true] at hv
    rw [words_append_cons hv.1, words_blank hv.2, List.append_nil]

theorem words_singleton (hw : IsWordText w) : words w = [w] := by
  rw [words, List.splitOnP_eq_singleton hw.not_blank]
  simp [hw.ne_nil]

@[simp] theorem words_trimRight : words (trimRight t) = words t := by
  obtain ⟨b, hb, ht⟩ := exists_trimRight_append_blank t
  conv_rhs => rw [ht, words_append_blank hb]

theorem words_trimLeft (t : Text) : words (trimLeft t) = words t := by
  obtain ⟨b, hb, ht⟩ := exists_blank_append_trimLeft t
  conv_rhs => rw [ht, words_blank_append hb]

theorem words_trim (t : Text) : words (trim t) = words t := by
  rw [trim, words_trimRight, words_trimLeft]

theorem of_mem_splitOnP (hw : w ∈ t.splitOnP isBlank) (hc : c ∈ w) :
    isBlank c = false ∧ c ∈ t := by
  induction t generalizing w with
  | nil => simp_all
  | cons d t ih =>
    have later : ∀ {w}, w ∈ t.splitOnP isBlank → c ∈ w → isBlank c = false ∧ c ∈ d :: t :=
      fun hw hc => (ih hw hc).imp_right (List.mem_cons_of_mem d)
    rw [List.splitOnP_cons_eq_if_modifyHead] at hw
    split at hw
    · rcases List.mem_cons.mp hw with rfl | hw
      · simp at hc
      · exact later hw hc
    · rename_i hd
      obtain ⟨p, ps, hp⟩ := List.exists_cons_of_ne_nil (List.splitOnP_ne_nil isBlank t)
      rw [hp] at later
      rw [hp, List.modifyHead_cons] at hw
      rcases List.mem_cons.mp hw with rfl | hw
      · rcases List.mem_cons.mp hc with rfl | hc
        · exact ⟨by simpa using hd, List.mem_cons_self⟩
        · exact later List.mem_cons_self hc
      · exact later (List.mem_cons_of_mem _ hw) hc

theorem isWordText_of_mem_words (h : w ∈ words t) : IsWordText w := by
  obtain ⟨hw, hne⟩ := List.mem_filter.mp h
  exact ⟨by simpa using hne, fun c hc => (of_mem_splitOnP hw hc).1⟩

theorem mem_of_mem_words (hw : w ∈ words t) (hc : c ∈ w) : c ∈ t :=
  (of_mem_splitOnP (List.mem_filter.mp hw).1 hc).2

theorem words_eq_nil_iff : words t = [] ↔ blank t = true := by
  refine ⟨fun h => ?_, words_blank⟩
  induction t with
  | nil => rfl
  | cons c t ih =>
    cases hc : isBlank c with
    | true => simpa [hc] using ih (by rwa [words_cons_blank hc] at h)
    | false =>
      obtain ⟨p, ps, hp⟩ := List.exists_cons_of_ne_nil (List.splitOnP_ne_nil isBlank t)
      simp [words, List.splitOnP_cons_eq_if_modifyHead, hc, hp] at h

/-! ## Words one space apart -/

theorem words_flatMap_space (hws : ∀ w ∈ ws, IsWordText w) :
    words (ws.flatMap (' ' :: ·)) = ws := by
  induction ws with
  | nil => rw [List.flatMap_nil, words_nil]
  | cons w ws ih =>
    have hw := words_singleton (hws w (by simp))
    have ih := ih fun w hw => hws w (by simp [hw])
    rw [List.flatMap_cons, List.cons_append, words_cons_blank (by decide)]
    cases ws with
    | nil => simpa using hw
    | cons w' ws =>
      rw [List.flatMap_cons, List.cons_append, words_append_cons (by decide), hw]
      rw [List.flatMap_cons, List.cons_append, words_cons_blank (by decide)] at ih
      rw [ih, List.singleton_append]

theorem flatMap_cons_eq (c : Char) (hws : ws ≠ []) :
    ws.flatMap (c :: ·) = c :: [c].intercalate ws := by
  induction ws with
  | nil => exact absurd rfl hws
  | cons w ws ih =>
    cases ws with
    | nil => simp
    | cons w' ws =>
      rw [List.flatMap_cons, ih (by simp), List.intercalate_cons_cons]
      simp

theorem words_intercalate_space (hws : ∀ w ∈ ws, IsWordText w) :
    words ([' '].intercalate ws) = ws := by
  cases ws with
  | nil => simp
  | cons w ws =>
    rw [← words_cons_blank (c := ' ') (by decide), ← flatMap_cons_eq _ (by simp),
      words_flatMap_space hws]

/-! ## Collapsed text -/

@[simp] theorem words_collapse : words (collapse t) = words t :=
  words_intercalate_space fun _ => isWordText_of_mem_words

theorem collapse_congr (h : words u = words v) : collapse u = collapse v := by
  rw [collapse, collapse, h]

theorem collapse_eq_nil_iff : collapse t = [] ↔ words t = [] := by
  constructor
  · intro h
    rw [← words_collapse, h, words_nil]
  · intro h
    rw [collapse, h, List.intercalate_nil]

theorem mem_collapse (h : c ∈ collapse t) : c = ' ' ∨ isBlank c = false := by
  have hm : ∀ ws : List Text, (∀ w ∈ ws, IsWordText w) → c ∈ ws.flatMap (' ' :: ·) →
      c = ' ' ∨ isBlank c = false := by
    intro ws hws hc
    obtain ⟨w, hw, hc⟩ := List.mem_flatMap.mp hc
    rcases List.mem_cons.mp hc with rfl | hc
    · exact Or.inl rfl
    · exact Or.inr ((hws w hw).not_blank c hc)
  rw [collapse] at h
  cases hw : words t with
  | nil => simp [hw] at h
  | cons w ws =>
    refine hm (words t) (fun _ => isWordText_of_mem_words) ?_
    rw [hw] at h ⊢
    rw [flatMap_cons_eq _ (by simp)]
    exact List.mem_cons_of_mem _ h

theorem trimRight_intercalate (hws : ∀ w ∈ ws, IsWordText w) :
    trimRight ([' '].intercalate ws) = [' '].intercalate ws := by
  induction ws with
  | nil => rfl
  | cons w ws ih =>
    have hw := hws w (by simp)
    cases ws with
    | nil =>
      obtain ⟨w, c, rfl⟩ := (List.eq_nil_or_concat' w).resolve_left hw.ne_nil
      rw [List.intercalate_singleton, trimRight_concat (hw.not_blank c (by simp))]
    | cons w' ws =>
      have hb : blank ([' '].intercalate (w' :: ws)) = false := by
        rw [← Bool.not_eq_true, ← words_eq_nil_iff,
          words_intercalate_space fun w hw => hws w (by simp [hw])]
        simp
      rw [List.intercalate_cons_cons, List.append_assoc, trimRight_append (by simp [hb]),
        trimRight_append hb, ih fun w hw => hws w (by simp [hw])]

theorem trimRight_collapse : trimRight (collapse t) = collapse t :=
  trimRight_intercalate fun _ => isWordText_of_mem_words

/-! ## Lines -/

@[simp] theorem unlines_nil : unlines [] = [] := rfl

@[simp] theorem unlines_singleton (l : Text) : unlines [l] = l := by simp [unlines]

theorem unlines_cons (l : Text) (hls : ls ≠ []) : unlines (l :: ls) = l ++ '\n' :: unlines ls := by
  simp [unlines, List.intercalate_cons_of_ne_nil hls]

theorem exists_unlines_cons (l : Text) (ls : List Text) : ∃ v, unlines (l :: ls) = l ++ v := by
  cases ls with
  | nil => exact ⟨[], by simp⟩
  | cons l' ls => exact ⟨_, unlines_cons l (by simp)⟩

theorem unlines_flatten {gs : List (List Text)} (hgs : [] ∉ gs) :
    unlines gs.flatten = unlines (gs.map unlines) := by
  have happend : ∀ {ls ms : List Text}, ls ≠ [] → ms ≠ [] →
      unlines (ls ++ ms) = unlines ls ++ '\n' :: unlines ms := by
    intro ls ms hls hms
    induction ls with
    | nil => exact absurd rfl hls
    | cons l ls ih =>
      cases ls with
      | nil => rw [List.singleton_append, unlines_cons l hms, unlines_singleton]
      | cons l' ls =>
        rw [List.cons_append, unlines_cons l (by simp), ih (by simp), unlines_cons l (by simp),
          List.append_assoc, List.cons_append]
  induction gs with
  | nil => rfl
  | cons g gs ih =>
    simp only [List.mem_cons, not_or] at hgs
    cases gs with
    | nil => simp
    | cons g' gs =>
      have hflat : (g' :: gs).flatten ≠ [] := by
        have hg' : g' ≠ [] := fun h => hgs.2 (by simp [h])
        simp [hg']
      have hmap : (g' :: gs).map unlines ≠ [] := by simp
      rw [List.flatten_cons, happend (Ne.symm hgs.1) hflat, ih hgs.2, List.map_cons (a := g),
        unlines_cons _ hmap]

theorem unlines_append_cons (u l : Text) (ls : List Text) :
    unlines ((u ++ l) :: ls) = u ++ unlines (l :: ls) := by
  cases ls with
  | nil => simp
  | cons l' ls => rw [unlines_cons (u ++ l) (by simp), unlines_cons l (by simp), List.append_assoc]

theorem flatMap_concat_newline (hls : ls ≠ []) :
    ls.flatMap (· ++ ['\n']) = unlines ls ++ ['\n'] := by
  induction ls with
  | nil => exact absurd rfl hls
  | cons l ls ih =>
    cases ls with
    | nil => simp
    | cons l' ls =>
      rw [List.flatMap_cons, ih (by simp), unlines_cons l (by simp)]
      simp

theorem unlines_cons_concat (a b : Text) (ls : List Text) :
    unlines (a :: (ls ++ [b])) = a ++ (ls.flatMap ('\n' :: ·) ++ '\n' :: b) := by
  induction ls generalizing a with
  | nil =>
    rw [List.nil_append, unlines_cons a (by simp), unlines_singleton]
    rfl
  | cons l ls ih =>
    rw [List.cons_append, unlines_cons a (by simp), ih]
    simp

theorem unlines_concat_append (ls : List Text) (u v : Text) :
    unlines (ls ++ [u ++ v]) = unlines (ls ++ [u]) ++ v := by
  induction ls with
  | nil => simp
  | cons l ls ih =>
    rw [List.cons_append, List.cons_append, unlines_cons l (by simp), unlines_cons l (by simp), ih]
    simp

theorem mem_unlines (h : c ∈ unlines ls) : c = '\n' ∨ ∃ l ∈ ls, c ∈ l := by
  induction ls with
  | nil => simp at h
  | cons l ls ih =>
    cases ls with
    | nil => exact Or.inr ⟨l, by simp, by simpa using h⟩
    | cons l' ls =>
      rw [unlines_cons l (by simp)] at h
      rcases List.mem_append.mp h with h | h
      · exact Or.inr ⟨l, by simp, h⟩
      · rcases List.mem_cons.mp h with rfl | h
        · exact Or.inl rfl
        · rcases ih h with hc | ⟨l'', hl, hc⟩
          · exact Or.inl hc
          · exact Or.inr ⟨l'', List.mem_cons_of_mem _ hl, hc⟩

theorem lines_unlines (hls : ls ≠ []) (hn : ∀ l ∈ ls, '\n' ∉ l) : lines (unlines ls) = ls :=
  List.splitOn_intercalate '\n' hn hls

theorem unlines_lines (t : Text) : unlines (lines t) = t := List.intercalate_splitOn '\n'

theorem lines_append_newline (u v : Text) : lines (u ++ '\n' :: v) = lines u ++ lines v :=
  List.splitOnP_append_cons u v (by decide)

theorem lines_cons_newline (t : Text) : lines ('\n' :: t) = [] :: lines t :=
  lines_append_newline [] t

theorem lines_cons (hc : c ≠ '\n') : lines (c :: t) = (lines t).modifyHead (c :: ·) := by
  have h := List.splitOnP_cons_eq_if_modifyHead (p := (· == '\n')) c t
  rwa [if_neg (by simpa using hc)] at h

theorem lines_append (hu : '\n' ∉ u) : lines (u ++ v) = (lines v).modifyHead (u ++ ·) := by
  induction u with
  | nil => cases h : lines v <;> simp [h]
  | cons c u ih =>
    simp only [List.mem_cons, not_or] at hu
    rw [List.cons_append, lines_cons (Ne.symm hu.1), ih hu.2, List.modifyHead_modifyHead]
    rfl

theorem newline_not_mem_of_mem_lines {l : Text} (hl : l ∈ lines t) : '\n' ∉ l := by
  induction t generalizing l with
  | nil =>
    have hl : l = [] := by simpa [lines] using hl
    simp [hl]
  | cons c t ih =>
    by_cases hc : c = '\n'
    · subst hc
      rw [lines_cons_newline, List.mem_cons] at hl
      rcases hl with rfl | hl
      · simp
      · exact ih hl
    · rw [lines_cons hc] at hl
      cases h : lines t with
      | nil => simp [h] at hl
      | cons l' ls =>
        rw [h, List.modifyHead_cons, List.mem_cons] at hl
        rcases hl with rfl | hl
        · simp [Ne.symm hc, ih (h ▸ List.mem_cons_self)]
        · exact ih (h ▸ List.mem_cons_of_mem _ hl)

theorem words_unlines (ls : List Text) : words (unlines ls) = ls.flatMap words := by
  induction ls with
  | nil => simp
  | cons l ls ih =>
    cases ls with
    | nil => simp
    | cons l' ls =>
      rw [unlines_cons l (by simp), words_append_cons (by decide), ih]
      rfl

end CircuitDocs.Text
