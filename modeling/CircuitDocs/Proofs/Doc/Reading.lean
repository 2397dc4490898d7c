import CircuitDocs.Proofs.Doc.Item

/-! # Reading written entries

Each reader of a block meets the entries one after the other. At an entry with its own mark it
takes the words of that entry alone; every other entry is passed over. Only a remarks section runs
on into the remarks entries that follow it without a gap.
-/

namespace CircuitDocs

open Text

namespace Doc.Item

variable {e : Item} {es : List Item} {gap : Nat} {c : Char} {b t : Text}

/-! ## The text of one entry -/

theorem WellFormed.at_not_mem_body (he : e.WellFormed) : '@' ∉ e.body := by
  intro h
  rcases mem_unlines h with h | ⟨l, hl, h⟩
  · exact absurd h (by decide)
  · rcases List.mem_cons.mp hl with rfl | hl
    · exact he.tail.2 (mem_of_mem_trimRight h)
    · obtain ⟨m, hm, rfl⟩ := List.mem_map.mp hl
      exact (he.more m hm).2.1 (mem_of_mem_trimRight h)

theorem WellFormed.unbroken_body (he : e.WellFormed) : Unbroken e.body := by
  refine unbroken_unlines (fun h => he.tail.1 (mem_of_mem_trimRight h)) ?_
  intro l hl
  obtain ⟨m, hm, rfl⟩ := List.mem_map.mp hl
  obtain ⟨hn, ha, hb⟩ := he.more m hm
  exact ⟨fun h => hn (mem_of_mem_trimRight h),
    not_opensTag_of_not_mem fun h => ha (mem_of_mem_trimRight h), by simpa using hb⟩

@[simp] theorem words_body (e : Item) : Text.words e.body = e.words := by
  rw [body, words_unlines, List.flatMap_cons, words_trimRight, List.flatMap_map, words]
  simp only [words_trimRight]

theorem collapse_body (e : Item) : collapse e.body = e.tagged.prose := by
  rw [collapse, words_body]
  rfl

theorem WellFormed.body_append_cases (he : e.WellFormed) (gap : Nat) (es : List Item) :
    e.body ++ after gap es = [] ∨ ∃ c t, e.body ++ after gap es = c :: t ∧ isBlank c = true := by
  have hcons : ∀ (t u : Text), (∀ c v, t = c :: v → isBlank c = true) →
      (u = [] ∨ ∃ c v, u = c :: v ∧ isBlank c = true) →
      t ++ u = [] ∨ ∃ c v, t ++ u = c :: v ∧ isBlank c = true := by
    intro t u ht hu
    cases t with
    | nil => exact hu
    | cons c t => exact Or.inr ⟨c, t ++ u, rfl, ht c t rfl⟩
  have hafter : after gap es = [] ∨ ∃ c t, after gap es = c :: t ∧ isBlank c = true := by
    cases es with
    | nil => exact Or.inl rfl
    | cons e es => exact Or.inr ⟨'\n', _, rfl, by decide⟩
  have htail : ∀ c v, trimRight e.tail = c :: v → isBlank c = true := by
    intro c v h
    obtain ⟨u, -, hu⟩ := exists_trimRight_append_blank e.tail
    rw [h] at hu
    exact he.tail_head c _ hu
  cases hm : e.more with
  | nil =>
    rw [body, hm, List.map_nil, unlines_singleton]
    exact hcons _ _ htail hafter
  | cons m ms =>
    rw [body, hm, unlines_cons _ (by simp), List.append_assoc]
    exact hcons _ _ htail (Or.inr ⟨'\n', _, rfl, by decide⟩)

theorem WellFormed.wordEnds_body (he : e.WellFormed) (gap : Nat) (es : List Item) :
    wordEnds (e.body ++ after gap es) = true := by
  rcases he.body_append_cases gap es with h | ⟨c, t, h, hc⟩
  · rw [h]
    rfl
  · rw [h]
    cases hw : isWord c with
    | true => simp [isBlank_of_isWord hw] at hc
    | false => simp [wordEnds, hw]

/-! ## The text after an entry -/

theorem sectionEnds_after (gap : Nat) (es : List Item) :
    sectionEnds (fun _ => true) (after gap es) = true := by
  cases es with
  | nil => rfl
  | cons e es => cases gap <;> rfl

theorem dropWhile_isPad_append (b : Text) (gap : Nat) (es : List Item) :
    (b ++ after gap es).dropWhile isPad = b.dropWhile isPad ++ after gap es := by
  have hafter : (after gap es).dropWhile isPad = after gap es := by
    cases es <;> rfl
  rw [List.dropWhile_append]
  split
  · rename_i h
    rw [hafter, List.isEmpty_iff.mp h, List.nil_append]
  · rfl

theorem words_dropWhile_isPad (b : Text) : Text.words (b.dropWhile isPad) = Text.words b := by
  conv_rhs => rw [← List.takeWhile_append_dropWhile (p := isPad) (l := b)]
  rw [words_blank_append]
  exact blank_iff.mpr fun c hc => isBlank_of_isPad (List.mem_takeWhile_imp hc)

theorem WellFormed.section_dropWhile (he : e.WellFormed) (gap : Nat) (es : List Item) :
    collapse (sectionBody ((e.body ++ after gap es).dropWhile isPad)) = e.tagged.prose ∧
      sectionRest ((e.body ++ after gap es).dropWhile isPad) = after gap es := by
  have hu := he.unbroken_body.dropWhile isPad
  have hends := sectionEnds_after gap es
  rw [dropWhile_isPad_append, sectionBody, sectionRest, hu.takeUntil_append, hu.dropUntil_append,
    takeUntil_of_ends hends, dropUntil_of_ends hends, List.append_nil,
    collapse_congr (words_dropWhile_isPad e.body), collapse_body]
  exact ⟨rfl, rfl⟩

theorem WellFormed.at_not_mem_rest (he : e.WellFormed) : '@' ∉ e.mark.word ++ e.body := by
  have hw := (Mark.not_mem_word he.mark).1
  simp [hw, he.at_not_mem_body]

theorem at_not_mem_newlines (gap : Nat) : '@' ∉ List.replicate gap '\n' := by
  simp [List.mem_replicate]

/-! ## Runs of a reader -/

/-- A reader that takes at each entry what `f` says collects what `f` says of all of them. -/
theorem all_after {α : Type} {R : Reader α} {f : Item → Option α}
    (hread : ∀ c t, c ≠ '@' → R.read (c :: t) = none)
    (hstep : ∀ e : Item, e.WellFormed → ∀ es : List Item,
      R.read (e.text ++ after e.gap es) = (f e).map fun a => (a, after e.gap es))
    (hes : ∀ e ∈ es, e.WellFormed) (gap : Nat) : R.all (after gap es) = es.filterMap f := by
  induction es generalizing gap with
  | nil => simp [after]
  | cons e es ih =>
    have he := hes e (by simp)
    have ih := ih (fun e h => hes e (by simp [h])) e.gap
    have hs := hstep e he es
    rw [after, R.all_append_of_not_mem hread (at_not_mem_newlines _), List.filterMap_cons]
    cases hf : f e with
    | some a => rw [R.all_of_some (by rw [hs, hf]; rfl), ih]
    | none =>
      rw [hf, Option.map_none, text, Mark.text, List.cons_append, List.cons_append] at hs
      rw [text, Mark.text, List.cons_append, List.cons_append, R.all_cons_of_none hs,
        R.all_append_of_not_mem hread he.at_not_mem_rest, ih]

def firstOf {α : Type} (f : Item → List Item → Option α) : List Item → Option α
  | [] => none
  | e :: es => (f e es).or (firstOf f es)

theorem first?_after {α : Type} {read : Text → Option α} {f : Item → List Item → Option α}
    (hnil : read [] = none) (hread : ∀ c t, c ≠ '@' → read (c :: t) = none)
    (hstep : ∀ e : Item, e.WellFormed → ∀ es : List Item, read (e.text ++ after e.gap es) = f e es)
    (hes : ∀ e ∈ es, e.WellFormed) (gap : Nat) : first? read (after gap es) = firstOf f es := by
  induction es generalizing gap with
  | nil => exact hnil
  | cons e es ih =>
    have he := hes e (by simp)
    have ih := ih (fun e h => hes e (by simp [h])) e.gap
    have hs := hstep e he es
    rw [after, first?_append_of_not_mem hread (at_not_mem_newlines _), firstOf]
    cases hf : f e es with
    | some a => rw [first?_of_some (hs.trans hf), Option.some_or]
    | none =>
      rw [hf, text, Mark.text, List.cons_append, List.cons_append] at hs
      rw [text, Mark.text, List.cons_append, List.cons_append, first?_cons_of_none hs,
        first?_append_of_not_mem hread he.at_not_mem_rest, ih, Option.none_or]

theorem after_zero (es : List Item) : after 0 es = chain es ∨ after 0 es = '\n' :: chain es := by
  cases es with
  | nil => exact Or.inl rfl
  | cons e es => exact Or.inr rfl

theorem all_chain {α : Type} {R : Reader α} {f : Item → Option α}
    (hread : ∀ c t, c ≠ '@' → R.read (c :: t) = none)
    (hstep : ∀ e : Item, e.WellFormed → ∀ es : List Item,
      R.read (e.text ++ after e.gap es) = (f e).map fun a => (a, after e.gap es))
    (hes : ∀ e ∈ es, e.WellFormed) : R.all (chain es) = es.filterMap f := by
  rw [← all_after hread hstep hes 0]
  rcases after_zero es with h | h
  · rw [h]
  · rw [h, R.all_cons_of_none (hread _ _ (by decide))]

theorem first?_chain {α : Type} {read : Text → Option α} {f : Item → List Item → Option α}
    (hnil : read [] = none) (hread : ∀ c t, c ≠ '@' → read (c :: t) = none)
    (hstep : ∀ e : Item, e.WellFormed → ∀ es : List Item, read (e.text ++ after e.gap es) = f e es)
    (hes : ∀ e ∈ es, e.WellFormed) : first? read (chain es) = firstOf f es := by
  rw [← first?_after hnil hread hstep hes 0]
  rcases after_zero es with h | h
  · rw [h]
  · rw [h, first?_cons_of_none (hread _ _ (by decide))]

/-! ## Parameters and failures -/

theorem type?_append {type : Text} (ht : '}' ∉ type) (hne : type ≠ []) (t : Text) :
    Entry.type? (' ' :: '{' :: (type ++ '}' :: t)) = some (type, t) := by
  have hpad : isPad ' ' = true := by decide
  have hdrop : ('{' :: (type ++ '}' :: t)).dropWhile isPad = '{' :: (type ++ '}' :: t) := rfl
  simp only [Entry.type?, hpad, if_true, hdrop, Entry.braced?_append ht]
  simp [hne]

theorem undashed_dash (t : Text) : Entry.undashed (' ' :: '-' :: t) = t.dropWhile isPad := rfl

theorem read_param (he : e.WellFormed) (es : List Item) :
    Entry.param? (e.text ++ after e.gap es) =
      e.tagged.param?.map fun a => (a, after e.gap es) := by
  cases hm : e.mark with
  | param type name =>
    have hw := he.mark
    rw [hm] at hw
    obtain ⟨ht, hne, hn⟩ := hw
    have htext : e.text ++ after e.gap es = "@param".toList ++ (' ' :: '{' :: (type ++ '}' ::
        (' ' :: (name ++ ' ' :: '-' :: (e.body ++ after e.gap es))))) := by
      simp [text, Mark.text, hm, Mark.word_param]
    have hpad : ∀ t : Text, (' ' :: (name ++ t)).dropWhile isPad = name ++ t := by
      intro t
      obtain ⟨c, n, rfl⟩ := List.exists_cons_of_ne_nil hn.ne_nil
      have hc := not_isPad_of_isWord (hn.all c (by simp))
      rw [List.dropWhile_cons_of_pos (by decide), List.cons_append,
        List.dropWhile_cons_of_neg (by simp [hc])]
    obtain ⟨hbody, hrest⟩ := he.section_dropWhile e.gap es
    rw [Entry.param?, htext, after?_eq_some_iff.mpr rfl]
    simp only [type?_append ht.no_brace hne, hpad, hn.takeWhile_append (d := ' ') (by decide),
      hn.dropWhile_append (d := ' ') (by decide), undashed_dash, hbody, hrest, ht.trimmed]
    simp [hn.ne_nil, Tagged.param?, tagged, hm]
  | tag t => cases t <;> simp only [Tagged.param?, tagged, text, hm] <;> rfl
  | throws type => simp only [Tagged.param?, tagged, text, hm]; rfl
  | returns type => simp only [Tagged.param?, tagged, text, hm]; rfl

theorem read_throws (he : e.WellFormed) (es : List Item) :
    Entry.throws? (e.text ++ after e.gap es) =
      e.tagged.throws?.map fun a => (a, after e.gap es) := by
  cases hm : e.mark with
  | throws type =>
    have hw := he.mark
    rw [hm] at hw
    obtain ⟨ht, hne⟩ := hw
    have htext : e.text ++ after e.gap es = "@throws".toList ++ (' ' :: '{' :: (type ++ '}' ::
        (e.body ++ after e.gap es))) := by
      simp [text, Mark.text, hm, Mark.word_throws]
    obtain ⟨hbody, hrest⟩ := he.section_dropWhile e.gap es
    rw [Entry.throws?, htext, after?_eq_some_iff.mpr rfl]
    simp only [type?_append ht.no_brace hne, hbody, hrest, ht.trimmed]
    simp [Tagged.throws?, tagged, hm]
  | tag t => cases t <;> simp only [Tagged.throws?, tagged, text, hm] <;> rfl
  | param type name => simp only [Tagged.throws?, tagged, text, hm]; rfl
  | returns type => simp only [Tagged.throws?, tagged, text, hm]; rfl

/-! ## Tags -/

theorem after?_text (tag : Tag) (he : e.WellFormed) (gap : Nat) (es : List Item) :
    tag.after? (e.text ++ after gap es) =
      if e.mark = .tag tag then some (e.body ++ after gap es) else none := by
  have hends := he.wordEnds_body gap es
  cases hm : e.mark with
  | tag t =>
    by_cases ht : t = tag
    · subst ht
      have htext : e.text ++ after gap es = '@' :: (t.word ++ (e.body ++ after gap es)) := by
        simp [text, Mark.text, hm, Mark.word_tag]
      rw [htext, Tag.after?, Tag.afterWord?, after?_eq_some_iff.mpr rfl]
      simp [hends]
    · have hne : Mark.tag t ≠ .tag tag := fun h => ht (Mark.tag.inj h)
      rw [if_neg hne]
      simp only [text, hm]
      cases t <;> cases tag <;> first | rfl | exact absurd rfl ht
  | param type name => simp only [text, hm]; cases tag <;> rfl
  | throws type => simp only [text, hm]; cases tag <;> rfl
  | returns type => simp only [text, hm]; cases tag <;> rfl

theorem sectionEnds_after_cons (tag : Tag) {e' : Item} (he' : e'.WellFormed) (gap : Nat)
    (es : List Item) :
    sectionEnds tag.endedBy (after gap (e' :: es)) =
      !decide (tag = .remarks ∧ gap = 0 ∧ e'.mark = .tag .remarks) := by
  cases gap with
  | succ gap => simp only [Nat.add_one_ne_zero, false_and, and_false, decide_false]; rfl
  | zero =>
    have hword := after?_text .remarks he' e'.gap es
    have hcons : after 0 (e' :: es) =
        '\n' :: '@' :: (e'.mark.word ++ (e'.body ++ after e'.gap es)) := by
      simp [after, text, Mark.text]
    rw [text, Mark.text, List.append_assoc, List.cons_append, Tag.after?] at hword
    rw [hcons]
    change tag.endedBy _ = _
    cases tag with
    | remarks =>
      rw [Tag.endedBy, hword]
      split <;> simp [*]
    | title => simp only [reduceCtorEq, false_and, decide_false]; rfl
    | description => simp only [reduceCtorEq, false_and, decide_false]; rfl
    | circuitInfo => simp only [reduceCtorEq, false_and, decide_false]; rfl

theorem WellFormed.words_word_append (he : e.WellFormed) {w : Text} (hw : IsWordText w)
    (stop : Text → Bool) (es : List Item) :
    Text.words (w ++ takeUntil stop (e.body ++ after gap es)) =
      w :: Text.words (takeUntil stop (e.body ++ after gap es)) := by
  rcases he.body_append_cases gap es with h | ⟨c, t, h, hc⟩
  · rw [h, takeUntil, List.append_nil, words_singleton hw, words_nil]
  · rw [h, takeUntil]
    split
    · rw [List.append_nil, words_singleton hw, words_nil]
    · rw [words_append_cons hc, words_singleton hw, words_cons_blank hc, List.singleton_append]

theorem words_section (tag : Tag) (he : e.WellFormed) (hes : ∀ e ∈ es, e.WellFormed) :
    Text.words (takeUntil (sectionEnds tag.endedBy) (e.body ++ after e.gap es)) =
      e.tagged.sectionWords tag (es.map tagged) := by
  induction es generalizing e with
  | nil =>
    rw [after, he.unbroken_body.takeUntil_append, takeUntil, List.append_nil, words_body]
    rfl
  | cons e' es ih =>
    have he' := hes e' (by simp)
    have hends := sectionEnds_after_cons tag he' e.gap es
    rw [he.unbroken_body.takeUntil_append, List.map_cons, Tagged.sectionWords]
    by_cases h : tag = .remarks ∧ e.gap = 0 ∧ e'.mark = .tag .remarks
    · obtain ⟨rfl, hgap, hm⟩ := h
      have hafter : after e.gap (e' :: es) = '\n' :: ("@remarks".toList ++
          (e'.body ++ after e'.gap es)) := by
        simp [after, text, Mark.text, hm, hgap, Mark.word_tag, word_remarks]
      rw [decide_eq_true ⟨rfl, hgap, hm⟩, Bool.not_true] at hends
      rw [hafter] at hends ⊢
      rw [takeUntil, hends, if_neg (by decide), (unbroken_of_not_mem (by decide)).takeUntil_append,
        words_append_cons (by decide), words_body, he'.words_word_append (by decide),
        ih he' fun e h => hes e (by simp [h]), if_pos ⟨rfl, by simp [tagged, hgap], hm⟩]
      rfl
    · rw [decide_eq_false h, Bool.not_false] at hends
      rw [takeUntil_of_ends hends, List.append_nil, words_body, if_neg (by simpa [tagged] using h)]
      rfl

theorem joined?_words (t : Text) :
    Tagged.joined? (Text.words t) =
      match collapse t with
      | [] => none
      | c :: value => some (c :: value) := by
  rw [Tagged.joined?]
  split
  · rename_i h
    rw [collapse_eq_nil_iff.mpr h]
  · rename_i h
    rw [← collapse_eq_nil_iff] at h
    obtain ⟨c, value, hv⟩ := List.exists_cons_of_ne_nil h
    rw [← collapse, hv]

theorem value?_chain (tag : Tag) (hes : ∀ e ∈ es, e.WellFormed) :
    tag.value? (chain es) = Tagged.value? tag (es.map tagged) := by
  have hnil : tag.after? [] = none := rfl
  have hfirst := first?_chain hnil (fun c t hc => by rw [Tag.after?]; simp [hc])
    (fun e he es => after?_text tag he e.gap es) hes
  rw [Tag.value?, hfirst]
  clear hfirst
  induction es with
  | nil => rfl
  | cons e es ih =>
    have he := hes e (by simp)
    have hes' : ∀ e ∈ es, e.WellFormed := fun e h => hes e (by simp [h])
    rw [firstOf, List.map_cons, Tagged.value?]
    by_cases hm : e.mark = .tag tag
    · rw [if_pos hm, if_pos (show e.tagged.mark = .tag tag from hm), Option.some_or]
      rw [← words_section tag he hes']
      exact (joined?_words _).symm
    · rw [if_neg hm, if_neg (show e.tagged.mark ≠ .tag tag from hm), Option.none_or, ih hes']

/-! ## Results -/

theorem afterReturns?_text (e : Item) (es : List Item) :
    Entry.afterReturns? (e.text ++ after e.gap es) =
      match e.mark with
      | .returns type =>
        some (' ' :: '{' :: (type ++ '}' :: ' ' :: '-' :: (e.body ++ after e.gap es)))
      | _ => none := by
  cases hm : e.mark with
  | returns type =>
    have htext : e.text ++ after e.gap es = "@return".toList ++ ('s' :: ' ' :: '{' :: (type ++
        '}' :: ' ' :: '-' :: (e.body ++ after e.gap es))) := by
      simp [text, Mark.text, hm, Mark.word_returns]
    rw [htext, Entry.afterReturns?, after?_eq_some_iff.mpr rfl]
    rfl
  | tag t => cases t <;> simp only [text, hm] <;> rfl
  | param type name => simp only [text, hm]; rfl
  | throws type => simp only [text, hm]; rfl

theorem returns_text (he : e.WellFormed) {type : Text} (ht : IsBraced type) (es : List Item) :
    Entry.returns (' ' :: '{' :: (type ++ '}' :: ' ' :: '-' :: (e.body ++ after e.gap es))) =
      if type = [] ∧ e.words = [] then none else some ⟨type, e.tagged.prose⟩ := by
  obtain ⟨hbody, -⟩ := he.section_dropWhile e.gap es
  have hdrop : ∀ t : Text, (' ' :: '{' :: t).dropWhile isPad = '{' :: t := fun _ => rfl
  have hprose : e.tagged.prose = [] ↔ e.words = [] := by
    rw [← collapse_body, collapse_eq_nil_iff, words_body]
  simp only [Entry.returns, hdrop, Entry.braced?_append ht.no_brace, Option.getD_some,
    undashed_dash, hbody, ht.trimmed, Bool.and_eq_true, List.isEmpty_iff, hprose]

theorem returns?_chain (hes : ∀ e ∈ es, e.WellFormed) :
    Entry.returns? (chain es) = Tagged.returns? (es.map tagged) := by
  have hnil : Entry.afterReturns? [] = none := rfl
  have hfirst := first?_chain hnil
    (fun c t hc => by simp [Entry.afterReturns?, Text.after?, Ne.symm hc])
    (fun e _ es => afterReturns?_text e es) hes
  rw [Entry.returns?, hfirst]
  clear hfirst
  induction es with
  | nil => rfl
  | cons e es ih =>
    have he := hes e (by simp)
    have ih := ih fun e h => hes e (by simp [h])
    rw [firstOf, List.map_cons]
    cases hm : e.mark with
    | returns type =>
      have hw := he.mark
      rw [hm] at hw
      rw [Option.some_or, Tagged.returns?, show e.tagged.mark = .returns type from hm]
      exact returns_text he hw es
    | tag t => rw [Option.none_or, ih, Tagged.returns?, show e.tagged.mark = .tag t from hm]
    | param type name =>
      rw [Option.none_or, ih, Tagged.returns?, show e.tagged.mark = .param type name from hm]
    | throws type =>
      rw [Option.none_or, ih, Tagged.returns?, show e.tagged.mark = .throws type from hm]

/-! ## Whole blocks -/

/-- The plain text of written entries is read as those entries. -/
theorem ofBlock_chain (hes : ∀ e ∈ es, e.WellFormed) :
    Doc.ofBlock (chain es) = Tagged.doc (es.map tagged) := by
  have hparams : Entry.params.all (chain es) = (es.map tagged).filterMap Tagged.param? := by
    rw [List.filterMap_map]
    refine all_chain (fun c t hc => ?_) (fun e he es => read_param he es) hes
    simp [Entry.params, Entry.param?, Text.after?, Ne.symm hc]
  have hthrows : Entry.throws.all (chain es) = (es.map tagged).filterMap Tagged.throws? := by
    rw [List.filterMap_map]
    refine all_chain (fun c t hc => ?_) (fun e he es => read_throws he es) hes
    simp [Entry.throws, Entry.throws?, Text.after?, Ne.symm hc]
  rw [Doc.ofBlock, value?_chain _ hes, value?_chain _ hes, value?_chain _ hes, value?_chain _ hes,
    hparams, hthrows, returns?_chain hes, Tagged.doc]

end Doc.Item

end CircuitDocs
