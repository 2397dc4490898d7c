import CircuitDocs.Proofs.Doc.Padded

/-! # Documentation that is alike

Two documentations are alike when they differ at most by blanks inside types. The types are kept
with their line breaks, so this is as much as can be said of a padded comment.
-/

namespace CircuitDocs

open Text Filler

variable {t t' : Text}

namespace Doc

def Param.Alike (p p' : Param) : Prop :=
  p'.name = p.name ∧ words p'.type = words p.type ∧ p'.description = p.description

def Throws.Alike (e e' : Throws) : Prop :=
  words e'.type = words e.type ∧ e'.message = e.message

def Returns.Alike (r r' : Returns) : Prop :=
  words r'.type = words r.type ∧ r'.description = r.description

/-- Whether two documentations differ at most by blanks inside types. -/
structure Alike (d d' : Doc) : Prop where
  title : d'.title = d.title
  description : d'.description = d.description
  remarks : d'.remarks = d.remarks
  circuitInfo : d'.circuitInfo = d.circuitInfo
  params : List.Forall₂ Param.Alike d.params d'.params
  throws : List.Forall₂ Throws.Alike d.throws d'.throws
  returns : Option.Rel Returns.Alike d.returns d'.returns

end Doc

/-! ## Tags -/

namespace Tag

theorem rel_afterWord? (tag : Tag) (h : Indented t t') :
    Option.Rel Indented (tag.afterWord? t) (tag.afterWord? t') := by
  have hw : tag.word.any isBlank = false := by cases tag <;> decide
  rcases rel_cases (h.after? hw) with ⟨hx, hy⟩ | ⟨r, r', hx, hy, hr⟩
  · rw [afterWord?, afterWord?, hx, hy]
    exact .none
  · simp only [afterWord?, hx, hy, Indented.wordEnds_eq hr]
    split
    · exact .some hr
    · exact .none

theorem after?_of_ne (tag : Tag) {c : Char} (hc : c ≠ '@') : tag.after? (c :: t) = none := by
  rw [after?]
  simp [hc]

theorem rel_after? (tag : Tag) (h : Indented t t') :
    Option.Rel Indented (tag.after? t) (tag.after? t') := by
  cases h with
  | nil => exact .none
  | cons c h =>
    by_cases hc : c = '@'
    · subst hc
      exact tag.rel_afterWord? h
    · rw [tag.after?_of_ne hc, tag.after?_of_ne hc]
      exact .none
  | newline hu hv h =>
    rw [hv.eq_nil]
    exact .none

theorem endedBy_eq (tag : Tag) (h : Indented t t') : tag.endedBy t' = tag.endedBy t := by
  cases tag with
  | remarks =>
    rcases rel_cases (remarks.rel_afterWord? h) with ⟨hx, hy⟩ | ⟨r, r', hx, hy, -⟩
    · rw [endedBy, endedBy, hx, hy]
    · rw [endedBy, endedBy, hx, hy]
      rfl
  | title | description | circuitInfo => rfl

theorem value?_eq (tag : Tag) (h : Indented t t') : tag.value? t' = tag.value? t := by
  have hfirst := h.first? (fun c t hc => tag.after?_of_ne hc) fun _ _ => tag.rel_after?
  rcases rel_cases hfirst with ⟨hx, hy⟩ | ⟨r, r', hx, hy, hr⟩
  · rw [value?, value?, hx, hy]
  · have hbody := Indented.takeUntil hr fun _ _ => tag.endedBy_eq
    rw [value?, value?, hx, hy]
    simp only [hbody.collapse_eq]

end Tag

/-! ## Entries -/

namespace Entry

theorem rel_braced? (h : Indented t t') :
    Option.Rel (fun x y => Indented x.1 y.1 ∧ Indented x.2 y.2) (braced? t) (braced? t') := by
  have other : ∀ {c : Char} {t : Text}, c ≠ '{' → braced? (c :: t) = none := by
    intro c t hc
    rw [braced?]
    simp [hc]
  cases h with
  | nil => exact .none
  | @cons c t t' h =>
    by_cases hc : c = '{'
    · subst hc
      have hbrace : isBlank '}' = false := by decide
      have htake := Padded.takeWhile_of_blank (decide_ne_of_isBlank hbrace) h
      rcases h.dropWhile_ne_cases hbrace with ⟨hx, hy⟩ | ⟨r, r', hx, hy, hr⟩
      · simp only [braced?, hx, hy]
        exact .none
      · simp only [braced?, hx, hy]
        exact .some ⟨htake, hr⟩
    · rw [other hc, other hc]
      exact .none
  | newline hu hv h =>
    rw [hv.eq_nil]
    exact .none

theorem rel_type? (h : Indented t t') :
    Option.Rel (fun x y => Indented x.1 y.1 ∧ Indented x.2 y.2) (type? t) (type? t') := by
  have hempty : ∀ {x y : Text}, Indented x y → y.isEmpty = x.isEmpty := by
    intro x y h
    cases h with
    | nil => rfl
    | cons c h => rfl
    | newline hu hv h =>
      rw [hv.eq_nil]
      rfl
  cases h with
  | nil => exact .none
  | @cons c t t' h =>
    have hb := rel_braced? (h.dropWhile Indented.stops_isPad)
    simp only [type?]
    split
    · rcases rel_cases hb with ⟨hx, hy⟩ | ⟨⟨x, r⟩, ⟨y, r'⟩, hx, hy, hxy, hr⟩
      · rw [hx, hy]
        exact .none
      · simp only [hx, hy, hempty hxy]
        split
        · exact .none
        · exact .some ⟨hxy, hr⟩
    · exact .none
  | newline hu hv h =>
    rw [hv.eq_nil]
    exact .none

theorem indented_undashed (h : Indented t t') : Indented (undashed t) (undashed t') := by
  have hd := h.dropWhile Indented.stops_isPad
  generalize hx : t.dropWhile isPad = x, hy : t'.dropWhile isPad = y at hd
  cases hd with
  | nil =>
    rw [undashed, undashed, hx, hy]
    exact .nil
  | @cons c r r' hr =>
    by_cases hc : c = '-'
    · subst hc
      rw [undashed, undashed, hx, hy]
      exact hr.dropWhile Indented.stops_isPad
    · rw [undashed_of_ne hx hc, undashed_of_ne hy hc]
      exact .cons c hr
  | newline hu hv hr =>
    obtain rfl := hv.eq_nil
    rw [undashed, undashed, hx, hy]
    exact .newline hu hv hr

theorem stops_isWord : Padded.Stops .nothing isWord :=
  Padded.stops_of_not_blank fun _ => isBlank_of_isWord

theorem rel_param? (h : Indented t t') :
    Option.Rel (fun x y => Doc.Param.Alike x.1 y.1 ∧ Indented x.2 y.2) (param? t) (param? t') := by
  rcases rel_cases (h.after? (w := "@param".toList) (by decide)) with
    ⟨hx, hy⟩ | ⟨r, r', hx, hy, hr⟩
  · rw [param?, param?, hx, hy]
    exact .none
  · rcases rel_cases (rel_type? hr) with ⟨hx', hy'⟩ | ⟨⟨x, s⟩, ⟨y, s'⟩, hx', hy', hxy, hs⟩
    · simp only [param?, hx, hy, hx', hy']
      exact .none
    · have hs := hs.dropWhile Indented.stops_isPad
      have hname := hs.takeWhile_eq stops_isWord
      have hrest := indented_undashed (hs.dropWhile stops_isWord)
      have hbody := (Indented.sectionBody hrest).collapse_eq
      simp only [param?, hx, hy, hx', hy', hname]
      split
      · exact .none
      · refine .some ⟨⟨rfl, ?_, hbody⟩, Indented.sectionRest hrest⟩
        rw [words_trim, words_trim, hxy.words_eq]

theorem rel_throws? (h : Indented t t') :
    Option.Rel (fun x y => Doc.Throws.Alike x.1 y.1 ∧ Indented x.2 y.2)
      (throws? t) (throws? t') := by
  rcases rel_cases (h.after? (w := "@throws".toList) (by decide)) with
    ⟨hx, hy⟩ | ⟨r, r', hx, hy, hr⟩
  · rw [throws?, throws?, hx, hy]
    exact .none
  · rcases rel_cases (rel_type? hr) with ⟨hx', hy'⟩ | ⟨⟨x, s⟩, ⟨y, s'⟩, hx', hy', hxy, hs⟩
    · simp only [throws?, hx, hy, hx', hy']
      exact .none
    · have hs := hs.dropWhile Indented.stops_isPad
      have hbody := (Indented.sectionBody hs).collapse_eq
      simp only [throws?, hx, hy, hx', hy']
      refine .some ⟨⟨?_, hbody⟩, Indented.sectionRest hs⟩
      rw [words_trim, words_trim, hxy.words_eq]

theorem rel_afterReturns? (h : Indented t t') :
    Option.Rel Indented (afterReturns? t) (afterReturns? t') := by
  rcases rel_cases (h.after? (w := "@return".toList) (by decide)) with
    ⟨hx, hy⟩ | ⟨r, r', hx, hy, hr⟩
  · rw [afterReturns?, afterReturns?, hx, hy]
    exact .none
  · have hends : ∀ {r r' : Text}, Indented r r' → Option.Rel Indented
        (if wordEnds r then some r else none) (if wordEnds r' then some r' else none) := by
      intro r r' h
      rw [Indented.wordEnds_eq h]
      split
      · exact .some h
      · exact .none
    cases hr with
    | nil =>
      rw [afterReturns?, afterReturns?, hx, hy]
      exact hends .nil
    | @cons c r r' hr =>
      by_cases hc : c = 's'
      · subst hc
        rw [afterReturns?, afterReturns?, hx, hy]
        exact hends hr
      · rw [afterReturns?_of_ne hx hc, afterReturns?_of_ne hy hc]
        exact hends (.cons c hr)
    | newline hu hv hr =>
      obtain rfl := hv.eq_nil
      rw [afterReturns?, afterReturns?, hx, hy]
      exact hends (.newline hu hv hr)

theorem rel_returns (h : Indented t t') :
    Option.Rel Doc.Returns.Alike (returns t) (returns t') := by
  obtain ⟨x, y, r, r', hx, hy, hxy, hr⟩ : ∃ x y r r',
      (braced? (t.dropWhile isPad)).getD ([], t) = (x, r) ∧
      (braced? (t'.dropWhile isPad)).getD ([], t') = (y, r') ∧ words y = words x ∧
        Indented r r' := by
    rcases rel_cases (rel_braced? (h.dropWhile Indented.stops_isPad)) with
      ⟨hx, hy⟩ | ⟨⟨x, r⟩, ⟨y, r'⟩, hx, hy, hxy, hr⟩
    · exact ⟨[], [], t, t', by rw [hx]; rfl, by rw [hy]; rfl, rfl, h⟩
    · exact ⟨x, y, r, r', by rw [hx]; rfl, by rw [hy]; rfl, hxy.words_eq, hr⟩
  have hbody := (Indented.sectionBody (indented_undashed hr)).collapse_eq
  have hempty : (trim y).isEmpty = (trim x).isEmpty := by
    have : ∀ u : Text, (trim u).isEmpty = true ↔ words u = [] := by
      intro u
      rw [List.isEmpty_iff, ← words_trim]
      constructor
      · intro hu
        rw [hu, words_nil]
      · intro hu
        have hb : blank (trimLeft u) = true := by
          rw [← blank_trimRight, ← trim, ← words_eq_nil_iff, hu]
        exact trimRight_blank hb
    rw [Bool.eq_iff_iff, this, this, hxy]
  simp only [returns, hx, hy, hbody, hempty]
  split
  · exact .none
  · refine .some ⟨?_, rfl⟩
    rw [words_trim, words_trim, hxy]

theorem rel_returns? (h : Indented t t') :
    Option.Rel Doc.Returns.Alike (returns? t) (returns? t') := by
  have hread : ∀ (c : Char) (t : Text), c ≠ '@' → afterReturns? (c :: t) = none := by
    intro c t hc
    simp [afterReturns?, Text.after?, Ne.symm hc]
  rcases rel_cases (h.first? hread fun _ _ => rel_afterReturns?) with
    ⟨hx, hy⟩ | ⟨r, r', hx, hy, hr⟩
  · rw [returns?, returns?, hx, hy]
    exact .none
  · rw [returns?, returns?, hx, hy]
    exact rel_returns hr

end Entry

/-! ## Whole blocks -/

theorem Doc.alike_ofBlock (h : Indented t t') : Doc.Alike (Doc.ofBlock t) (Doc.ofBlock t') where
  title := Tag.title.value?_eq h
  description := Tag.description.value?_eq h
  remarks := Tag.remarks.value?_eq h
  circuitInfo := Tag.circuitInfo.value?_eq h
  params := by
    apply Indented.all _ (fun _ _ => Entry.rel_param?) h
    intro c t hc
    simp [Entry.params, Entry.param?, Text.after?, Ne.symm hc]
  throws := by
    apply Indented.all _ (fun _ _ => Entry.rel_throws?) h
    intro c t hc
    simp [Entry.throws, Entry.throws?, Text.after?, Ne.symm hc]
  returns := Entry.rel_returns? h

/-- A comment with blanks put at the ends of its lines documents the same. -/
theorem Doc.alike_ofComment {b : Filler} (h : Padded .pads b t t') :
    Doc.Alike (Doc.ofComment t) (Doc.ofComment t') :=
  Doc.alike_ofBlock (Comment.padded_plain h)

end CircuitDocs
