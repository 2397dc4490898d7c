import CircuitDocs.Proofs.Doc.Section
import CircuitDocs.Proofs.Text.Padded
import CircuitDocs.Doc.Entry

/-! # Padded comments

The plain text of a comment has lost the blanks at the ends of its lines, and those before stars.
What is left of a padding are pads in front of lines without a star. The readers meet pads after a
line break only where they skip them, or in a text that is collapsed or kept as a type. So a padded
comment documents the same, but for blanks inside types.
-/

namespace CircuitDocs

open Text Filler

variable {f b : Filler} {t t' l l' : Text}

/-! ## Plain text -/

namespace Comment

theorem padded_unclosed (h : Padded f b t t') : Padded f b (unclosed t) (unclosed t') := by
  rcases rel_cases (h.before? (w := closing) (by decide)) with ⟨hx, hy⟩ | ⟨r, r', hx, hy, hr⟩
  · rw [unclosed, unclosed, hx, hy]
    exact h
  · rw [unclosed, unclosed, hx, hy]
    exact hr.trimRight

theorem bare_of_blank (hl : blank l = true) : bare l = l := by
  rw [bare, trimLeft_eq_nil_iff.mpr hl]

theorem bare_of_ne {c : Char} {s : Text} (hl : trimLeft l = c :: s) (hc : c ≠ '*') :
    bare l = l := by
  rw [bare, hl]
  split <;> simp_all

theorem paddedLine_trimRight (h : PaddedLine f b l l') :
    PaddedLine f .nothing (trimRight l) (trimRight l') := by
  obtain ⟨u, v, hu, hv, rfl⟩ := h
  cases hl : blank l with
  | true =>
    refine ⟨[], [], run_nil, run_nil, ?_⟩
    rw [trimRight_blank hl, trimRight_blank (by simp [hu.blank, hv.blank, hl])]
    rfl
  | false =>
    refine ⟨u, [], hu, run_nil, ?_⟩
    rw [← List.append_assoc, trimRight_append_blank hv.blank, trimRight_append hl, List.append_nil]

theorem paddedLine_bare (h : PaddedLine f b l l') :
    PaddedLine f .nothing (trimRight (bare l)) (trimRight (bare l')) := by
  have same : trimRight (bare l') = trimRight (bare l) →
      PaddedLine f .nothing (trimRight (bare l)) (trimRight (bare l')) := by
    intro he
    exact ⟨[], [], run_nil, run_nil, by simpa using he⟩
  cases hl : blank l with
  | true =>
    rw [bare_of_blank hl, bare_of_blank (h.blank_eq.trans hl)]
    exact paddedLine_trimRight h
  | false =>
    have hp := paddedLine_trimRight h
    obtain ⟨u, v, hu, hv, rfl⟩ := h
    have hleft : trimLeft (u ++ (l ++ v)) = trimLeft l ++ v := by
      rw [trimLeft_append_blank hu.blank, trimLeft_append hl]
    have hne : trimLeft l ≠ [] := by simp [trimLeft_eq_nil_iff, hl]
    obtain ⟨c, s, hs⟩ := List.exists_cons_of_ne_nil hne
    rw [hs] at hleft
    by_cases hc : c = '*'
    · subst hc
      apply same
      cases s with
      | nil =>
        cases v with
        | nil => rw [bare, bare, hs, hleft]; rfl
        | cons d v =>
          have hd := b.blank d (hv d (by simp))
          have hblank : blank v = true := by simpa [hd] using hv.blank
          simp only [bare, hs, hleft, List.singleton_append, hd, if_true]
          exact trimRight_blank hblank
      | cons d s =>
        simp only [bare, hs, hleft, List.cons_append]
        split
        · exact trimRight_append_blank hv.blank
        · rw [← List.cons_append, trimRight_append_blank hv.blank]
    · rw [bare_of_ne hs hc, bare_of_ne hleft hc]
      exact hp

theorem padded_tidy {ls ls' : List Text}
    (h : List.Forall₂ (PaddedLine f .nothing) (ls.map trimRight) (ls'.map trimRight)) :
    Padded f .nothing (tidy ls) (tidy ls') := by
  obtain ⟨u, t, v, hu, hv, he, ht⟩ := exists_padded_unlines h
  rw [tidy, tidy, he, trim_blank_append hu.blank, trim_append_blank hv.blank]
  exact ht.trim

/-- The plain text of a padded comment is padded in front of its lines at most. -/
theorem padded_plain (h : Padded f b t t') : Padded f .nothing (plain t) (plain t') := by
  rcases rel_cases (h.trim.after? (w := opening) (by decide)) with
    ⟨hx, hy⟩ | ⟨r, r', hx, hy, hr⟩
  · rw [plain, plain, hx, hy]
    apply padded_tidy
    rw [List.forall₂_map_left_iff, List.forall₂_map_right_iff]
    exact h.trim.forall₂_lines.imp fun _ _ => paddedLine_trimRight
  · rw [plain, plain, hx, hy]
    apply padded_tidy
    simp only [List.map_map, List.forall₂_map_left_iff, List.forall₂_map_right_iff]
    exact (padded_unclosed hr.trimLeft).forall₂_lines.imp fun _ _ => paddedLine_bare

end Comment

/-! ## Sections -/

/-- The second text is the first with pads put in front of some of its lines. -/
abbrev Indented : Text → Text → Prop := Padded .pads .nothing

namespace Indented

variable {opens : Text → Bool}

theorem stops_isPad : Padded.Stops .nothing isPad :=
  ⟨by decide, fun c hc => absurd hc (by simp [nothing])⟩

theorem dropWhile_isPad {u : Text} (hu : Filler.pads.Run u) (t : Text) :
    (u ++ t).dropWhile isPad = t.dropWhile isPad :=
  List.dropWhile_append_of_pos hu

theorem sectionEnds_newline (h : Indented t t')
    (hopens : ∀ r r', Indented r r' → opens r' = opens r) :
    sectionEnds opens ('\n' :: t') = sectionEnds opens ('\n' :: t) := by
  have hd := h.dropWhile stops_isPad
  simp only [sectionEnds]
  generalize t.dropWhile isPad = x, t'.dropWhile isPad = y at hd
  cases hd with
  | nil => rfl
  | @cons c r r' hr =>
    have hr := hopens r r' hr
    split <;> split <;> simp_all
  | newline hu hv hr =>
    rw [hv.eq_nil]
    rfl

theorem sectionEnds_eq (h : Indented t t')
    (hopens : ∀ r r', Indented r r' → opens r' = opens r) :
    sectionEnds opens t' = sectionEnds opens t := by
  cases h with
  | nil => rfl
  | cons c h =>
    by_cases hc : c = '\n'
    · subst hc
      exact sectionEnds_newline h hopens
    · rw [sectionEnds_eq_false hc, sectionEnds_eq_false hc]
  | @newline u v t s hu hv h =>
    have hskip : sectionEnds opens ('\n' :: (u ++ s)) = sectionEnds opens ('\n' :: s) := by
      simp only [sectionEnds, dropWhile_isPad hu]
    rw [hv.eq_nil, List.nil_append, hskip]
    exact sectionEnds_newline h hopens

theorem takeUntil (h : Indented t t') (hopens : ∀ r r', Indented r r' → opens r' = opens r) :
    Indented (takeUntil (sectionEnds opens) t) (takeUntil (sectionEnds opens) t') := by
  induction h with
  | nil => exact .nil
  | cons c h ih =>
    rw [Text.takeUntil, Text.takeUntil, sectionEnds_eq (.cons c h) hopens]
    split
    · exact .nil
    · exact .cons c ih
  | @newline u v t s hu hv h ih =>
    have hends := sectionEnds_eq (.newline hu hv h) hopens
    have hskip : Text.takeUntil (sectionEnds opens) (u ++ s) =
        u ++ Text.takeUntil (sectionEnds opens) s :=
      (unbroken_of_not_mem hu.newline_not_mem).takeUntil_append
    obtain rfl := hv.eq_nil
    rw [List.nil_append] at hends ⊢
    rw [Text.takeUntil, Text.takeUntil, hends, hskip]
    split
    · exact .nil
    · exact .newline (v := []) hu hv ih

theorem dropUntil (h : Indented t t') (hopens : ∀ r r', Indented r r' → opens r' = opens r) :
    Indented (dropUntil (sectionEnds opens) t) (dropUntil (sectionEnds opens) t') := by
  induction h with
  | nil => exact .nil
  | cons c h ih =>
    rw [Text.dropUntil, Text.dropUntil, sectionEnds_eq (.cons c h) hopens]
    split
    · exact .cons c h
    · exact ih
  | @newline u v t s hu hv h ih =>
    have hends := sectionEnds_eq (.newline hu hv h) hopens
    have hskip : Text.dropUntil (sectionEnds opens) (u ++ s) =
        Text.dropUntil (sectionEnds opens) s :=
      (unbroken_of_not_mem hu.newline_not_mem).dropUntil_append
    obtain rfl := hv.eq_nil
    rw [List.nil_append] at hends ⊢
    rw [Text.dropUntil, Text.dropUntil, hends, hskip]
    split
    · exact .newline (v := []) hu hv h
    · exact ih

theorem sectionBody (h : Indented t t') : Indented (sectionBody t) (sectionBody t') :=
  h.takeUntil fun _ _ _ => rfl

theorem sectionRest (h : Indented t t') : Indented (sectionRest t) (sectionRest t') :=
  h.dropUntil fun _ _ _ => rfl

theorem wordEnds_eq (h : Indented t t') : wordEnds t' = wordEnds t := by
  cases h with
  | nil => rfl
  | cons c h => rfl
  | newline hu hv h =>
    rw [hv.eq_nil]
    rfl

/-! ## Runs of a reader -/

theorem at_not_mem {u : Text} (hu : Filler.pads.Run u) : '@' ∉ u := hu.not_mem (by decide)

theorem first? {α : Type} {read : Text → Option α} {S : α → α → Prop}
    (hread : ∀ c t, c ≠ '@' → read (c :: t) = none)
    (hrel : ∀ t t', Indented t t' → Option.Rel S (read t) (read t')) (h : Indented t t') :
    Option.Rel S (Text.first? read t) (Text.first? read t') := by
  induction h with
  | nil => exact hrel _ _ .nil
  | cons c h ih =>
    rcases rel_cases (hrel _ _ (.cons c h)) with ⟨hx, hy⟩ | ⟨x, y, hx, hy, hxy⟩
    · rw [first?_cons_of_none hx, first?_cons_of_none hy]
      exact ih
    · rw [first?_of_some hx, first?_of_some hy]
      exact .some hxy
  | newline hu hv h ih =>
    have hbreak : '\n' ≠ '@' := by decide
    rw [hv.eq_nil, List.nil_append, first?_cons_of_none (hread _ _ hbreak),
      first?_cons_of_none (hread _ _ hbreak), first?_append_of_not_mem hread (at_not_mem hu)]
    exact ih

theorem all {α : Type} {R : Reader α} {S : α → α → Prop}
    (hread : ∀ c t, c ≠ '@' → R.read (c :: t) = none)
    (hrel : ∀ t t', Indented t t' →
      Option.Rel (fun x y => S x.1 y.1 ∧ Indented x.2 y.2) (R.read t) (R.read t'))
    (h : Indented t t') : List.Forall₂ S (R.all t) (R.all t') := by
  induction hn : t.length using Nat.strong_induction_on generalizing t t' with
  | _ n ih =>
    subst hn
    cases h with
    | nil =>
      rw [R.all_nil]
      exact .nil
    | cons c h =>
      rcases rel_cases (hrel _ _ (.cons c h)) with ⟨hx, hy⟩ | ⟨⟨x, r⟩, ⟨y, r'⟩, hx, hy, hxy, hr⟩
      · rw [R.all_cons_of_none hx, R.all_cons_of_none hy]
        exact ih _ (by simp) h rfl
      · rw [R.all_of_some hx, R.all_of_some hy]
        exact .cons hxy (ih _ (R.shorter hx) hr rfl)
    | newline hu hv h =>
      have hbreak : '\n' ≠ '@' := by decide
      rw [hv.eq_nil, List.nil_append, R.all_cons_of_none (hread _ _ hbreak),
        R.all_cons_of_none (hread _ _ hbreak), R.all_append_of_not_mem hread (at_not_mem hu)]
      exact ih _ (by simp) h rfl

end Indented

end CircuitDocs
