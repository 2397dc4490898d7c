import CircuitDocs.Proofs.Doc.Plain

/-! # Decorated bodies

A body is written into a comment line by line, each line behind a star of its own. The plain text
of the comment is the body again, to the last character. Only blanks at the two ends of the body
and at the ends of its lines could not come back, so a body has none there.
-/

namespace CircuitDocs.Comment

open Text

variable {ls : List Text} {comment : Text}

/-- The lines of a text that has no blanks at its front and its back, nor at the end of a line. -/
structure IsBody (ls : List Text) : Prop where
  ne_nil : ls ≠ []
  newline : ∀ l ∈ ls, '\n' ∉ l
  trailing : ∀ l ∈ ls, ∀ c ∈ l.getLast?, isBlank c = false
  first : ∀ l ∈ ls.head?, ∃ c r, l = c :: r ∧ isBlank c = false
  last : ∀ l ∈ ls.getLast?, l ≠ []

/-- A comment that holds the given lines, each behind a star, with any indentation and with blanks
around the whole. -/
inductive Decorated (ls : List Text) : Text → Prop where
  | mk {front back indent : Text} {ds : List Text} (hfront : blank front = true)
      (hback : blank back = true) (hindent : blank indent = true)
      (hlines : List.Forall₂ Starred ls ds) :
      Decorated ls (front ++ (unlines (opening :: (ds ++ [indent ++ closing])) ++ back))

namespace IsBody

theorem map_trimRight (h : IsBody ls) : ls.map trimRight = ls := by
  have htrim : ∀ l ∈ ls, trimRight l = l := fun l hl =>
    trimRight_eq_self_iff.mpr (h.trailing l hl)
  rw [List.map_congr_left htrim, List.map_id']

theorem trimLeft_unlines (h : IsBody ls) : trimLeft (unlines ls) = unlines ls := by
  obtain ⟨l, ls', rfl⟩ := List.exists_cons_of_ne_nil h.ne_nil
  obtain ⟨c, r, rfl, hc⟩ := h.first l rfl
  obtain ⟨v, hv⟩ := exists_unlines_cons (c :: r) ls'
  rw [hv]
  exact trimLeft_cons hc

theorem trimRight_unlines (h : IsBody ls) : trimRight (unlines ls) = unlines ls := by
  obtain ⟨ls', l, rfl⟩ := (List.eq_nil_or_concat' ls).resolve_left h.ne_nil
  obtain ⟨r, c, rfl⟩ := (List.eq_nil_or_concat' l).resolve_left (h.last l (by simp))
  have hc : isBlank c = false := h.trailing (r ++ [c]) (by simp) c (by simp)
  rw [unlines_concat_append, trimRight_concat hc]

theorem tidy_eq (h : IsBody ls) : tidy ls = unlines ls := by
  rw [tidy, h.map_trimRight, trim_eq_self h.trimLeft_unlines h.trimRight_unlines]

end IsBody

/-- A body is the plain text of every comment that it is decorated to. -/
theorem plain_decorated (hbody : IsBody ls) (h : Decorated ls comment) :
    plain comment = unlines ls := by
  obtain ⟨hfront, hback, hindent, hlines⟩ := h
  rw [plain_of_starred hfront hback hindent hbody.newline hlines, hbody.tidy_eq]

theorem plain_decorated_list :
    let body := ["* item", "", "/** x */", "   */ end"].map String.toList
    let comment := "\n/**\n\t* * item\n *\n* /** x */\n    *    */ end\n*/ \t".toList
    IsBody body ∧ Decorated body comment ∧ plain comment = unlines body := by
  intro body comment
  have htrim : ∀ l ∈ body, trimRight l = l := by decide
  have hbody : IsBody body :=
    ⟨by decide, by decide, fun l hl => trimRight_eq_self_iff.mp (htrim l hl),
      by simp [body, show isBlank '*' = false by decide], by decide⟩
  have hlines : List.Forall₂ Starred body
      (["\t* * item", " *", "* /** x */", "    *    */ end"].map String.toList) :=
    .cons (@Starred.spaced ['\t'] "* item".toList (by decide) (by decide)) <|
    .cons (@Starred.empty [' '] (by decide) (by decide)) <|
    .cons (@Starred.spaced [] "/** x */".toList (by decide) (by decide)) <|
    .cons (@Starred.spaced "    ".toList "   */ end".toList (by decide) (by decide)) .nil
  have hcomment : Decorated body comment :=
    @Decorated.mk body ['\n'] " \t".toList [] _ (by decide) (by decide) (by decide) hlines
  exact ⟨hbody, hcomment, plain_decorated hbody hcomment⟩

end CircuitDocs.Comment
