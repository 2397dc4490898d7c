import CircuitDocs.Proofs.Circuit.DocBlock
import CircuitDocs.Circuit.Record

/-! # Records line by line

What one declaration line adds to the records, and how the lines that declare nothing are passed.
-/

namespace CircuitDocs

open Text

@[simp] theorem Signature.line_ofText (heading : Heading) (line : Int) (t : Text) :
    (Signature.ofText heading line t).line = line := by
  unfold Signature.ofText
  split <;> rfl

@[simp] theorem Signature.name_ofText (heading : Heading) (line : Int) (t : Text) :
    (Signature.ofText heading line t).name = heading.name := by
  unfold Signature.ofText
  split <;> rfl

@[simp] theorem Signature.exported_ofText (heading : Heading) (line : Int) (t : Text) :
    (Signature.ofText heading line t).exported = heading.exported := by
  unfold Signature.ofText
  split <;> rfl

theorem Doc.ofComment_nil : Doc.ofComment [] = {} := by
  have h : Comment.plain [] = [] := by decide
  rw [Doc.ofComment, h]
  simp [Doc.ofBlock, Tag.value?, first?, Tag.after?, Reader.all, Entry.returns?,
    Entry.afterReturns?, after?]

namespace Record

variable {heading : Heading} {above below rest : List Text}

@[simp] theorem signature_ofHeading (heading : Heading) (above below : List Text) :
    (ofHeading heading above below).signature =
      Signature.ofText heading (above.length + 1) (unlines (Signature.span .start below)) := by
  unfold ofHeading
  split <;> rfl

theorem ofHeading_of_cut {gap inner rest : List Text} {first : Text}
    (h : DocBlock.Cut above gap first inner rest) :
    ofHeading heading above below =
      { signature := Signature.ofText heading (above.length + 1)
          (unlines (Signature.span .start below))
        comment := trim (unlines (first :: inner))
        doc := Doc.ofComment (trim (unlines (first :: inner)))
        documented := true
        firstLine := rest.length + 1
        lastLine := rest.length + inner.length + 1 } := by
  have hl : above.length = gap.length + inner.length + 1 + rest.length := by
    have := congrArg List.length h.eq
    simp only [List.length_append, List.length_reverse, List.length_cons] at this
    omega
  rw [ofHeading, DocBlock.above?_eq_some_iff.mpr ⟨gap, first, inner, rest, h, rfl⟩]
  simp only [DocBlock.text, List.length_cons, Record.mk.injEq, true_and]
  omega

theorem ofHeading_of_none (h : DocBlock.above? above = none) :
    ofHeading heading above below =
      { signature := Signature.ofText heading (above.length + 1)
          (unlines (Signature.span .start below))
        comment := []
        doc := {}
        documented := false
        firstLine := above.length + 1
        lastLine := above.length + 1 } := by
  rw [ofHeading, h]

theorem cut_or_none (above : List Text) :
    (∃ gap first inner rest, DocBlock.Cut above gap first inner rest) ∨
      DocBlock.above? above = none := by
  cases h : DocBlock.above? above with
  | none => exact Or.inr rfl
  | some b =>
    obtain ⟨gap, first, inner, rest, hcut, -⟩ := DocBlock.above?_eq_some_iff.mp h
    exact Or.inl ⟨gap, first, inner, rest, hcut⟩

theorem ofLines_cons_of_not_declares {line : Text} (h : declares line = false) :
    ofLines above (line :: rest) = ofLines (line :: above) rest := by
  have hn : Heading.ofLine? line = none := by simpa [declares] using h
  rw [ofLines, hn]

theorem ofLines_append_of_not_declares {ls : List Text} (h : ∀ l ∈ ls, declares l = false) :
    ofLines above (ls ++ rest) = ofLines (ls.reverse ++ above) rest := by
  induction ls generalizing above with
  | nil => rfl
  | cons l ls ih =>
    rw [List.cons_append, ofLines_cons_of_not_declares (h l (by simp)),
      ih fun l hl => h l (by simp [hl])]
    simp

theorem exists_line_of_mem_ofLines {r : Record} (h : r ∈ ofLines above rest) :
    ∃ pre line post heading, rest = pre ++ line :: post ∧ Heading.ofLine? line = some heading ∧
      r = ofHeading heading (pre.reverse ++ above) (line :: post) := by
  induction rest generalizing above with
  | nil => simp [ofLines] at h
  | cons line rest ih =>
    have later : r ∈ ofLines (line :: above) rest → ∃ pre line' post heading,
        line :: rest = pre ++ line' :: post ∧ Heading.ofLine? line' = some heading ∧
          r = ofHeading heading (pre.reverse ++ above) (line' :: post) := by
      intro h
      obtain ⟨pre, line', post, heading, rfl, hh, hr⟩ := ih h
      exact ⟨line :: pre, line', post, heading, rfl, hh, by simpa using hr⟩
    rw [ofLines] at h
    split at h
    · rename_i heading hh
      rcases List.mem_cons.mp h with rfl | h
      · exact ⟨[], line, rest, heading, rfl, hh, rfl⟩
      · exact later h
    · exact later h

theorem ofHeading_mem_ofLines {line : Text} {pre post : List Text}
    (hh : Heading.ofLine? line = some heading) :
    ofHeading heading (pre.reverse ++ above) (line :: post) ∈
      ofLines above (pre ++ line :: post) := by
  induction pre generalizing above with
  | nil => simp [ofLines, hh]
  | cons l pre ih =>
    have hlater := @ih (l :: above)
    rw [List.cons_append, ofLines, List.reverse_cons, List.append_assoc]
    split
    · exact List.mem_cons_of_mem _ hlater
    · exact hlater

/-- The declaration at a line has one record, and no other record has its line. -/
theorem mem_ofSource_iff {source line : Text} {before after : List Text} {r : Record}
    (hl : lines source = before ++ line :: after) (hh : Heading.ofLine? line = some heading) :
    r ∈ ofSource source ∧ r.signature.line = before.length + 1 ↔
      r = ofHeading heading before.reverse (line :: after) := by
  constructor
  · rintro ⟨hr, hline⟩
    obtain ⟨pre, line', post, heading', hl', hh', rfl⟩ := exists_line_of_mem_ofLines hr
    rw [signature_ofHeading, Signature.line_ofText, List.append_nil, List.length_reverse] at hline
    rw [hl] at hl'
    obtain ⟨rfl, hrest⟩ := List.append_inj hl' (by omega)
    obtain ⟨rfl, rfl⟩ := List.cons.inj hrest
    rw [hh] at hh'
    rw [Option.some.inj hh', List.append_nil]
  · rintro rfl
    refine ⟨?_, by simp⟩
    have hmem : ofHeading heading (before.reverse ++ []) (line :: after) ∈
        ofLines [] (before ++ line :: after) := ofHeading_mem_ofLines hh
    rwa [List.append_nil, ← hl] at hmem

end Record

end CircuitDocs
