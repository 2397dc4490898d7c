import CircuitDocs.Proofs.Circuit.Reach

/-! # Return types over several lines

Where a colon stands on the line that closes the parameter list, or that line has neither a colon
nor a brace, a declaration reaches the end of the line of its colon. A return type that is written
on this line is read, wherever the other line breaks of the declaration are.
-/

namespace CircuitDocs

open Text Paren

namespace Signature

variable {s : Progress} {m : Bool} {t u w tail : Text}

def trailingLine (t : Text) : Text := t.rtakeWhile (· ≠ '\n')

theorem foldl_mark_of_trailingLine (h : ∀ c ∈ trailingLine t, c ≠ ':' ∧ c ≠ '{') :
    t.foldl mark false = false := by
  induction t using List.reverseRecOn with
  | nil => rfl
  | append_singleton t c ih =>
    rw [List.foldl_append, List.foldl_cons, List.foldl_nil, mark]
    by_cases hc : c = '\n'
    · simp [hc]
    · have hlast : trailingLine (t ++ [c]) = trailingLine t ++ [c] :=
        List.rtakeWhile_concat_pos _ _ _ (by simpa using hc)
      rw [hlast, List.forall_mem_append] at h
      have hmark := h.2 c (by simp)
      simp [ih h.1, hmark.1, hmark.2]

theorem reach_blank (hw : blank w = true) : reach s false w = w := by
  induction w generalizing s with
  | nil => rfl
  | cons c w ih =>
    rw [blank_cons, Bool.and_eq_true] at hw
    have hmark : mark false c = false := by
      have hcolon : c ≠ ':' := by rintro rfl; exact absurd hw.1 (by decide)
      have hbrace : c ≠ '{' := by rintro rfl; exact absurd hw.1 (by decide)
      simp [mark, hcolon, hbrace]
    rw [reach, if_neg (by simp), hmark, ih hw.2]

theorem reach_marked (hs : s.closed = true) : reach s true t = t.takeWhile (· ≠ '\n') := by
  induction t generalizing s with
  | nil => rfl
  | cons c t ih =>
    by_cases hc : c = '\n'
    · simp [reach, hc, hs]
    · have hstep : (s.step c).closed = true := Progress.closed_read (w := [c]) hs
      have hmark : mark true c = true := by simp [mark, hc]
      rw [reach, if_neg (by simp [hc]), hmark, ih hstep, List.takeWhile_cons_of_pos (by simp [hc])]

theorem reach_colon (hs : s.closed = true) (hw : blank w = true) (h : '\n' ∉ w ∨ m = false)
    (t : Text) : reach s m (w ++ ':' :: t) = w ++ ':' :: t.takeWhile (· ≠ '\n') := by
  have hpass : reach s m w = w := by
    rcases h with h | rfl
    · exact reach_of_newline_not_mem h
    · exact reach_blank hw
  have hmark : ∀ m, mark m ':' = true := by simp [mark]
  rw [reach_append hpass, reach, if_neg (by simp), hmark, reach_marked]
  exact Progress.closed_read (w := [':']) (Progress.closed_read hs)

theorem takeWhile_ne_append {c : Char} (h : c ∉ t) (r : Text) :
    (t ++ r).takeWhile (· ≠ c) = t ++ r.takeWhile (· ≠ c) := by
  refine List.takeWhile_append_of_pos fun d hd => decide_eq_true ?_
  rintro rfl
  exact h hd

/-- A return type between a colon and a brace is what stands there on the line of the colon, when
nothing but blanks is there on the lines below. -/
theorem returnTypeIn_line {type v : Text} (hw : blank w = true) (hbrace : '{' ∉ type)
    (htype : type = u ++ v) (hu : '\n' ∉ u) (hv : blank v = true) (hne : blank type = false) :
    returnTypeIn (w ++ ':' :: (type ++ '{' :: tail).takeWhile (· ≠ '\n')) = collapse type := by
  have htrim : ∀ x, trimLeft (w ++ ':' :: x) = ':' :: x := by
    intro x
    rw [trimLeft_append_blank hw, trimLeft_cons (by decide)]
  have htake : ((type ++ '{' :: tail).takeWhile (· ≠ '\n')).takeWhile (· ≠ '{') =
      u ++ v.takeWhile (· ≠ '\n') := by
    -- The line ends before or behind the brace; cutting at the brace first treats both alike.
    have hcomm : ∀ x : Text, (x.takeWhile (· ≠ '\n')).takeWhile (· ≠ '{') =
        (x.takeWhile (· ≠ '{')).takeWhile (· ≠ '\n') := by
      intro x
      rw [List.takeWhile_takeWhile, List.takeWhile_takeWhile]
      simp only [and_comm]
    rw [hcomm, takeWhile_ne_append hbrace, List.takeWhile_cons_of_neg (by decide),
      List.append_nil, htype, takeWhile_ne_append hu]
  have hcut : blank (v.takeWhile (· ≠ '\n')) = true :=
    blank_iff.mpr fun c hc => blank_iff.mp hv c ((List.takeWhile_prefix _).subset hc)
  have hwords : collapse (u ++ v.takeWhile (· ≠ '\n')) = collapse type := by
    apply collapse_congr
    rw [htype, words_append_blank hcut, words_append_blank hv]
  have hnil : collapse type ≠ [] := by
    rw [ne_eq, collapse_eq_nil_iff, words_eq_nil_iff, hne]
    decide
  obtain ⟨c, x, hx⟩ := List.exists_cons_of_ne_nil hnil
  simp only [returnTypeIn, htrim, htake, hwords, hx]

end Signature

namespace Record

open Signature

/-- The return type of a declaration is what stands between the colon behind the parameter list and
the next brace, collapsed. The parameters and the blanks around them may be on any lines. The colon
stands on the line that closes the parameter list, or else this line has no colon and no brace; and
the type stands on the line of its colon. -/
theorem returnType_ofSource {source line inside w type tail : Text} {before after : List Text}
    {heading : Heading} (hl : lines source = before ++ line :: after)
    (hh : Heading.ofLine? line = some heading)
    (hrest : enclosed? (unlines (line :: after)) =
      some (inside, w ++ ':' :: (type ++ '{' :: tail)))
    (hw : blank w = true) (hbrace : '{' ∉ type) (hne : blank type = false)
    (hclose : '\n' ∉ w ∨ ∀ c ∈ trailingLine inside, c ≠ ':' ∧ c ≠ '{')
    (htype : ∃ u v, type = u ++ v ∧ '\n' ∉ u ∧ blank v = true) :
    ∃ r, (∀ r', r' ∈ ofSource source ∧ r'.signature.line = before.length + 1 ↔ r' = r) ∧
      r.signature.returnType = collapse type := by
  obtain ⟨head, _, t, -, hopen, -, htext, hbuffer⟩ := texts_of_heading hl hh
  obtain ⟨u, v, he, hu, hv⟩ := htype
  have hmarked : '\n' ∉ w ∨ inside.foldl mark false = false :=
    hclose.imp_right foldl_mark_of_trailingLine
  have hreach : split? 1 (reach .inside false t) =
      some (inside, w ++ ':' :: (type ++ '{' :: tail).takeWhile (· ≠ '\n')) := by
    rw [htext, enclosed?_of_not_mem hopen] at hrest
    rw [Progress.inside, split?_reach, hrest, Option.map_some, reach_colon rfl hw hmarked]
  refine ⟨ofHeading heading before.reverse (line :: after), fun r' => mem_ofSource_iff hl hh, ?_⟩
  rw [signature_ofHeading, hbuffer, ofText_of_split? hopen hreach]
  exact returnTypeIn_line hw hbrace he hu hv hne

theorem returnType_ofSource_column :
    let source := unlines (["circuit f(", "  a: (A,", "  B)", ")", "", "  : Either<A,  B> ", "\x7b",
      "\x7d"].map String.toList)
    ∃ r ∈ ofSource source, r.signature.returnType = "Either<A, B>".toList := by
  intro source
  have hclose : trailingLine "\n  a: (A,\n  B)\n".toList = [] := by decide
  obtain ⟨r, hr, htype⟩ := @returnType_ofSource source "circuit f(".toList
    "\n  a: (A,\n  B)\n".toList "\n\n  ".toList " Either<A,  B> \n".toList "\n\x7d".toList []
    (["  a: (A,", "  B)", ")", "", "  : Either<A,  B> ", "\x7b", "\x7d"].map String.toList)
    ⟨['f'], false⟩ (by decide +kernel) (by decide +kernel) (by decide +kernel) (by decide)
    (by decide) (by decide) (Or.inr (hclose ▸ by simp))
    ⟨" Either<A,  B>".toList, " \n".toList, by decide⟩
  exact ⟨r, ((hr r).mpr rfl).1, htype⟩

/-- A return type that goes on below the line of its colon is cut off there, and one with its colon
below a parameter list that ends on a line with a colon is not seen. -/
theorem returnType_cut :
    (enclosed? "circuit f(): Either<A,\n  B> \x7b".toList =
        some ([], [] ++ ':' :: (" Either<A,\n  B> ".toList ++ '{' :: [])) ∧
      collapse " Either<A,\n  B> ".toList = "Either<A, B>".toList ∧
      ∃ r ∈ ofSource "circuit f(): Either<A,\n  B> \x7b".toList, r.signature.line = 1 ∧
        r.signature.returnType = "Either<A,".toList) ∧
    (enclosed? "circuit f(a: T)\n  : R \x7b".toList =
        some ("a: T".toList, "\n  ".toList ++ ':' :: (" R ".toList ++ '{' :: [])) ∧
      collapse " R ".toList = "R".toList ∧
      ∃ r ∈ ofSource "circuit f(a: T)\n  : R \x7b".toList, r.signature.line = 1 ∧
        r.signature.returnType = "[]".toList) := by
  decide +kernel

end Record

end CircuitDocs
