import CircuitDocs.Proofs.Circuit.Paren
import CircuitDocs.Proofs.Circuit.Record
import CircuitDocs.Proofs.Text.Words

/-! # How far a declaration reaches

The lines of a declaration, joined, are the part of the source from its first line on that ends
with the first line, at or after the one that closes the parameter list, that has a colon or a
brace. Read as one text this part is cut off character by character. It never ends inside the
parameter list, so the parameters are those of the whole rest of the source.
-/

namespace CircuitDocs

open Text Paren

namespace Signature

variable {s : Progress} {m : Bool} {c : Char} {t u : Text} {ls : List Text}

def mark (marked : Bool) (c : Char) : Bool := c ≠ '\n' && (marked || c = ':' || c = '{')

/-- The part of a text that a declaration reaches. `marked` tells whether the line has a colon or
a brace so far. -/
def reach : Progress → Bool → Text → Text
  | _, _, [] => []
  | s, marked, c :: t =>
    if c = '\n' && s.closed && marked then [] else c :: reach (s.step c) (mark marked c) t

theorem reach_append (h : reach s m u = u) (t : Text) :
    reach s m (u ++ t) = u ++ reach (s.read u) (u.foldl mark m) t := by
  induction u generalizing s m with
  | nil => rfl
  | cons c u ih =>
    rw [reach] at h
    split at h
    · simp at h
    · rename_i hc
      rw [List.cons_append, reach, if_neg hc, ih (List.cons.inj h).2]
      rfl

theorem reach_of_newline_not_mem (h : '\n' ∉ u) : reach s m u = u := by
  induction u generalizing s m with
  | nil => rfl
  | cons c u ih =>
    simp only [List.mem_cons, not_or] at h
    rw [reach, if_neg (by simp [Ne.symm h.1]), ih h.2]

theorem foldl_mark (h : '\n' ∉ u) : u.foldl mark m = (m || (':' ∈ u || '{' ∈ u)) := by
  induction u generalizing m with
  | nil => simp
  | cons c u ih =>
    simp only [List.mem_cons, not_or] at h
    rw [List.foldl_cons, ih h.2, mark]
    grind

theorem span_ne_nil (h : ls ≠ []) : span s ls ≠ [] := by
  obtain ⟨l, ls, rfl⟩ := List.exists_cons_of_ne_nil h
  rw [span]
  split <;> simp

/-- The lines of a declaration, joined, are what it reaches of its lines, joined. -/
theorem unlines_span (h : ∀ l ∈ ls, '\n' ∉ l) :
    unlines (span s ls) = reach s false (unlines ls) := by
  induction ls generalizing s with
  | nil => rfl
  | cons l ls ih =>
    rw [List.forall_mem_cons] at h
    have hl : ∀ t, reach s false (l ++ t) =
        l ++ reach (s.read l) (':' ∈ l || '{' ∈ l) t := by
      intro t
      rw [reach_append (reach_of_newline_not_mem h.1), foldl_mark h.1, Bool.false_or]
    cases ls with
    | nil =>
      rw [unlines_singleton, reach_of_newline_not_mem h.1, span]
      split <;> simp [span]
    | cons l' ls =>
      -- The break behind `l` is where `reach` asks what `span` asks of the line as a whole.
      have hstep : ∀ s : Progress, s.step '\n' = s := fun s => rfl
      rw [unlines_cons l (by simp), hl, span, reach, hstep]
      by_cases hend : (s.read l).endsAt l = true
      · rw [if_pos hend, if_pos (by simpa [Progress.endsAt] using hend)]
        simp
      · rw [if_neg hend, if_neg (by simpa [Progress.endsAt] using hend),
          unlines_cons l (span_ne_nil (by simp)), ih h.2]
        rfl

theorem Progress.step_of_open {d : Int} (h : ¬ (c = ')' ∧ d = 1)) :
    Progress.step ⟨d, false⟩ c = ⟨level d c, false⟩ := by
  by_cases ho : c = '('
  · simp [Progress.step, level, ho]
  · by_cases hc : c = ')'
    · have hd : d ≠ 1 := fun hd => h ⟨hc, hd⟩
      simp [Progress.step, level, hc, hd]
    · simp [Progress.step, level, ho, hc]

/-- A declaration reaches beyond the place where the depth falls to zero. What stands before that
place is read as a whole, and what stands behind it as far as the declaration reaches from there. -/
theorem split?_reach (d : Int) (m : Bool) (t : Text) :
    split? d (reach ⟨d, false⟩ m t) =
      (split? d t).map fun p => (p.1, reach ⟨0, true⟩ (p.1.foldl mark m) p.2) := by
  induction t generalizing d m with
  | nil => rfl
  | cons c t ih =>
    -- Nothing is cut off while the list is open; `step` and `split?` close it at the same place.
    rw [reach, if_neg (by simp), split?, split?]
    split
    · rename_i hc
      obtain ⟨rfl, rfl⟩ := hc
      have hmark : mark m ')' = m := by simp [mark]
      have hstep : Progress.step ⟨1, false⟩ ')' = ⟨0, true⟩ := rfl
      rw [hmark, hstep]
      rfl
    · rename_i hc
      rw [Progress.step_of_open hc, ih, Option.map_map, Option.map_map]
      rfl

theorem texts_of_heading {source line : Text} {before after : List Text} {heading : Heading}
    (hl : lines source = before ++ line :: after) (hh : Heading.ofLine? line = some heading) :
    ∃ head tail t, heading.Written head ∧ '(' ∉ head ∧ line = head ++ '(' :: tail ∧
      unlines (line :: after) = head ++ '(' :: t ∧
      unlines (span .start (line :: after)) = head ++ '(' :: reach .inside false t := by
  have hn : ∀ l ∈ line :: after, '\n' ∉ l := fun l hmem =>
    newline_not_mem_of_mem_lines (hl ▸ List.mem_append_right before hmem)
  obtain ⟨head, tail, hhead, rfl⟩ := Heading.exists_written hh
  have hopen : '(' ∉ head := hhead.not_mem (by decide) (by decide)
  have hclose : ')' ∉ head := hhead.not_mem (by decide) (by decide)
  have hcolon : ':' ∉ head := hhead.not_mem (by decide) (by decide)
  have hbrace : '{' ∉ head := hhead.not_mem (by decide) (by decide)
  have hrest : unlines ((head ++ '(' :: tail) :: after) =
      (head ++ ['(']) ++ unlines (tail :: after) := by
    rw [← unlines_append_cons]
    simp
  have hfront : '\n' ∉ head ++ ['('] := by
    have hline := hn _ List.mem_cons_self
    simp only [List.mem_append, List.mem_cons, not_or] at hline
    simp [hline.1]
  have hmark : (head ++ ['(']).foldl mark false = false := by
    rw [foldl_mark hfront]
    simp [hcolon, hbrace]
  refine ⟨head, tail, unlines (tail :: after), hhead, hopen, rfl, by simpa using hrest, ?_⟩
  rw [unlines_span hn, hrest, reach_append (reach_of_newline_not_mem hfront), hmark,
    Progress.read_head hopen hclose]
  simp

theorem ofText_of_split? {heading : Heading} {line : Int} {head inside after : Text}
    (hh : '(' ∉ head) (h : split? 1 t = some (inside, after)) :
    ofText heading line (head ++ '(' :: t) =
      ⟨heading.name, heading.exported, Parameter.ofList inside, returnTypeIn after, line⟩ := by
  rw [ofText, enclosed?_of_not_mem hh, h]

theorem ofText_of_split?_none {heading : Heading} {line : Int} {head : Text} (hh : '(' ∉ head)
    (h : split? 1 t = none) :
    ofText heading line (head ++ '(' :: t) =
      ⟨heading.name, heading.exported, [], noReturnType, line⟩ := by
  rw [ofText, enclosed?_of_not_mem hh, h]

end Signature

namespace Record

open Signature

/-- The first parenthesis of a declaration is the one behind its heading. Its match in the lines
that are read for the signature is its match in the whole rest of the source. So the parameters
are those between the two in the rest of the source; where there is no match, there are none, and
no return type. -/
theorem parameters_ofSource {source line : Text} {before after : List Text} {heading : Heading}
    (hl : lines source = before ++ line :: after) (hh : Heading.ofLine? line = some heading) :
    let buffer := unlines (span .start (line :: after))
    let rest := unlines (line :: after)
    ∃ head tail r, heading.Written head ∧ line = head ++ '(' :: tail ∧
      (∀ r', r' ∈ ofSource source ∧ r'.signature.line = before.length + 1 ↔ r' = r) ∧
      buffer.findIdx? (· = '(') = some head.length ∧
      match? buffer head.length = match? rest head.length ∧
      (∀ j, match? rest head.length = some j →
        r.signature.parameters = Parameter.ofList ((rest.take j).drop (head.length + 1))) ∧
      (match? rest head.length = none →
        r.signature.parameters = [] ∧ r.signature.returnType = noReturnType) := by
  intro buffer rest
  obtain ⟨head, tail, t, hhead, hopen, hline, hrest, hbuffer⟩ := texts_of_heading hl hh
  replace hrest : rest = head ++ '(' :: t := hrest
  replace hbuffer : buffer = head ++ '(' :: reach .inside false t := hbuffer
  have hreach : split? 1 (reach .inside false t) = _ := split?_reach 1 false t
  refine ⟨head, tail, ofHeading heading before.reverse (line :: after), hhead, hline,
    fun r' => mem_ofSource_iff hl hh, ?_, ?_, ?_⟩
  · rw [hbuffer, findIdx?_of_not_mem hopen]
  · rw [hbuffer, hrest, match?_append, match?_append, hreach, Option.map_map]
    rfl
  · have hsignature : (ofHeading heading before.reverse (line :: after)).signature =
        ofText heading (before.reverse.length + 1) buffer := signature_ofHeading _ _ _
    rw [hsignature, hbuffer, hrest, match?_append]
    cases hs : split? 1 t with
    | none =>
      rw [hs] at hreach
      rw [ofText_of_split?_none hopen hreach]
      simp
    | some p =>
      obtain ⟨inside, behind⟩ := p
      rw [hs] at hreach
      rw [ofText_of_split? hopen hreach]
      refine ⟨?_, by simp⟩
      rintro j hj
      obtain rfl := Option.some.inj hj
      rw [(take_drop_of_split? head hs).1]

/-- The lines that are read end with the one of the match, although the rest of the source goes on
with parentheses. -/
theorem parameters_ofSource_tail :
    let after := ["  B), c: C", ") ) \x7b (", "x)"].map String.toList
    let line := "export circuit f(a: (A,".toList
    let source := unlines ("/** */".toList :: line :: after)
    unlines (span .start (line :: after)) ≠ unlines (line :: after) ∧
      ∃ r ∈ ofSource source, r.signature.line = 2 ∧
        r.signature.parameters = Parameter.ofList "a: (A,\n  B), c: C\n".toList := by
  intro after line source
  refine ⟨by decide +kernel, ?_⟩
  obtain ⟨head, tail, r, -, -, hr, hfind, -, hmatch, -⟩ := @parameters_ofSource source line
    ["/** */".toList] after ⟨['f'], true⟩ (by decide +kernel) (by decide)
  obtain ⟨hmem, hline⟩ := (hr r).mpr rfl
  have hhead : some 16 = some head.length := Eq.trans (by decide +kernel) hfind
  rw [← Option.some.inj hhead] at hmatch
  exact ⟨r, hmem, hline, hmatch 35 (by decide +kernel)⟩

end Record

end CircuitDocs
