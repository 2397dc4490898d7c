import CircuitDocs.Proofs.Circuit.Record
import CircuitDocs.Proofs.Text.Words

/-! # Sources one below the other

A record looks down as far as its signature reaches and up as far as its block does. When every
signature of the upper source ends in it and its last lines leave no block open, the records of
two sources put one below the other do not see each other.
-/

namespace CircuitDocs

open Text

namespace Signature

variable {s : Progress} {ls : List Text}

/-- Whether one of the lines ends the declaration that was read up to the state `s`. -/
def EndsWithin (s : Progress) (ls : List Text) : Prop :=
  ∃ before line after, ls = before ++ line :: after ∧
    ((before ++ [line]).foldl Progress.read s).endsAt line = true

theorem EndsWithin.span_append (h : EndsWithin s ls) (rest : List Text) :
    span s (ls ++ rest) = span s ls := by
  induction ls generalizing s with
  | nil =>
    obtain ⟨before, line, after, he, -⟩ := h
    simp at he
  | cons l ls ih =>
    rw [List.cons_append, span, span]
    split
    · rfl
    · rename_i hl
      obtain ⟨before, line, after, he, hend⟩ := h
      cases before with
      | nil =>
        obtain ⟨rfl, rfl⟩ := List.cons.inj he
        exact absurd hend hl
      | cons l' before =>
        obtain ⟨rfl, rfl⟩ := List.cons.inj he
        rw [ih ⟨before, line, after, rfl, hend⟩]

end Signature

namespace DocBlock

variable {above as : List Text}

/-- Whether the nearest line that declares a circuit or opens a comment, if there is one, does not
open a documentation comment. -/
def Shut (above : List Text) : Prop :=
  ∀ l, above.find? (fun l => declares l || opensComment l) = some l → opensDoc l = false

instance (above : List Text) : Decidable (Shut above) :=
  inferInstanceAs (Decidable (∀ l ∈ above.find? (fun l => declares l || opensComment l),
    opensDoc l = false))

theorem Shut.climb_eq_none (h : Shut above) : climb above = none := by
  induction above with
  | nil => rfl
  | cons l above ih =>
    rw [climb]
    cases hl : declares l || opensComment l with
    | true =>
      have hd : opensDoc l = false := h l (by simp only [List.find?_cons, hl])
      rw [Bool.or_comm] at hl
      simp [hd, hl]
    | false =>
      obtain ⟨hdecl, hopen⟩ := Bool.or_eq_false_iff.mp hl
      have hd : opensDoc l = false := by
        cases hd : opensDoc l with
        | false => rfl
        | true => exact absurd (opensComment_of_opensDoc hd) (by simp [hopen])
      have habove : Shut above := fun l' hl' => h l' (by simp only [List.find?_cons, hl, hl'])
      simp [hd, hdecl, hopen, ih habove]

theorem Shut.dropWhile_blank (h : Shut above) : Shut (above.dropWhile blank) := by
  induction above with
  | nil => exact h
  | cons l above ih =>
    rw [List.dropWhile_cons]
    split
    · rename_i hb
      have hn : (declares l || opensComment l) = false := by
        refine Bool.or_eq_false_iff.mpr ⟨not_declares_of_blank hb, ?_⟩
        cases ho : opensComment l with
        | false => rfl
        | true =>
          obtain ⟨t, ht⟩ := head_of_opensComment ho
          rw [trimLeft_eq_nil_iff.mpr hb] at ht
          exact absurd ht (by simp)
      exact ih fun l' hl' => h l' (by simp only [List.find?_cons, hn, hl'])
    · exact h

theorem climb_append (h : climb above = none) (as : List Text) :
    climb (as ++ above) = climb as := by
  induction as with
  | nil => exact h
  | cons l as ih => rw [List.cons_append, climb, climb, ih]

theorem Shut.above?_append (h : Shut above) (as : List Text) :
    above? (as ++ above) = above? as := by
  cases hd : as.dropWhile blank with
  | nil =>
    have hblank : ∀ l ∈ as, blank l = true := List.dropWhile_eq_nil_iff.mp hd
    have hnone := h.dropWhile_blank.climb_eq_none
    rw [above?, above?, hd, List.dropWhile_append_of_pos hblank]
    split
    · rfl
    · rename_i last rest he
      rw [he] at hnone
      simp [hnone]
  | cons last rest =>
    have htake : (as ++ above).takeWhile blank = as.takeWhile blank := by
      rw [List.takeWhile_append, if_neg]
      intro hlen
      have hsplit := congrArg List.length (List.takeWhile_append_dropWhile (p := blank) (l := as))
      rw [List.length_append, hd, List.length_cons] at hsplit
      omega
    rw [above?, above?, hd, List.dropWhile_append, hd, htake]
    have hc := climb_append h.climb_eq_none (last :: rest)
    simp only [List.cons_append] at hc
    simp only [List.isEmpty_cons, Bool.false_eq_true, if_false, List.cons_append, hc]

end DocBlock

theorem Signature.ofText_add (heading : Heading) (line n : Int) (t : Text) :
    ofText heading (line + n) t =
      { ofText heading line t with line := (ofText heading line t).line + n } := by
  unfold ofText
  split <;> rfl

namespace Record

variable {above as ls : List Text}

def moved (n : Nat) (r : Record) : Record :=
  { r with
    signature := { r.signature with line := r.signature.line + n }
    firstLine := r.firstLine + n
    lastLine := r.lastLine + n }

theorem ofHeading_append (h : DocBlock.Shut above) (heading : Heading) (as below : List Text) :
    ofHeading heading (as ++ above) below =
      (ofHeading heading as below).moved above.length := by
  have hline : ((as ++ above).length + 1 : Int) = as.length + 1 + above.length := by
    rw [List.length_append]
    omega
  rw [ofHeading, ofHeading, h.above?_append]
  simp only [hline]
  cases DocBlock.above? as with
  | none => simp [moved, Signature.ofText_add]
  | some b =>
    simp only [moved, Signature.ofText_add, Record.mk.injEq, true_and]
    omega

/-- The records below lines that leave no block open are those of a source of their own, moved
down by the number of these lines. -/
theorem ofLines_append_above (h : DocBlock.Shut above) (as ls : List Text) :
    ofLines (as ++ above) ls = (ofLines as ls).map (moved above.length) := by
  induction ls generalizing as with
  | nil => rfl
  | cons l ls ih =>
    have ih' := ih (l :: as)
    rw [List.cons_append] at ih'
    rw [ofLines, ofLines]
    cases Heading.ofLine? l with
    | none => exact ih'
    | some heading => exact congrArg₂ List.cons (ofHeading_append h heading as (l :: ls)) ih'

theorem ofLines_append_below
    (h : ∀ before line after, ls = before ++ line :: after → declares line = true →
      Signature.EndsWithin .start (line :: after)) (above rest : List Text) :
    ofLines above (ls ++ rest) = ofLines above ls ++ ofLines (ls.reverse ++ above) rest := by
  induction ls generalizing above with
  | nil => rfl
  | cons l ls ih =>
    have hls : ∀ before line after, ls = before ++ line :: after → declares line = true →
        Signature.EndsWithin .start (line :: after) := by
      rintro before line after rfl
      exact h (l :: before) line after rfl
    have ih' := ih hls (l :: above)
    rw [List.cons_append, ofLines, ofLines, List.reverse_cons, List.append_assoc]
    cases hh : Heading.ofLine? l with
    | none => exact ih'
    | some heading =>
      have hspan := (h [] l ls rfl (by simp [declares, hh])).span_append rest
      have hhead : ofHeading heading above (l :: (ls ++ rest)) =
          ofHeading heading above (l :: ls) := by
        rw [List.cons_append] at hspan
        rw [ofHeading, ofHeading, hspan]
      exact congrArg₂ List.cons hhead ih'

/-- The records of two sources, one below the other, are those of the first and then those of the
second, moved down, when each declaration of the first ends in it and the first leaves no block
open. -/
theorem ofSource_append {s₁ s₂ : Text}
    (hends : ∀ before line after, lines s₁ = before ++ line :: after → declares line = true →
      Signature.EndsWithin .start (line :: after))
    (hshut : DocBlock.Shut (lines s₁).reverse) :
    ofSource (s₁ ++ '\n' :: s₂) =
      ofSource s₁ ++ (ofSource s₂).map (moved (lines s₁).length) := by
  have hbelow := ofLines_append_above hshut [] (lines s₂)
  rw [List.nil_append, List.length_reverse] at hbelow
  rw [ofSource, ofSource, ofSource, lines_append_newline, ofLines_append_below hends,
    List.append_nil, hbelow]

/-- The comment that the upper source leaves open is a plain one, so the circuit below it stays
without documentation. -/
theorem ofSource_append_plain_comment :
    ofSource ("circuit a(\n): [] \x7b\n/* x".toList ++ '\n' :: "*/\ncircuit b(): [] \x7b".toList) =
      ofSource "circuit a(\n): [] \x7b\n/* x".toList ++
        (ofSource "*/\ncircuit b(): [] \x7b".toList).map (moved 3) := by
  have hl : lines "circuit a(\n): [] \x7b\n/* x".toList =
      ["circuit a(".toList, "): [] \x7b".toList, "/* x".toList] := by decide
  refine ofSource_append ?_ (by decide)
  intro before line after he hd
  rw [hl] at he
  rcases before with _ | ⟨l, before⟩
  · obtain ⟨rfl, rfl⟩ := List.cons.inj he
    exact ⟨["circuit a(".toList], "): [] \x7b".toList, ["/* x".toList], rfl, by decide⟩
  · have hmem : line ∈ ["): [] \x7b".toList, "/* x".toList] := by
      rw [(List.cons.inj he).2]
      simp
    rcases List.mem_pair.mp hmem with rfl | rfl <;> exact absurd hd (by decide)

end Record

end CircuitDocs
