import CircuitDocs.Proofs.Circuit.Record
import CircuitDocs.Proofs.Rules.Check
import CircuitDocs.Report.Basic

/-! # Ownership of documentation blocks

The search for a block looks upwards without any record of what earlier circuits claimed. Still no
line is claimed twice: a block has no declaration among its lines, so it ends below the declaration
before it. Findings point at the block or at the declaration, and so stay in between as well.
-/

namespace CircuitDocs

open Text

namespace Record

variable {above below rest : List Text} {r : Record}

def Owns (r : Record) (n : Int) : Prop :=
  r.documented = true ∧ r.firstLine ≤ n ∧ n ≤ r.lastLine

/-- The lines of a record come in order, and end above the declaration exactly when there is a
block. -/
structure Ordered (r : Record) : Prop where
  first_le_last : r.firstLine ≤ r.lastLine
  last_le_line : r.lastLine ≤ r.signature.line
  last_lt_iff : r.lastLine < r.signature.line ↔ r.documented = true
  undocumented : r.documented = false →
    r.firstLine = r.signature.line ∧ r.lastLine = r.signature.line

theorem ordered_ofHeading (heading : Heading) (above below : List Text) :
    Ordered (ofHeading heading above below) := by
  rcases cut_or_none above with ⟨gap, first, inner, rest, h⟩ | h
  · have hl := congrArg List.length h.eq
    simp only [List.length_append, List.length_reverse, List.length_cons] at hl
    rw [ofHeading_of_cut h]
    constructor <;> simp only [Signature.line_ofText, iff_true, Bool.true_eq_false, false_imp_iff]
      <;> omega
  · rw [ofHeading_of_none h]
    constructor <;> simp

theorem one_le_firstLine_ofHeading (heading : Heading) (above below : List Text) :
    1 ≤ (ofHeading heading above below).firstLine := by
  rcases cut_or_none above with ⟨gap, first, inner, rest, h⟩ | h
  · rw [ofHeading_of_cut h]
    simp only
    omega
  · rw [ofHeading_of_none h]
    simp only
    omega

theorem declared_lt_firstLine {pre post : List Text} {l : Text} (ha : above = pre ++ l :: post)
    (hl : declares l = true) (heading : Heading) (below : List Text) :
    (post.length + 1 : Int) < (ofHeading heading above below).firstLine := by
  rcases cut_or_none above with ⟨gap, first, inner, rest, h⟩ | h
  · rw [ofHeading_of_cut h]
    have hlt : post.length < rest.length := by
      have he : pre ++ l :: post = gap ++ (inner.reverse ++ [first]) ++ rest := by
        rw [← ha, h.eq]
        simp
      rcases List.append_eq_append_iff.mp he with ⟨v, hv, hr⟩ | ⟨v, -, hr⟩
      · cases v with
        | nil =>
          rw [List.nil_append] at hr
          simp [← hr]
        | cons c v =>
          obtain ⟨rfl, -⟩ := List.cons.inj hr
          have hn : declares l = false := h.not_declares (by rw [hv]; simp)
          rw [hl] at hn
          exact absurd hn (by decide)
      · rw [hr, List.length_append, List.length_cons]
        omega
    simp only
    omega
  · rw [ofHeading_of_none h, ha]
    simp only [List.length_append, List.length_cons]
    omega

theorem declared_lt_of_mem_ofLines {pre post : List Text} {l : Text}
    (ha : above = pre ++ l :: post) (hl : declares l = true) (h : r ∈ ofLines above rest) :
    (post.length + 1 : Int) < r.firstLine := by
  obtain ⟨pre', line, post', heading, -, -, rfl⟩ := exists_line_of_mem_ofLines h
  have hpre : pre'.reverse ++ above = (pre'.reverse ++ pre) ++ l :: post := by
    rw [ha, List.append_assoc]
  exact declared_lt_firstLine hpre hl heading _

theorem pairwise_line_lt_firstLine (above rest : List Text) :
    (ofLines above rest).Pairwise fun r r' => r.signature.line < r'.firstLine := by
  induction rest generalizing above with
  | nil => simp [ofLines]
  | cons line rest ih =>
    rw [ofLines]
    split
    · rename_i heading hh
      refine List.pairwise_cons.mpr ⟨fun r' hr' => ?_, ih _⟩
      rw [signature_ofHeading, Signature.line_ofText]
      exact declared_lt_of_mem_ofLines (List.nil_append _).symm (by simp [declares, hh]) hr'
    · exact ih _

theorem pairwise_ofSource (source : Text) :
    (ofSource source).Pairwise fun r r' => r.signature.line < r'.firstLine :=
  pairwise_line_lt_firstLine [] (lines source)

theorem line_le_of_mem_ofSource {source : Text} (h : r ∈ ofSource source) :
    r.signature.line ≤ (lines source).length := by
  obtain ⟨pre, line, post, heading, hl, -, rfl⟩ := exists_line_of_mem_ofLines h
  rw [signature_ofHeading, Signature.line_ofText, hl]
  simp only [List.length_append, List.length_reverse, List.length_cons, List.length_nil]
  omega

theorem ordered_of_mem_ofSource {source : Text} (h : r ∈ ofSource source) : Ordered r := by
  obtain ⟨pre, line, post, heading, -, -, rfl⟩ := exists_line_of_mem_ofLines h
  exact ordered_ofHeading _ _ _

theorem one_le_firstLine {source : Text} (h : r ∈ ofSource source) : 1 ≤ r.firstLine := by
  obtain ⟨pre, line, post, heading, -, -, rfl⟩ := exists_line_of_mem_ofLines h
  exact one_le_firstLine_ofHeading _ _ _

theorem not_owns_line {source : Text} {r' : Record} (hr : r ∈ ofSource source)
    (hr' : r' ∈ ofSource source) : ¬ r.Owns r'.signature.line := by
  have hp := pairwise_ofSource source
  let R (r r' : Record) : Prop := ¬ r.Owns r'.signature.line
  refine List.Pairwise.forall_of_forall_of_flip (R := R) ?_ ?_ ?_ hr hr'
  · rintro r hr ⟨hd, -, hn⟩
    have := (ordered_of_mem_ofSource hr).last_lt_iff.mpr hd
    omega
  · refine hp.imp_of_mem fun {r r'} hr hr' hlt => ?_
    rintro ⟨-, -, hn⟩
    have ho' := ordered_of_mem_ofSource hr'
    have := (ordered_of_mem_ofSource hr).last_le_line
    have := Int.le_trans ho'.first_le_last ho'.last_le_line
    omega
  · refine hp.imp fun {r r'} hlt => ?_
    rintro ⟨-, hn, -⟩
    omega

end Record

/-! ## Findings -/

theorem Config.line_of_mem_issues {config : Config} {threshold : Threshold} {record : Record}
    (ho : record.Ordered) {i : Issue} (h : i ∈ config.issues threshold record) :
    i.line = record.firstLine := by
  rcases Config.eq_warning_of_mem_issues h with ⟨-, rule, message, -, rfl⟩ | ⟨hd, message, rfl⟩
  · rfl
  · exact (ho.undocumented hd).1.symm

namespace Record

/-- The line of the declaration before the `k`-th record, or zero. -/
def lineBefore (rs : List Record) (k : Nat) : Int := ((0 :: rs.map (·.signature.line))[k]?).getD 0

theorem lineBefore_lt {source : Text} {k : Nat} {r : Record} (h : (ofSource source)[k]? = some r) :
    lineBefore (ofSource source) k < r.firstLine := by
  have hpos := one_le_firstLine (List.mem_of_getElem? h)
  cases k with
  | zero =>
    simp only [lineBefore, List.getElem?_cons_zero, Option.getD_some]
    omega
  | succ k =>
    obtain ⟨hk, hr⟩ := List.getElem?_eq_some_iff.mp h
    have hp := List.pairwise_iff_getElem.mp (pairwise_ofSource source)
    have hlt := hp k (k + 1) (by omega) hk (by omega)
    simp only [lineBefore, List.getElem?_cons_succ, List.getElem?_map,
      List.getElem?_eq_getElem (show k < (ofSource source).length by omega), Option.map_some,
      Option.getD_some]
    rw [← hr]
    exact hlt

/-- Every record of a source keeps its lines in order and inside the source, and begins below the
declarations before it. So no line belongs to two blocks, no block has a declaration in it, and
each finding for a circuit points below the declaration before it and not below its own. -/
theorem ownership_disjoint (source : Text) :
    (∀ r ∈ ofSource source, 1 ≤ r.firstLine ∧ Ordered r ∧
      r.signature.line ≤ (lines source).length) ∧
    (ofSource source).Pairwise (fun r r' => r.signature.line < r'.firstLine) ∧
    (ofSource source).Pairwise (fun r r' => ∀ n, ¬ (r.Owns n ∧ r'.Owns n)) ∧
    (∀ r ∈ ofSource source, ∀ r' ∈ ofSource source, ¬ r.Owns r'.signature.line) ∧
    ∀ (config : Config) (file : Text) (k : Nat) (r : Record) (v : Verdict),
      (ofSource source)[k]? = some r →
      (FileReport.ofSource config file source).verdicts[k]? = some v →
      ∀ i ∈ v.issues, lineBefore (ofSource source) k < i.line ∧ i.line ≤ r.signature.line := by
  have hp := pairwise_ofSource source
  refine ⟨fun r hr => ⟨one_le_firstLine hr, ordered_of_mem_ofSource hr,
    line_le_of_mem_ofSource hr⟩, hp, ?_, ?_, ?_⟩
  · refine hp.imp_of_mem fun {r r'} hr _ hlt n => ?_
    rintro ⟨⟨-, -, hn⟩, -, hn', -⟩
    have := (ordered_of_mem_ofSource hr).last_le_line
    omega
  · exact fun r hr r' hr' => not_owns_line hr hr'
  · intro config file k r v hr hv i hi
    have ho := ordered_of_mem_ofSource (List.mem_of_getElem? hr)
    have hlt := lineBefore_lt hr
    simp only [FileReport.ofSource, FileReport.ofRecords, List.getElem?_map, hr, Option.map_some,
      Option.some.injEq] at hv
    subst hv
    rw [Config.line_of_mem_issues ho hi]
    exact ⟨hlt, Int.le_trans ho.first_le_last ho.last_le_line⟩

end Record

end CircuitDocs
