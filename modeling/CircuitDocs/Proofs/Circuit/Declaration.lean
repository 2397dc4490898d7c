import CircuitDocs.Proofs.Circuit.Ownership

/-! # Declarations of a source

The records of a source are those of the lines that have the form of a declaration: one record for
each such line, from the top to the bottom.
-/

namespace CircuitDocs

open Text Heading

variable {source : Text} {f : Form} {r : Record} {n : Int}

def Heading.Form.StandsAt (f : Form) (source : Text) (n : Int) : Prop :=
  ∃ k : Nat, n = k + 1 ∧ (lines source)[k]? = some f.text

theorem Heading.Form.standsAt_iff :
    f.StandsAt source n ↔
      ∃ before after, lines source = before ++ f.text :: after ∧ n = before.length + 1 := by
  constructor
  · rintro ⟨k, rfl, hk⟩
    obtain ⟨hlt, hline⟩ := List.getElem?_eq_some_iff.mp hk
    refine ⟨(lines source).take k, (lines source).drop (k + 1), ?_, ?_⟩
    · rw [← hline, ← List.drop_eq_getElem_cons hlt, List.take_append_drop]
    · rw [List.length_take, Nat.min_eq_left hlt.le]
  · rintro ⟨before, after, hl, rfl⟩
    exact ⟨before.length, rfl, by simp [hl]⟩

namespace Record

theorem mem_ofSource_of_standsAt (h : f.StandsAt source n) :
    ∃ above below, ∀ r, r ∈ ofSource source ∧ r.signature.line = n ↔
      r = ofHeading f.heading above below := by
  obtain ⟨before, after, hl, rfl⟩ := Form.standsAt_iff.mp h
  exact ⟨before.reverse, f.text :: after, fun r => mem_ofSource_iff hl f.ofLine?_text⟩

theorem exists_standsAt (h : r ∈ ofSource source) :
    ∃ f : Form, f.StandsAt source r.signature.line := by
  obtain ⟨pre, line, post, heading, hl, hh, rfl⟩ := exists_line_of_mem_ofLines h
  obtain ⟨f, rfl, -⟩ := ofLine?_eq_some_iff.mp hh
  exact ⟨f, Form.standsAt_iff.mpr ⟨pre, post, hl, by simp⟩⟩

theorem pairwise_line_lt (source : Text) :
    ((ofSource source).map (·.signature.line)).Pairwise (· < ·) := by
  rw [List.pairwise_map]
  refine (pairwise_ofSource source).imp_of_mem fun {r r'} _ hr' hlt => ?_
  have ho := ordered_of_mem_ofSource hr'
  exact Int.lt_of_lt_of_le hlt (Int.le_trans ho.first_le_last ho.last_le_line)

/-- The lines of the records go down the source, and they are exactly the lines of the form of a
declaration. A line has that form in one way only, with the name and the export mark of its record
and with no parenthesis before the one that opens the parameter list. -/
theorem declarations_exact (source : Text) :
    ((ofSource source).map (·.signature.line)).Pairwise (· < ·) ∧
      (∀ n, n ∈ (ofSource source).map (·.signature.line) ↔ ∃ f : Form, f.StandsAt source n) ∧
      Function.Injective Form.text ∧
      ∀ r ∈ ofSource source, ∀ f : Form, f.StandsAt source r.signature.line →
        r.signature.name = f.name ∧ r.signature.exported = f.exported ∧
          '(' ∉ f.head ∧ ')' ∉ f.head := by
  refine ⟨pairwise_line_lt source, fun n => ?_, Form.text_injective, ?_⟩
  · rw [List.mem_map]
    constructor
    · rintro ⟨r, hr, rfl⟩
      exact exists_standsAt hr
    · rintro ⟨f, hf⟩
      obtain ⟨above, below, hrecord⟩ := mem_ofSource_of_standsAt hf
      exact ⟨_, (hrecord _).mpr rfl⟩
  · intro r hr f hf
    obtain ⟨above, below, hrecord⟩ := mem_ofSource_of_standsAt hf
    obtain rfl := (hrecord r).mp ⟨hr, rfl⟩
    refine ⟨by simp [Form.heading], by simp [Form.heading], ?_, ?_⟩
    · exact f.written.not_mem (by decide) (by decide)
    · exact f.written.not_mem (by decide) (by decide)

end Record

end CircuitDocs
