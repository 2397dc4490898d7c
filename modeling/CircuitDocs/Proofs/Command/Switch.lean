import CircuitDocs.Command.Arguments

/-! # A switch in front of a command line

A switch is read on its own and does not bear on how the other words are read. So a command line
with one more switch in front asks for the same and for the switch.
-/

namespace CircuitDocs.Command

variable {s : Switch}

namespace Arguments

def front (s : Switch) (a : Arguments) : Arguments := { a with switches := s :: a.switches }

@[simp] theorem target_front (a : Arguments) : (a.front s).target = a.target := rfl

theorem set_front (a : Arguments) (setting : Setting) (value : Text) :
    (a.front s).set setting value = (a.set setting value).map (front s) := by
  cases setting with
  | output => rfl
  | format =>
    simp only [set]
    by_cases hv : value = Word.separatorText
    · rw [if_pos hv, if_pos hv]
      rfl
    · rw [if_neg hv, if_neg hv]
      cases Format.ofName? value <;> rfl

theorem applyAll_front (a : Arguments) (choices : List Choice) :
    (a.front s).applyAll choices = (a.applyAll choices).map (front s) := by
  induction choices generalizing a with
  | nil => rfl
  | cons choice choices ih =>
    cases choice with
    | help => rfl
    | setting setting => rfl
    | switch s' => exact ih (a.flip s')

theorem consume_front (a : Arguments) (extras : List Text) (words : List Word) :
    consume (a.front s) extras words =
      (consume a extras words).map (Prod.map (front s) id) := by
  fun_induction consume a extras words with
  | case1 => rfl
  | case2 a extras t rest ht ih | case4 a extras t rest _ ht ih =>
    rw [consume, target_front, if_pos ht]
    · exact ih
    all_goals assumption
  | case3 a extras t rest ht ih | case5 a extras t rest _ ht ih =>
    rw [consume, target_front, if_neg ht]
    · exact ih
    all_goals assumption
  | case6 a extras rest ht ih =>
    rw [consume, target_front, if_pos ht]
    exact ih
  | case7 a extras rest ht ih =>
    rw [consume, target_front, if_neg ht]
    exact ih
  | case8 a extras t rest ih => exact ih
  | case9 a extras choice tail rest e hj =>
    rw [consume, hj]
    rfl
  | case10 a extras choice tail rest choices hj stop ha =>
    simp only [consume, hj, applyAll_front, ha]
    rfl
  | case11 a extras choice tail rest choices hj a' ha ih =>
    simp only [consume, hj, applyAll_front, ha]
    exact ih
  | case12 a extras setting value rest stop ha | case14 a extras setting value rest stop ha =>
    simp only [consume, set_front, ha]
    rfl
  | case13 a extras setting value rest a' ha ih | case15 a extras setting value rest a' ha ih =>
    simp only [consume, set_front, ha]
    exact ih
  | case16 a extras setting rest hr =>
    rw [consume]
    · rfl
    · exact hr
  | case17 a extras choice value rest hc =>
    rw [consume]
    · rfl
    · exact hc
  | case18 a extras choice rest hr hc stop ha =>
    rw [consume, applyAll_front, ha]
    · rfl
    all_goals assumption
  | case19 a extras choice rest hr hc a' ha ih =>
    rw [consume, applyAll_front, ha]
    · exact ih
    all_goals assumption

theorem consume_switch (w : Text) (words : List Word) :
    consume {} [] (Word.ofSpelling w (.switch s) none :: words) =
      consume (front s {}) [] words := by
  unfold Word.ofSpelling
  split
  · rw [consume]
    · rfl
    all_goals simp
  · rfl

theorem classifyAll_cons {w : Text} {choice : Choice} (hw : (w, choice) ∈ Choice.spellings)
    (argv : List Text) :
    Word.classifyAll (w :: argv) =
      (Word.classifyAll argv).map (Word.ofSpelling w choice none :: ·) := by
  have hspelling : ∀ p ∈ Choice.spellings, p.1 ≠ Word.separatorText ∧
      (Word.classify p.1).toOption = some (Word.ofSpelling p.1 p.2 none) := by decide
  obtain ⟨hne, hclass⟩ := hspelling _ hw
  rw [Word.classifyAll, if_neg hne]
  cases hc : Word.classify w with
  | error e => simp [hc, Except.toOption] at hclass
  | ok word =>
    rw [hc] at hclass
    rw [Option.some.inj hclass]

/-- A switch in front of a command line is one more switch among its arguments, and it changes
nothing where the command line is not accepted. -/
theorem parse_cons {w : Text} (hw : (w, .switch s) ∈ Choice.spellings) (argv : List Text) :
    parse (w :: argv) = (parse argv).map (front s) := by
  unfold parse
  rw [classifyAll_cons hw]
  cases Word.classifyAll argv with
  | error e => rfl
  | ok words =>
    simp only [Except.map, consume_switch, consume_front]
    rcases consume {} [] words with stop | ⟨a, extras⟩
    · rfl
    · cases extras <;> rfl

end Arguments

end CircuitDocs.Command
