import CircuitDocs.Rules.Check

/-! # What a rule can find

Every finding of a rule is a warning about the tag of the rule, at the first line of the block. So
what a configuration finds can be told apart by the tags.
-/

namespace CircuitDocs

variable {threshold : Threshold} {record : Record} {i : Issue}

theorem Rule.eq_warning_of_mem_check {rule : Rule} (h : i ∈ Rule.check threshold record rule) :
    ∃ message, i = .warning message record.firstLine rule.field := by
  have expect : ∀ {b : Bool} {m : String} {rule : Rule},
      i ∈ Rule.expect b m record.firstLine rule →
      ∃ message, i = .warning message record.firstLine rule.field := by
    intro b m rule hi
    unfold Rule.expect at hi
    split at hi
    · simp at hi
    · exact ⟨_, List.mem_singleton.mp hi⟩
  cases rule with
  | title | description | remarks | throws | returns => exact expect h
  | circuitInfo =>
    simp only [check, CircuitInfo.check] at h
    split at h
    · exact ⟨_, List.mem_singleton.mp h⟩
    · split at h
      · simp at h
      · exact ⟨_, List.mem_singleton.mp h⟩
  | params =>
    simp only [check] at h
    split at h
    · simp at h
    · rcases List.mem_append.mp h with h | h
      · obtain ⟨p, -, rfl⟩ := List.mem_map.mp h
        exact ⟨_, rfl⟩
      · obtain ⟨p, -, rfl⟩ := List.mem_map.mp h
        exact ⟨_, rfl⟩

/-- A configuration finds warnings of the rules that it requires, or the one warning about a circuit
without documentation. -/
theorem Config.eq_warning_of_mem_issues {config : Config} (h : i ∈ config.issues threshold record) :
    (record.documented = true ∧ ∃ rule message, config.requires rule = true ∧
        i = .warning message record.firstLine rule.field) ∨
      (record.documented = false ∧
        ∃ message, i = .warning message record.signature.line "documentation".toList) := by
  unfold Config.issues at h
  split at h
  · simp at h
  · split at h
    · rename_i hd
      obtain ⟨rule, hrule, hi⟩ := List.mem_flatMap.mp h
      obtain ⟨message, hm⟩ := Rule.eq_warning_of_mem_check hi
      exact Or.inl ⟨hd, rule, message, (List.mem_filter.mp hrule).2, hm⟩
    · rename_i hd
      exact Or.inr ⟨by simpa using hd, _, List.mem_singleton.mp h⟩

theorem Config.severity_of_mem_issues {config : Config} (h : i ∈ config.issues threshold record) :
    i.severity = .warning := by
  rcases Config.eq_warning_of_mem_issues h with ⟨-, rule, message, -, rfl⟩ | ⟨-, message, rfl⟩
  · rfl
  · rfl

end CircuitDocs
