import CircuitDocs.Proofs.Command.Switch

/-! # Where arguments come from

The target of a command line is one of its words, and the output file is one of them or the end of
one. So nothing stands in either that does not stand in the words.
-/

namespace CircuitDocs.Command

variable {argv words : List Text} {t : Text} {a a' : Arguments}

/-! ## Words -/

/-- Whether the text that a classified word carries comes from a command line. -/
def Word.From (argv : List Text) : Word → Prop
  | operand t => t ∈ argv
  | long _ (some value) => ∃ w ∈ argv, value <:+ w
  | _ => True

theorem Word.suffix_of_parts {value : Text} (h : (parts t).2 = some value) : value <:+ t := by
  unfold parts at h
  split at h
  · rename_i c rest hrest
    rw [← Option.some.inj h]
    exact (List.suffix_cons c rest).trans (hrest ▸ List.dropWhile_suffix _)
  · simp at h

theorem Word.from_parts (ht : t ∈ argv) (choice : Choice) :
    (long choice (parts t).2).From argv := by
  cases h : (parts t).2 with
  | none => trivial
  | some value => exact ⟨t, ht, suffix_of_parts h⟩

theorem Word.from_stray (ht : t ∈ argv) : (stray t).From argv := by
  unfold stray
  split
  · exact ht
  · trivial

theorem Word.from_classify {w : Word} (ht : t ∈ argv) (h : classify t = .ok w) : w.From argv := by
  unfold classify at h
  split at h
  · rename_i d c rest
    split at h
    · obtain rfl := Except.ok.inj h
      unfold ofSpelling
      split <;> trivial
    · obtain rfl := Except.ok.inj h
      unfold ofSpelling
      split
      · exact from_parts ht _
      · trivial
    · split at h
      · unfold shortened at h
        split at h
        · obtain rfl := Except.ok.inj h
          exact from_stray ht
        · obtain rfl := Except.ok.inj h
          exact from_parts ht _
        · simp at h
      · obtain rfl := Except.ok.inj h
        unfold clustered
        split
        · trivial
        · exact from_stray ht
  · obtain rfl := Except.ok.inj h
    exact ht

theorem Word.from_classifyAll {ws : List Word} (hsub : words ⊆ argv)
    (h : classifyAll words = .ok ws) : ∀ w ∈ ws, w.From argv := by
  induction words generalizing ws with
  | nil =>
    obtain rfl := Except.ok.inj h
    simp
  | cons t rest ih =>
    rw [List.cons_subset] at hsub
    rw [classifyAll] at h
    split at h
    · obtain rfl := Except.ok.inj h
      rw [List.forall_mem_cons]
      refine ⟨trivial, fun w hw => ?_⟩
      obtain ⟨u, hu, rfl⟩ := List.mem_map.mp hw
      exact hsub.2 hu
    · split at h
      · simp at h
      · rename_i w hw
        cases hrest : classifyAll rest with
        | error e => simp [hrest, Except.map] at h
        | ok ws' =>
          rw [hrest] at h
          obtain rfl := Except.ok.inj h
          exact List.forall_mem_cons.mpr ⟨from_classify hsub.1 hw, ih hsub.2 hrest⟩

/-! ## Arguments -/

namespace Arguments

structure From (argv : List Text) (a : Arguments) : Prop where
  target : ∀ t, a.target = some t → t ∈ argv
  output : ∀ t, a.output = .given t → ∃ w ∈ argv, t <:+ w

theorem From.withTarget (h : a.From argv) (ht : t ∈ argv) :
    From argv { a with target := some t } where
  target u hu := by
    obtain rfl := Option.some.inj hu
    exact ht
  output := h.output

theorem From.set {s : Setting} {value : Text} (h : a.From argv) (hv : ∃ w ∈ argv, value <:+ w)
    (hset : a.set s value = .ok a') : a'.From argv := by
  cases s with
  | output =>
    obtain rfl := Except.ok.inj hset
    refine ⟨h.target, fun t ht => ?_⟩
    simp only at ht
    split at ht
    · simp at ht
    · obtain rfl := Value.given.inj ht
      exact hv
  | format =>
    rw [Arguments.set] at hset
    split at hset
    · obtain rfl := Except.ok.inj hset
      exact ⟨h.target, h.output⟩
    · split at hset
      · obtain rfl := Except.ok.inj hset
        exact ⟨h.target, h.output⟩
      · simp at hset

theorem From.applyAll {choices : List Choice} (h : a.From argv)
    (happly : a.applyAll choices = .ok a') : a'.From argv := by
  fun_induction Arguments.applyAll a choices with
  | case1 a => exact Except.ok.inj happly ▸ h
  | case2 => simp at happly
  | case3 a s rest ih => exact ih ⟨h.target, h.output⟩ happly
  | case4 => simp at happly

theorem From.consume {extras extras' : List Text} {ws : List Word} (h : a.From argv)
    (hws : ∀ w ∈ ws, w.From argv) (hc : consume a extras ws = .ok (a', extras')) :
    a'.From argv := by
  -- Texts get into the arguments as operands and as values of settings only.
  fun_induction Arguments.consume a extras ws with
  | case1 a extras =>
    obtain ⟨rfl, -⟩ := Prod.mk.inj (Except.ok.inj hc)
    exact h
  | case2 a extras t rest _ ih =>
    simp only [List.forall_mem_cons] at hws
    exact ih (h.withTarget hws.1) hws.2.2 hc
  | case3 a extras t rest _ ih =>
    simp only [List.forall_mem_cons] at hws
    exact ih h hws.2.2 hc
  | case4 a extras t rest _ _ ih =>
    rw [List.forall_mem_cons] at hws
    exact ih (h.withTarget hws.1) hws.2 hc
  | case5 a extras _ rest _ _ ih | case6 a extras rest _ ih | case7 a extras rest _ ih
  | case8 a extras _ rest ih =>
    rw [List.forall_mem_cons] at hws
    exact ih h hws.2 hc
  | case11 a extras _ _ rest _ _ a₁ ha ih | case19 a extras _ rest _ _ a₁ ha ih =>
    rw [List.forall_mem_cons] at hws
    exact ih (h.applyAll ha) hws.2 hc
  | case13 a extras s value rest a₁ ha ih =>
    rw [List.forall_mem_cons] at hws
    exact ih (h.set hws.1 ha) hws.2 hc
  | case15 a extras s value rest a₁ ha ih =>
    simp only [List.forall_mem_cons] at hws
    exact ih (h.set ⟨value, hws.2.1, List.suffix_rfl⟩ ha) hws.2.2 hc
  | case9 | case10 | case12 | case14 | case16 | case17 | case18 => simp at hc

/-- The target of a command line is one of its words, and the output file is one or ends one. -/
theorem parse_from (h : parse argv = .ok a) : a.From argv := by
  unfold parse at h
  split at h
  · simp at h
  · rename_i ws hws
    split at h
    · simp at h
    · rename_i a' hc
      obtain rfl := Except.ok.inj h
      have hnone : From argv {} := ⟨fun _ ht => by simp at ht, fun _ ht => by simp at ht⟩
      exact hnone.consume (Word.from_classifyAll (List.Subset.refl argv) hws) hc
    · simp at h

theorem From.not_mem {c : Char} (h : a.From argv) (hc : ∀ w ∈ argv, c ∉ w) (hdot : c ≠ '.') :
    c ∉ a.targetText ∧ ∀ t, a.output? = some t → c ∉ t := by
  constructor
  · unfold targetText
    cases ht : a.target with
    | none => simpa using hdot
    | some t => exact hc t (h.target t ht)
  · intro t ht hmem
    unfold output? at ht
    split at ht
    · rename_i d path ho
      obtain rfl := Option.some.inj ht
      obtain ⟨w, hw, hsuffix⟩ := h.output _ ho
      exact hc w hw (hsuffix.subset hmem)
    · simp at ht

end Arguments

end CircuitDocs.Command
