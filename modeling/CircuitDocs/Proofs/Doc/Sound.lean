import CircuitDocs.Proofs.Circuit.Heading
import CircuitDocs.Proofs.Doc.SectionEnd
import CircuitDocs.Proofs.Doc.TagSection
import CircuitDocs.Proofs.Text.Collapsed

/-! # What a documentation can hold

However a block is written, what is read from it is in order: names are names, types are trimmed
and stop at the first closing brace, all other texts are collapsed, and nothing that is optional is
there without a text.
-/

namespace CircuitDocs

open Text

variable {t u : Text}

namespace Doc

structure IsType (t : Text) : Prop extends Trimmed t where
  close_not_mem : '}' ∉ t

structure Param.Sound (p : Param) : Prop where
  name : IsName p.name
  type : IsType p.type
  description : Collapsed p.description

structure Throws.Sound (e : Throws) : Prop where
  type : IsType e.type
  message : Collapsed e.message

structure Returns.Sound (r : Returns) : Prop where
  type : IsType r.type
  description : Collapsed r.description
  ne_nil : r.type ≠ [] ∨ r.description ≠ []

structure Sound (doc : Doc) : Prop where
  value : ∀ tag, ∀ t ∈ doc.value tag, Filled t
  params : ∀ p ∈ doc.params, p.Sound
  throws : ∀ e ∈ doc.throws, e.Sound
  returns : ∀ r ∈ doc.returns, r.Sound

theorem isType_trim (h : '}' ∉ t) : IsType (trim t) where
  toTrimmed := trimmed_trim t
  close_not_mem hm := h ((List.dropWhile_suffix isBlank).subset (mem_of_mem_trimRight hm))

end Doc

/-! ## Entries -/

theorem Reader.forall_mem_all {α : Type} {R : Reader α} {P : α → Prop}
    (hread : ∀ {t a r}, R.read t = some (a, r) → P a) (t : Text) : ∀ a ∈ R.all t, P a := by
  fun_induction R.all t with
  | case1 => simp
  | case2 c t a r h ih => exact List.forall_mem_cons.mpr ⟨hread h, ih⟩
  | case3 c t h ih => exact ih

namespace Entry

theorem sound_of_param? {p : Doc.Param} (h : param? t = some (p, u)) : p.Sound := by
  unfold param? at h
  split at h
  · split at h
    · rename_i type v htype
      rw [Option.ite_none_left_eq_some, Option.some.injEq] at h
      obtain ⟨hname, h⟩ := h
      obtain ⟨rfl, -⟩ := Prod.mk.inj h
      exact {
        name := ⟨by simpa using hname, fun c hc => List.mem_takeWhile_imp hc⟩
        type := Doc.isType_trim (passes_of_type? htype).2
        description := collapsed_collapse _ }
    · contradiction
  · contradiction

theorem sound_of_throws? {e : Doc.Throws} (h : throws? t = some (e, u)) : e.Sound := by
  unfold throws? at h
  split at h
  · split at h
    · rename_i type v htype
      obtain ⟨rfl, -⟩ := Prod.mk.inj (Option.some.inj h)
      exact ⟨Doc.isType_trim (passes_of_type? htype).2, collapsed_collapse _⟩
    · contradiction
  · contradiction

theorem sound_of_returns {r : Doc.Returns} (h : returns t = some r) : r.Sound := by
  have htype : '}' ∉ ((braced? (t.dropWhile isPad)).getD ([], t)).1 := by
    cases hb : braced? (t.dropWhile isPad) with
    | none => simp
    | some x => exact (eq_of_braced? hb).2
  rw [returns, Option.ite_none_left_eq_some, Option.some.injEq] at h
  obtain ⟨hne, rfl⟩ := h
  refine ⟨Doc.isType_trim htype, collapsed_collapse _, ?_⟩
  rwa [Bool.and_eq_true, List.isEmpty_iff, List.isEmpty_iff, not_and_or] at hne

theorem sound_of_returns? {r : Doc.Returns} (h : returns? t = some r) : r.Sound := by
  unfold returns? at h
  split at h
  · exact sound_of_returns h
  · contradiction

end Entry

/-! ## Blocks -/

theorem Tag.filled_of_value? {tag : Tag} (h : tag.value? t = some u) : Filled u := by
  unfold value? at h
  split at h
  · split at h
    · contradiction
    · rename_i c value hv
      obtain rfl := Option.some.inj h
      exact ⟨hv ▸ collapsed_collapse _, by simp⟩
  · contradiction

theorem Doc.sound_ofBlock (block : Text) : (ofBlock block).Sound where
  value tag t ht := by
    rw [value_ofBlock] at ht
    exact tag.filled_of_value? ht
  params := Reader.forall_mem_all Entry.sound_of_param? block
  throws := Reader.forall_mem_all Entry.sound_of_throws? block
  returns _ := Entry.sound_of_returns?

theorem Doc.sound_ofComment (comment : Text) : (ofComment comment).Sound :=
  sound_ofBlock (Comment.plain comment)

end CircuitDocs
