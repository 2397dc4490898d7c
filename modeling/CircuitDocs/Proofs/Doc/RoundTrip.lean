import CircuitDocs.Proofs.Doc.Reading

/-! # Reading a written block

A block of entries behind stars is read as the entries that were written, whatever their order and
however their words are spread over lines.
-/

namespace CircuitDocs.Doc

open Text

/-! ## Blocks of entries -/

namespace Item

variable {es : List Item}

theorem WellFormed.newline_not_mem_lines {e : Item} {l : Text} (he : e.WellFormed)
    (hl : l ∈ e.lines) : '\n' ∉ l := by
  simp only [lines, List.mem_cons, List.mem_append, List.mem_replicate] at hl
  rcases hl with rfl | hl | ⟨-, rfl⟩
  · have hw := (Mark.not_mem_word he.mark).2
    simp [Mark.text, hw, he.tail.1]
  · exact (he.more l hl).1
  · simp

def block (lead : Nat) (es : List Item) : List Text :=
  (List.replicate lead [] ++ es.flatMap lines).map Comment.star

theorem newline_not_mem_block (lead : Nat) (hes : ∀ e ∈ es, e.WellFormed) :
    ∀ l ∈ List.replicate lead [] ++ es.flatMap lines, '\n' ∉ l := by
  intro l hl
  rcases List.mem_append.mp hl with hl | hl
  · simp [List.eq_of_mem_replicate hl]
  · obtain ⟨e, he, hl⟩ := List.mem_flatMap.mp hl
    exact (hes e he).newline_not_mem_lines hl

theorem mem_block {lead : Nat} {l : Text} (hes : ∀ e ∈ es, e.WellFormed) (hl : l ∈ block lead es) :
    '\n' ∉ l ∧ ∃ t, trimLeft l = '*' :: t := by
  obtain ⟨t, ht, rfl⟩ := List.mem_map.mp hl
  have hs := Comment.starred_star t
  exact ⟨hs.newline_not_mem (newline_not_mem_block lead hes t ht), hs.exists_trimLeft_eq⟩

theorem ofComment_block (lead : Nat) (hes : ∀ e ∈ es, e.WellFormed) :
    Doc.ofComment (unlines (Comment.block (block lead es))) = Tagged.doc (es.map tagged) := by
  rw [Doc.ofComment, block, Comment.plain_block (newline_not_mem_block lead hes),
    tidy_lines lead hes, ofBlock_chain hes]

end Item

/-! ## Words on lines -/

/-- Words spread over lines: those on the line of a mark, the blanks behind them, those on each
further line, and the number of blank lines below. -/
structure Passage where
  first : List Text
  trail : Text
  more : List (List Text)
  gap : Nat
deriving DecidableEq, Repr

namespace Passage

variable {p : Passage}

def words (p : Passage) : List Text := p.first ++ p.more.flatten

structure WellFormed (p : Passage) : Prop where
  words : ∀ w ∈ p.words, IsWordText w ∧ '@' ∉ w
  trail : blank p.trail = true ∧ '\n' ∉ p.trail
  more : ∀ ws ∈ p.more, ws ≠ []

instance (p : Passage) : Decidable p.WellFormed :=
  decidable_of_iff ((∀ w ∈ p.words, IsWordText w ∧ '@' ∉ w) ∧
    (blank p.trail = true ∧ '\n' ∉ p.trail) ∧ ∀ ws ∈ p.more, ws ≠ [])
    ⟨fun ⟨h₁, h₂, h₃⟩ => ⟨h₁, h₂, h₃⟩, fun ⟨h₁, h₂, h₃⟩ => ⟨h₁, h₂, h₃⟩⟩

theorem WellFormed.mem_first (hp : p.WellFormed) {w : Text} (hw : w ∈ p.first) :
    IsWordText w ∧ '@' ∉ w := hp.words w (List.mem_append_left _ hw)

theorem WellFormed.mem_more (hp : p.WellFormed) {ws : List Text} (hws : ws ∈ p.more) {w : Text}
    (hw : w ∈ ws) : IsWordText w ∧ '@' ∉ w :=
  hp.words w (List.mem_append_right _ (List.mem_flatten.mpr ⟨ws, hws, hw⟩))

end Passage

structure Layout where
  mark : Mark
  passage : Passage
deriving DecidableEq, Repr

namespace Layout

variable {e : Layout}

def tagged (e : Layout) : Tagged := ⟨e.mark, e.passage.words, e.passage.gap ≠ 0⟩

def item (e : Layout) : Item where
  mark := e.mark
  tail := e.passage.first.flatMap (' ' :: ·) ++ e.passage.trail
  more := e.passage.more.map [' '].intercalate
  gap := e.passage.gap

def WellFormed (e : Layout) : Prop := e.mark.WellFormed ∧ e.passage.WellFormed

instance (e : Layout) : Decidable e.WellFormed :=
  inferInstanceAs (Decidable (e.mark.WellFormed ∧ e.passage.WellFormed))

theorem not_mem_flatMap_space {ws : List Text} (hws : ∀ w ∈ ws, IsWordText w ∧ '@' ∉ w) :
    '\n' ∉ ws.flatMap (' ' :: ·) ∧ '@' ∉ ws.flatMap (' ' :: ·) := by
  constructor
  · intro h
    obtain ⟨w, hw, h⟩ := List.mem_flatMap.mp h
    rcases List.mem_cons.mp h with h | h
    · exact absurd h (by decide)
    · exact absurd ((hws w hw).1.not_blank _ h) (by decide)
  · intro h
    obtain ⟨w, hw, h⟩ := List.mem_flatMap.mp h
    rcases List.mem_cons.mp h with h | h
    · exact absurd h (by decide)
    · exact (hws w hw).2 h

theorem words_item (he : e.passage.WellFormed) : e.item.words = e.passage.words := by
  have hfirst : Text.words e.item.tail = e.passage.first := by
    rw [item, words_append_blank he.trail.1, words_flatMap_space fun w hw => (he.mem_first hw).1]
  have hmore : ∀ ls : List (List Text), (∀ ws ∈ ls, ∀ w ∈ ws, IsWordText w) →
      (ls.map [' '].intercalate).flatMap Text.words = ls.flatten := by
    intro ls hls
    induction ls with
    | nil => rfl
    | cons ws ls ih =>
      rw [List.map_cons, List.flatMap_cons, words_intercalate_space (hls ws (by simp)),
        ih fun ws hws => hls ws (by simp [hws]), List.flatten_cons]
  rw [Item.words, hfirst, Passage.words]
  exact congrArg _ (hmore e.passage.more fun ws hws w hw => (he.mem_more hws hw).1)

theorem tagged_item (he : e.passage.WellFormed) : e.item.tagged = e.tagged := by
  rw [Item.tagged, words_item he]
  rfl

theorem item_wellFormed (hm : e.mark.WellFormed) (he : e.passage.WellFormed) :
    e.item.WellFormed where
  mark := hm
  tail := by
    obtain ⟨hn, ha⟩ := not_mem_flatMap_space fun w hw => he.mem_first hw
    have hat : '@' ∉ e.passage.trail := fun h => absurd (blank_iff.mp he.trail.1 _ h) (by decide)
    simp only [item, List.mem_append, not_or]
    exact ⟨⟨hn, he.trail.2⟩, ha, hat⟩
  tail_head c t h := by
    cases hf : e.passage.first with
    | nil =>
      simp only [item, hf, List.flatMap_nil, List.nil_append] at h
      exact blank_iff.mp he.trail.1 c (by simp [h])
    | cons w ws =>
      simp only [item, hf, List.flatMap_cons, List.cons_append] at h
      rw [← (List.cons.inj h).1]
      decide
  more l hl := by
    obtain ⟨ws, hws, rfl⟩ := List.mem_map.mp hl
    have hw : ∀ w ∈ ws, IsWordText w ∧ '@' ∉ w := fun w hw => he.mem_more hws hw
    obtain ⟨hn, ha⟩ := not_mem_flatMap_space hw
    rw [flatMap_cons_eq _ (he.more ws hws), List.mem_cons, not_or] at hn ha
    refine ⟨hn.2, ha.2, ?_⟩
    rw [← Bool.not_eq_true, ← words_eq_nil_iff, words_intercalate_space fun w h => (hw w h).1]
    exact he.more ws hws

theorem forall_item_wellFormed {es : List Layout} (hes : ∀ e ∈ es, e.WellFormed) :
    ∀ i ∈ es.map item, i.WellFormed := by
  intro i hi
  obtain ⟨e, he, rfl⟩ := List.mem_map.mp hi
  exact item_wellFormed (hes e he).1 (hes e he).2

theorem map_tagged_item {es : List Layout} (hes : ∀ e ∈ es, e.WellFormed) :
    (es.map item).map Item.tagged = es.map tagged := by
  rw [List.map_map]
  exact List.map_congr_left fun e he => tagged_item (hes e he).2

/-- Entries of any kind, in any order and number, are read back from a block with their words one
space apart. -/
theorem ofComment_layouts {es : List Layout} (hes : ∀ e ∈ es, e.WellFormed) :
    Doc.ofComment (unlines (Comment.block (Item.block 0 (es.map item)))) =
      Tagged.doc (es.map tagged) := by
  rw [Item.ofComment_block 0 (forall_item_wellFormed hes), map_tagged_item hes]

def sample : List Layout :=
  [⟨.tag .title, [], " ".toList, [], 0⟩,
    ⟨.tag .remarks, ["Reverts".toList], [], [["on".toList, "-".toList], ["error.".toList]], 0⟩,
    ⟨.tag .remarks, [], [], [["Twice.".toList]], 1⟩,
    ⟨.param "Map<K, V>".toList "m".toList, ["-".toList, "a".toList], [], [["map".toList]], 0⟩,
    ⟨.tag .title, ["Late".toList], [], [], 2⟩,
    ⟨.param "Field".toList "n".toList, [], [], [], 0⟩,
    ⟨.throws "Error".toList, ["\"bad\"".toList], [], [], 1⟩,
    ⟨.returns [], [], [], [], 1⟩,
    ⟨.returns "Field".toList, ["x".toList], [], [], 0⟩]

theorem ofComment_sample :
    (∀ e ∈ sample, e.WellFormed) ∧
      Doc.ofComment (unlines (Comment.block (Item.block 0 (sample.map item)))) =
        { remarks := some "Reverts on - error. @remarks Twice.".toList
          params := [⟨"m".toList, "Map<K, V>".toList, "- a map".toList⟩,
            ⟨"n".toList, "Field".toList, []⟩]
          throws := [⟨"Error".toList, "\"bad\"".toList⟩] } := by
  have h : ∀ e ∈ sample, e.WellFormed := by decide +kernel
  exact ⟨h, (ofComment_layouts h).trans (by decide)⟩

end Layout

end CircuitDocs.Doc
