import CircuitDocs.Proofs.Doc.FixedPoint
import CircuitDocs.Proofs.Doc.Section
import CircuitDocs.Doc.Entry
import Mathlib.Data.Nat.Find
import Mathlib.Order.Bounds.Basic

/-! # The section of a tag

A tag has the text from its first place in the block up to the first place after it where a section
ends. Both places are least indices, so nothing else in the block has a say in the value. In
particular a second place of the tag has none, unless the tag is one for remarks, whose sections
run on into each other.
-/

namespace CircuitDocs

open Text

variable {t u r n : Text} {c : Char} {i e : Nat}

/-! ## Searches as least indices -/

namespace Text

theorem first?_eq_none_iff {α : Type} {read : Text → Option α} :
    first? read t = none ↔ ∀ i, read (t.drop i) = none := by
  induction t with
  | nil => simp [first?]
  | cons c t ih =>
    cases hread : read (c :: t) with
    | some a =>
      rw [first?_of_some hread]
      simp only [reduceCtorEq, false_iff, not_forall]
      exact ⟨0, by simp [hread]⟩
    | none =>
      rw [first?_cons_of_none hread, ih]
      constructor
      · rintro h (_ | i)
        · exact hread
        · exact h i
      · exact fun h i => h (i + 1)

theorem first?_of_least {α : Type} {read : Text → Option α} {a : α}
    (ha : read (t.drop i) = some a) (hlt : ∀ j < i, read (t.drop j) = none) :
    first? read t = some a := by
  induction i generalizing t with
  | zero => exact first?_of_some ha
  | succ i ih =>
    cases t with
    | nil => exact first?_of_some ha
    | cons c t =>
      rw [first?_cons_of_none (hlt 0 (by omega))]
      exact ih ha fun j hj => hlt (j + 1) (by omega)

theorem takeUntil_of_least {stop : Text → Bool} (he : stop (t.drop e) = true)
    (hlt : ∀ j < e, stop (t.drop j) = false) : takeUntil stop t = t.take e := by
  induction e generalizing t with
  | zero =>
    cases t with
    | nil => rfl
    | cons c t =>
      rw [List.drop_zero] at he
      rw [takeUntil, if_pos he, List.take_zero]
  | succ e ih =>
    cases t with
    | nil => rfl
    | cons c t =>
      have hc : stop (c :: t) = false := hlt 0 (by omega)
      rw [takeUntil, if_neg (by simp [hc]), List.take_succ_cons,
        ih he fun j hj => hlt (j + 1) (by omega)]

theorem wordEnds_iff : wordEnds t = true ↔ ∀ c ∈ t.head?, isWord c = false := by
  cases t <;> simp [wordEnds]

end Text

/-! ## Tags and ends of sections -/

namespace Tag

variable {tag : Tag}

/-- The text begins with the tag: an `@`, the word of the tag, and no further character of a
word. -/
def Begins (tag : Tag) (t : Text) : Prop :=
  ∃ r, t = '@' :: (tag.word ++ r) ∧ ∀ c ∈ r.head?, isWord c = false

def length (tag : Tag) : Nat := tag.word.length + 1

/-- Where a section of the tag ends: at the end of the text, before a blank line, and before a line
that opens with an `@`. Another remarks tag does not end a remarks section. -/
inductive Ends (tag : Tag) : Text → Prop where
  | finish : Ends tag []
  | gap {pads r : Text} : (∀ c ∈ pads, isPad c = true) → Ends tag ('\n' :: (pads ++ '\n' :: r))
  | next {pads r : Text} : (∀ c ∈ pads, isPad c = true) →
      ¬ (tag = .remarks ∧ Tag.remarks.Begins ('@' :: r)) → Ends tag ('\n' :: (pads ++ '@' :: r))

theorem after?_eq_some_iff :
    tag.after? t = some r ↔ t = '@' :: (tag.word ++ r) ∧ ∀ c ∈ r.head?, isWord c = false := by
  constructor
  · intro h
    unfold Tag.after? at h
    split at h
    · unfold afterWord? at h
      split at h
      · rename_i r' hr
        simp only [Option.ite_none_right_eq_some, Option.some.injEq] at h
        obtain ⟨hw, rfl⟩ := h
        exact ⟨by rw [Text.after?_eq_some_iff.mp hr], wordEnds_iff.mp hw⟩
      · contradiction
    · contradiction
  · rintro ⟨rfl, hw⟩
    rw [Tag.after?, afterWord?, Text.after?_eq_some_iff.mpr rfl]
    simp [wordEnds_iff.mpr hw]

theorem begins_iff : tag.Begins t ↔ tag.after? t ≠ none := by
  rw [Option.ne_none_iff_exists']
  exact exists_congr fun r => after?_eq_some_iff.symm

theorem after?_of_begins (h : tag.Begins t) : tag.after? t = some (t.drop tag.length) := by
  obtain ⟨r, rfl, hr⟩ := h
  have hdrop : ('@' :: (tag.word ++ r)).drop tag.length = r := by simp [length]
  rw [after?_eq_some_iff, hdrop]
  exact ⟨rfl, hr⟩

theorem endedBy_iff : tag.endedBy r = true ↔ ¬ (tag = .remarks ∧ remarks.Begins ('@' :: r)) := by
  rw [begins_iff, Tag.after?]
  cases tag with
  | remarks => simp [endedBy]
  | title | description | circuitInfo => simp [endedBy]

theorem sectionEnds_iff : sectionEnds tag.endedBy t = true ↔ tag.Ends t := by
  have hdrop : ∀ {pads u : Text}, (∀ c ∈ pads, isPad c = true) → u.dropWhile isPad = u →
      (pads ++ u).dropWhile isPad = u := by
    intro pads u hp hu
    rw [List.dropWhile_append_of_pos hp, hu]
  constructor
  · intro h
    unfold sectionEnds at h
    split at h
    · exact .finish
    · rename_i t
      have hp : ∀ c ∈ t.takeWhile isPad, isPad c = true := fun c hc => List.mem_takeWhile_imp hc
      rw [← List.takeWhile_append_dropWhile (p := isPad) (l := t)]
      split at h
      · rename_i heq
        rw [heq]
        exact .gap hp
      · rename_i heq
        rw [heq]
        exact .next hp (endedBy_iff.mp h)
      · contradiction
    · contradiction
  · rintro (_ | hp | ⟨hp, hr⟩)
    · rfl
    · simp only [sectionEnds, hdrop hp (show ('\n' :: _).dropWhile isPad = '\n' :: _ from rfl)]
    · simp only [sectionEnds, hdrop hp (show ('@' :: _).dropWhile isPad = '@' :: _ from rfl)]
      exact endedBy_iff.mpr hr

theorem Ends.not_isWord (h : tag.Ends t) : ∀ c ∈ t.head?, isWord c = false := by
  intro c hc
  cases h with
  | finish => simp at hc
  | gap _ | next _ _ =>
    obtain rfl : '\n' = c := by simpa using hc
    decide

/-! ## The value of a tag -/

theorem first?_of_isLeast (hi : IsLeast {i | tag.Begins (n.drop i)} i) :
    first? tag.after? n = some (n.drop (i + tag.length)) := by
  apply first?_of_least (i := i)
  · rw [after?_of_begins hi.1, List.drop_drop]
  · intro j hj
    by_contra hne
    exact absurd (hi.2 (begins_iff.mpr hne)) (by omega)

theorem takeUntil_of_isLeast {start : Nat}
    (he : IsLeast {e | start ≤ e ∧ tag.Ends (n.drop e)} e) :
    takeUntil (sectionEnds tag.endedBy) (n.drop start) = (n.take e).drop start := by
  obtain ⟨k, rfl⟩ := Nat.exists_eq_add_of_le he.1.1
  rw [List.drop_take, Nat.add_sub_cancel_left]
  apply takeUntil_of_least
  · rw [List.drop_drop]
    exact sectionEnds_iff.mpr he.1.2
  · intro j hj
    rw [List.drop_drop, ← Bool.not_eq_true, sectionEnds_iff]
    intro hends
    have := he.2 ⟨Nat.le_add_right start j, hends⟩
    omega

def collapsed? (t : Text) : Option Text := if collapse t = [] then none else some (collapse t)

theorem value?_of_first? (h : first? tag.after? n = some t) :
    tag.value? n = collapsed? (takeUntil (sectionEnds tag.endedBy) t) := by
  rw [value?, h, collapsed?]
  dsimp only
  split <;> simp_all

theorem value?_of_not_begins (h : ∀ i, ¬ tag.Begins (n.drop i)) : tag.value? n = none := by
  have hnone : first? tag.after? n = none := by
    rw [first?_eq_none_iff]
    intro i
    have := h i
    rwa [begins_iff, not_not] at this
  rw [value?, hnone]

theorem value?_of_isLeast (hi : IsLeast {i | tag.Begins (n.drop i)} i)
    (he : IsLeast {e | i + tag.length ≤ e ∧ tag.Ends (n.drop e)} e) :
    tag.value? n = collapsed? ((n.take e).drop (i + tag.length)) := by
  rw [value?_of_first? (first?_of_isLeast hi), takeUntil_of_isLeast he]

/-! ## What comes after the section -/

theorem begins_append_iff {p x : Text} (hp : tag.length ≤ p.length)
    (hx : ∀ c ∈ x.head?, isWord c = false) : tag.Begins (p ++ x) ↔ tag.Begins p := by
  have hhead : ∀ {q : Text}, (∀ c ∈ (q ++ x).head?, isWord c = false) ↔
      ∀ c ∈ q.head?, isWord c = false := by
    intro q
    cases q with
    | nil => simpa using hx
    | cons d q => rfl
  constructor
  · rintro ⟨r, hr, hw⟩
    obtain ⟨q, rfl⟩ : ∃ q, p = ('@' :: tag.word) ++ q := by
      have hpre : '@' :: tag.word <+: p ++ x := ⟨r, hr.symm⟩
      obtain ⟨q, hq⟩ := List.prefix_of_prefix_length_le hpre (List.prefix_append p x) hp
      exact ⟨q, hq.symm⟩
    rw [List.append_assoc] at hr
    obtain rfl : q ++ x = r := List.append_cancel_left hr
    rw [hhead] at hw
    exact ⟨q, rfl, hw⟩
  · rintro ⟨q, rfl, hw⟩
    exact ⟨q ++ x, by simp, hhead.mpr hw⟩

theorem le_length_of_isLeast (hi : tag.Begins (n.drop i))
    (he : IsLeast {e | i + tag.length ≤ e ∧ tag.Ends (n.drop e)} e) : e ≤ n.length := by
  obtain ⟨q, hq, -⟩ := hi
  have hlen := congrArg List.length hq
  simp only [List.length_drop, List.length_cons, List.length_append] at hlen
  apply he.2
  refine ⟨by rw [length]; omega, ?_⟩
  rw [List.drop_length]
  exact .finish

theorem drop_take_append {j : Nat} (he : e ≤ n.length) (hj : j ≤ e) (x : Text) :
    (n.take e ++ x).drop j = (n.take e).drop j ++ x := by
  rw [List.drop_append_of_le_length (by rw [List.length_take]; omega)]

theorem isLeast_begins_take_append (hi : IsLeast {i | tag.Begins (n.drop i)} i)
    (he : IsLeast {e | i + tag.length ≤ e ∧ tag.Ends (n.drop e)} e) (hr : tag.Ends r) :
    IsLeast {i | tag.Begins ((n.take e ++ r).drop i)} i := by
  have hle := le_length_of_isLeast hi.1 he
  have hbegins : ∀ {j : Nat}, j + tag.length ≤ e →
      (tag.Begins ((n.take e ++ r).drop j) ↔ tag.Begins (n.drop j)) := by
    intro j hj
    have hlen : tag.length ≤ ((n.take e).drop j).length := by
      rw [List.length_drop, List.length_take]
      omega
    conv_rhs => rw [← List.take_append_drop e n]
    rw [drop_take_append hle (by omega), drop_take_append hle (by omega),
      begins_append_iff hlen hr.not_isWord, begins_append_iff hlen he.1.2.not_isWord]
  refine ⟨(hbegins he.1.1).mpr hi.1, fun j hj => ?_⟩
  by_contra hlt
  have hend := he.1.1
  exact hlt (hi.2 ((hbegins (by omega)).mp hj))

theorem unbroken_section (hn : Comment.Tidy n) (htag : tag ≠ .remarks) {start : Nat}
    (he : IsLeast {e | start ≤ e ∧ tag.Ends (n.drop e)} e) :
    Unbroken ((n.take e).drop start) := by
  have hstop : tag.endedBy = fun _ => true := by
    funext t
    rw [endedBy_iff]
    exact fun h => htag h.1
  rw [← takeUntil_of_isLeast he, hstop]
  apply unbroken_sectionBody
  rw [List.getLast?_drop]
  split
  · simp
  · exact hn.last

/-- What comes after the section of a tag can be replaced by anything that a section ends at. -/
theorem value?_take_append (hn : Comment.Tidy n) (htag : tag ≠ .remarks)
    (hi : IsLeast {i | tag.Begins (n.drop i)} i)
    (he : IsLeast {e | i + tag.length ≤ e ∧ tag.Ends (n.drop e)} e) (hr : tag.Ends r) :
    tag.value? (n.take e ++ r) = tag.value? n := by
  have hle := le_length_of_isLeast hi.1 he
  have hfirst := first?_of_isLeast (isLeast_begins_take_append hi he hr)
  rw [value?_of_first? hfirst, value?_of_isLeast hi he, drop_take_append hle he.1.1,
    (unbroken_section hn htag he).takeUntil_append, takeUntil_of_ends (sectionEnds_iff.mpr hr),
    List.append_nil]

end Tag

/-! ## Comments -/

def Doc.value (doc : Doc) : Tag → Option Text
  | .title => doc.title
  | .description => doc.description
  | .remarks => doc.remarks
  | .circuitInfo => doc.circuitInfo

theorem Doc.value_ofBlock (block : Text) (tag : Tag) :
    (Doc.ofBlock block).value tag = tag.value? block := by
  cases tag <;> rfl

/-- A tag has the collapsed text from after its first place to the first end of a section from
there on. Whatever comes after that end is of no account, unless the tag is for remarks. -/
theorem Doc.value_ofComment (comment : Text) (tag : Tag) :
    let n := Comment.plain comment
    (∀ i, ¬ tag.Begins (n.drop i)) ∧ (Doc.ofComment comment).value tag = none ∨
    ∃ i e, IsLeast {i | tag.Begins (n.drop i)} i ∧
      IsLeast {e | i + tag.length ≤ e ∧ tag.Ends (n.drop e)} e ∧
      (Doc.ofComment comment).value tag = Tag.collapsed? ((n.take e).drop (i + tag.length)) ∧
      (tag ≠ .remarks → ∀ rest, tag.Ends rest →
        (Doc.ofBlock (n.take e ++ rest)).value tag = (Doc.ofComment comment).value tag) := by
  classical
  intro n
  have least : ∀ {p : Nat → Prop}, (∃ i, p i) → ∃ i, IsLeast {i | p i} i :=
    fun h => ⟨Nat.find h, Nat.find_spec h, fun _ hj => Nat.find_min' h hj⟩
  simp only [Doc.ofComment, Doc.value_ofBlock]
  by_cases hex : ∃ i, tag.Begins (n.drop i)
  · obtain ⟨i, hi⟩ := least hex
    have hends : ∃ e, i + tag.length ≤ e ∧ tag.Ends (n.drop e) := by
      refine ⟨n.length + (i + tag.length), by omega, ?_⟩
      rw [List.drop_eq_nil_of_le (by omega)]
      exact .finish
    obtain ⟨e, he⟩ := least hends
    right
    refine ⟨i, e, hi, he, Tag.value?_of_isLeast hi he, fun htag rest hrest => ?_⟩
    exact Tag.value?_take_append (Comment.tidy_plain comment) htag hi he hrest
  · left
    have hnone : ∀ i, ¬ tag.Begins (n.drop i) := not_exists.mp hex
    exact ⟨hnone, Tag.value?_of_not_begins hnone⟩

end CircuitDocs
