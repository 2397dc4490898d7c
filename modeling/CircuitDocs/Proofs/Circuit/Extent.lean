import CircuitDocs.Proofs.Circuit.Single

/-! # Blocks by the numbers of their lines

Which lines of a source document a declaration, said of line numbers alone and without a search.
At most one range of lines qualifies, and a record has a block exactly when one does.
-/

namespace CircuitDocs

open Text Comment

namespace DocBlock

variable {first : Text} {above inner gap rest before : List Text} {s e : Nat}

/-- The lines `s` to `e` document the declaration at line `d`. Lines are counted from zero. Only
blank lines stand between the last one and the declaration; the first one opens a documentation
comment and the last one closes a comment; no other line opens a comment or declares a circuit. -/
structure Extent (ls : List Text) (s e d : Nat) : Prop where
  first_le_last : s ≤ e
  last_lt : e < d
  gap : ∀ i l, e < i → i < d → ls[i]? = some l → blank l = true
  closes : ∃ l, ls[e]? = some l ∧ blank l = false ∧ closing <:+ trim l
  opens : ∃ l, ls[s]? = some l ∧ opening <+: trim l
  inner : ∀ i l, s < i → i ≤ e → ls[i]? = some l →
    declares l = false ∧ ¬ "/*".toList <+: trim l

theorem mem_part_iff (before part after : List Text) (l : Text) :
    l ∈ part ↔ ∃ i, before.length ≤ i ∧ i < before.length + part.length ∧
      (before ++ (part ++ after))[i]? = some l := by
  constructor
  · intro h
    obtain ⟨i, hi, rfl⟩ := List.getElem_of_mem h
    refine ⟨before.length + i, by omega, by omega, ?_⟩
    rw [List.getElem?_append_right (by omega), List.getElem?_append_left (by omega),
      Nat.add_sub_cancel_left, List.getElem?_eq_getElem hi]
  · rintro ⟨i, hle, hlt, h⟩
    rw [List.getElem?_append_right hle, List.getElem?_append_left (by omega)] at h
    exact List.mem_of_getElem? h

theorem exists_part (hs : s ≤ e) (he : e < before.length) :
    ∃ pre first inner gap, before = pre ++ first :: (inner ++ gap) ∧ pre.length = s ∧
      pre.length + inner.length = e := by
  refine ⟨before.take s, before[s], (before.drop (s + 1)).take (e - s), before.drop (e + 1),
    ?_, ?_, ?_⟩
  · have hgap : before.drop (e + 1) = (before.drop (s + 1)).drop (e - s) := by
      rw [List.drop_drop]
      congr 1
      omega
    rw [hgap, List.take_append_drop, ← List.drop_eq_getElem_cons, List.take_append_drop]
  · rw [List.length_take]
    omega
  · rw [List.length_take, List.length_take, List.length_drop]
    omega

theorem getElem?_last (pre inner rest : List Text) (first : Text) :
    (pre ++ first :: (inner ++ rest))[pre.length + inner.length]? =
      some ((first :: inner).getLast (by simp)) := by
  rw [List.getElem?_append_right (by omega), Nat.add_sub_cancel_left, ← List.cons_append,
    List.getElem?_append_left (by simp), List.getLast_eq_getElem]
  simp

theorem extent_append_iff (pre inner gap tail : List Text) (first : Text) :
    Extent (pre ++ first :: (inner ++ (gap ++ tail))) pre.length (pre.length + inner.length)
        (pre.length + inner.length + 1 + gap.length) ↔
      (∀ l ∈ gap, blank l = true) ∧
        closesComment ((first :: inner).getLast (by simp)) = true ∧ opensDoc first = true ∧
        ∀ l ∈ inner, Inner l := by
  have hfirst : (pre ++ first :: (inner ++ (gap ++ tail)))[pre.length]? = some first := by simp
  have hlast := getElem?_last pre inner (gap ++ tail) first
  have hgap := mem_part_iff (pre ++ first :: inner) gap tail
  have hinner := mem_part_iff (pre ++ [first]) inner (gap ++ tail)
  simp only [List.append_assoc, List.cons_append, List.nil_append, List.length_append,
    List.length_cons, List.length_nil] at hgap hinner
  constructor
  · intro h
    refine ⟨fun l hl => ?_, ?_, ?_, fun l hl => ?_⟩
    · obtain ⟨i, hle, hlt, hi⟩ := (hgap l).mp hl
      exact h.gap i l (by omega) (by omega) hi
    · obtain ⟨l, hl, -, hc⟩ := h.closes
      obtain rfl := Option.some.inj (hlast.symm.trans hl)
      exact List.isSuffixOf_iff_suffix.mpr hc
    · obtain ⟨l, hl, ho⟩ := h.opens
      obtain rfl := Option.some.inj (hfirst.symm.trans hl)
      exact List.isPrefixOf_iff_prefix.mpr ho
    · obtain ⟨i, hle, hlt, hi⟩ := (hinner l).mp hl
      obtain ⟨hdeclares, hopens⟩ := h.inner i l (by omega) (by omega) hi
      rw [← List.isPrefixOf_iff_prefix, Bool.not_eq_true] at hopens
      exact ⟨hopens, hdeclares⟩
  · rintro ⟨hblank, hcloses, hopens, hall⟩
    refine ⟨by omega, by omega, fun i l hle hlt hi => ?_, ?_, ?_, fun i l hlt hle hi => ?_⟩
    · exact hblank l ((hgap l).mpr ⟨i, by omega, by omega, hi⟩)
    · exact ⟨_, hlast, not_blank_of_closesComment hcloses, List.isSuffixOf_iff_suffix.mp hcloses⟩
    · exact ⟨first, hfirst, List.isPrefixOf_iff_prefix.mp hopens⟩
    · obtain ⟨ho, hd⟩ := hall l ((hinner l).mpr ⟨i, by omega, by omega, hi⟩)
      rw [opensComment, ← Bool.not_eq_true, List.isPrefixOf_iff_prefix] at ho
      exact ⟨hd, ho⟩

/-- The extents of blocks for a declaration are the cuts of the lines above it. -/
theorem extent_iff (before tail : List Text) (s e : Nat) :
    Extent (before ++ tail) s e before.length ↔
      ∃ gap first inner rest, Cut before.reverse gap first inner rest ∧ s = rest.length ∧
        e = rest.length + inner.length := by
  constructor
  · intro h
    obtain ⟨pre, first, inner, gap, rfl, rfl, rfl⟩ := exists_part h.first_le_last h.last_lt
    have hlen : (pre ++ first :: (inner ++ gap)).length =
        pre.length + inner.length + 1 + gap.length := by
      simp only [List.length_append, List.length_cons]
      omega
    rw [hlen, List.append_assoc, List.cons_append, List.append_assoc, extent_append_iff] at h
    obtain ⟨hblank, hcloses, hopens, hall⟩ := h
    refine ⟨gap.reverse, first, inner, pre.reverse, ⟨by simp, ?_, hcloses, hopens, hall⟩,
      by simp, by simp⟩
    simpa using hblank
  · rintro ⟨gap, first, inner, rest, hcut, rfl, rfl⟩
    have hbefore : before = rest.reverse ++ first :: (inner ++ gap.reverse) := by
      rw [← List.reverse_reverse before, hcut.eq]
      simp
    have hlen : before.length = rest.reverse.length + inner.length + 1 + gap.reverse.length := by
      rw [hbefore]
      simp only [List.length_append, List.length_cons]
      omega
    rw [hlen, hbefore, List.append_assoc, List.cons_append, List.append_assoc,
      ← List.length_reverse, extent_append_iff]
    exact ⟨by simpa using hcut.gap_blank, hcut.closes, hcut.opens, hcut.inner⟩

theorem Cut.marks (h : Cut above gap first inner rest) :
    opening <+: trim (unlines (first :: inner)) ∧ closing <:+ trim (unlines (first :: inner)) := by
  refine ⟨opening_prefix_trim h.opens inner, ?_⟩
  obtain ⟨pre, last, hblock⟩ : ∃ pre last, first :: inner = pre ++ [last] :=
    (List.eq_nil_or_concat' (first :: inner)).resolve_left (by simp)
  have hlast := h.closes
  simp only [hblock, List.getLast_append_singleton] at hlast
  obtain ⟨a, b, rfl, hb⟩ := exists_of_closesComment hlast
  rw [hblock, trim_unlines_closing hb]
  exact List.suffix_append _ _

theorem Cut.lengths_eq {gap' inner' rest' : List Text} {first' : Text}
    (h : Cut above gap first inner rest) (h' : Cut above gap' first' inner' rest') :
    rest'.length = rest.length ∧ inner'.length = inner.length := by
  have hfound := above?_eq_some_iff.mpr ⟨gap, first, inner, rest, h, rfl⟩
  rw [above?_eq_some_iff.mpr ⟨gap', first', inner', rest', h', rfl⟩] at hfound
  have hinner := congrArg (List.length ∘ DocBlock.lines) (Option.some.inj hfound)
  have hgap := congrArg DocBlock.gap (Option.some.inj hfound)
  have hlen := congrArg List.length (h.eq.symm.trans h'.eq)
  simp only [Function.comp_apply, List.length_cons, List.length_append,
    List.length_reverse] at hinner hgap hlen
  omega

end DocBlock

namespace Record

open DocBlock

/-- A declaration has one record. The record has a block exactly when some lines document the
declaration; these lines are then the only ones that do, and the record names them and holds
their text. -/
theorem documented_iff_extent {source line : Text} {d : Nat} (hl : (lines source)[d]? = some line)
    (hd : declares line = true) :
    ∃ r, (∀ r', r' ∈ ofSource source ∧ r'.signature.line = d + 1 ↔ r' = r) ∧
      (r.documented = true ↔ ∃ s e, Extent (lines source) s e d) ∧
      ∀ s e, Extent (lines source) s e d →
        (∀ s' e', Extent (lines source) s' e' d → s' = s ∧ e' = e) ∧
        r.firstLine = s + 1 ∧ r.lastLine = e + 1 ∧
        r.comment = trim (unlines (((lines source).take (e + 1)).drop s)) ∧
        opening <+: r.comment ∧ closing <:+ r.comment := by
  obtain ⟨hlt, hget⟩ := List.getElem?_eq_some_iff.mp hl
  obtain ⟨heading, hh⟩ := Option.isSome_iff_exists.mp hd
  obtain ⟨before, after, hsplit, rfl⟩ : ∃ before after,
      lines source = before ++ line :: after ∧ before.length = d := by
    refine ⟨(lines source).take d, (lines source).drop (d + 1), ?_, by simp; omega⟩
    rw [← hget, ← List.drop_eq_getElem_cons, List.take_append_drop]
  refine ⟨ofHeading heading before.reverse (line :: after), fun r' => mem_ofSource_iff hsplit hh,
    ?_, ?_⟩
  · rw [hsplit]
    simp only [extent_iff]
    constructor
    · intro hdoc
      rcases cut_or_none before.reverse with ⟨gap, first, inner, rest, h⟩ | h
      · exact ⟨_, _, gap, first, inner, rest, h, rfl, rfl⟩
      · rw [ofHeading_of_none h] at hdoc
        contradiction
    · rintro ⟨s, e, gap, first, inner, rest, h, -⟩
      rw [ofHeading_of_cut h]
  · intro s e hextent
    rw [hsplit] at hextent ⊢
    obtain ⟨gap, first, inner, rest, h, rfl, rfl⟩ := (extent_iff _ _ _ _).mp hextent
    rw [ofHeading_of_cut h]
    refine ⟨fun s' e' hextent' => ?_, rfl, by simp, ?_, h.marks⟩
    · obtain ⟨gap', first', inner', rest', h', rfl, rfl⟩ := (extent_iff _ _ _ _).mp hextent'
      have := h.lengths_eq h'
      omega
    · have hlines : before ++ line :: after =
          (rest.reverse ++ first :: inner) ++ (gap.reverse ++ line :: after) := by
        rw [← List.reverse_reverse before, h.eq]
        simp
      rw [hlines, List.take_left' (by simp; omega), List.drop_left' List.length_reverse]

/-- A plain comment and code may stand above the block, and blanks around its marks. -/
theorem documented_iff_extent_pay :
    let source := unlines (["/* note */", "ledger owner: Bytes<32>;", "  /** @title Pay",
      "   * @param", " */ ", "", "export circuit pay(): [] \x7b"].map String.toList)
    Extent (lines source) 2 4 6 ∧ (∀ s e, Extent (lines source) s e 6 → s = 2 ∧ e = 4) ∧
      ∃ r ∈ ofSource source, r.comment = "/** @title Pay\n   * @param\n */".toList := by
  intro source
  obtain ⟨r, hr, hdocumented, hextent⟩ := @documented_iff_extent source
    "export circuit pay(): [] \x7b".toList 6 (by decide +kernel) (by decide)
  have hrecord : ∃ r' ∈ ofSource source, r'.signature.line = 7 ∧ r'.documented = true ∧
      r'.firstLine = 3 ∧ r'.lastLine = 5 := by decide +kernel
  obtain ⟨r', hmem, hline, hd, hfirst, hlast⟩ := hrecord
  obtain rfl := (hr r').mp ⟨hmem, hline⟩
  obtain ⟨s, e, h⟩ := hdocumented.mp hd
  obtain ⟨hunique, hs, he, hcomment, -⟩ := hextent s e h
  obtain ⟨rfl, rfl⟩ : s = 2 ∧ e = 4 := by omega
  refine ⟨h, hunique, r', hmem, hcomment.trans ?_⟩
  decide +kernel

end Record

end CircuitDocs
