import CircuitDocs.Proofs.Circuit.Record
import CircuitDocs.Proofs.Text.Words
import Mathlib.Data.List.Infix

/-! # Blocks that are one comment

The search for a block sees a comment that opens at the start of a line, but not one that follows
code. So a block is a single comment where the comment that ends right above a declaration also
begins a line.
-/

namespace CircuitDocs

open Text

namespace Comment

def marked (t : Text) : Bool := t.tails.any closing.isPrefixOf

/-- Whether a text is one comment: the first closing mark after the opening one ends it. -/
def isSingle (t : Text) : Bool :=
  t = opening ++ ['/'] ||
    match after? opening t with
    | some s => closing.isSuffixOf s && !marked s.dropLast
    | none => false

variable {u v t : Text} {ls : List Text}

theorem marked_iff : marked t = true ↔ closing <:+: t := by
  rw [marked, List.any_eq_true, List.infix_iff_prefix_suffix]
  simp only [List.mem_tails, List.isPrefixOf_iff_prefix, and_comm]

theorem marked_mono (h : marked u = true) (huv : u <:+: v) : marked v = true :=
  marked_iff.mpr ((marked_iff.mp h).trans huv)

theorem marked_append_newline (h : marked (u ++ '\n' :: v) = true) :
    marked u = true ∨ marked v = true := by
  simp only [marked_iff] at h ⊢
  have hnl : '\n' ∉ closing := by decide
  rcases List.infix_append_iff.mp h with h | h | ⟨w, w', hw, hu, hv⟩
  · exact Or.inl h
  · rcases List.infix_cons_iff.mp h with h | h
    · have hc : closing = '*' :: ['/'] := rfl
      rw [hc, List.cons_prefix_cons] at h
      exact absurd h.1 (by decide)
    · exact Or.inr h
  · cases w' with
    | nil =>
      rw [List.append_nil] at hw
      exact Or.inl (hw ▸ hu.isInfix)
    | cons c w' =>
      obtain ⟨rfl, -⟩ := List.cons_prefix_cons.mp hv
      exact absurd (by simp [hw]) hnl

theorem not_blank_of_marked (h : marked t = true) : blank t = false := by
  have hmem : '*' ∈ t := (marked_iff.mp h).subset (by decide)
  exact not_blank_of_mem hmem (by decide)

theorem exists_marked_of_unlines (h : marked (unlines ls) = true) : ∃ l ∈ ls, marked l = true := by
  induction ls with
  | nil => exact absurd h (by decide)
  | cons l ls ih =>
    cases ls with
    | nil => exact ⟨l, by simp, by simpa using h⟩
    | cons l' ls =>
      rw [unlines_cons l (by simp)] at h
      rcases marked_append_newline h with h | h
      · exact ⟨l, by simp, h⟩
      · obtain ⟨k, hk, hm⟩ := ih h
        exact ⟨k, List.mem_cons_of_mem _ hk, hm⟩

/-- Only in the shortest comment do the two marks share a star. -/
theorem isSingle_of_append (hopen : opening <+: u ++ closing) (hm : marked (u ++ ['*']) = false) :
    isSingle (u ++ closing) = true := by
  have hcases : u = ['/', '*'] ∨ ∃ v, u = opening ++ v := by
    have hmarks : opening = ['/', '*', '*'] ∧ closing = ['*', '/'] := by decide
    rw [hmarks.1, hmarks.2] at hopen
    rw [hmarks.1]
    rcases u with _ | ⟨a, _ | ⟨b, _ | ⟨c, v⟩⟩⟩ <;>
      simp only [List.nil_append, List.cons_append, List.cons_prefix_cons] at hopen
    · exact absurd hopen.1 (by decide)
    · exact absurd hopen.2.2.1 (by decide)
    · obtain ⟨rfl, rfl, -⟩ := hopen
      exact Or.inl rfl
    · obtain ⟨rfl, rfl, rfl, -⟩ := hopen
      exact Or.inr ⟨v, rfl⟩
  rcases hcases with rfl | ⟨v, rfl⟩
  · decide
  · have hv : marked (v ++ ['*']) = false := by
      rw [← Bool.not_eq_true] at hm ⊢
      exact fun h => hm (marked_mono h (by simp [List.infix_append_right]))
    have hafter : after? opening (opening ++ v ++ closing) = some (v ++ closing) :=
      after?_eq_some_iff.mpr (by simp)
    have hlast : (v ++ closing).dropLast = v ++ ['*'] := by
      rw [List.dropLast_append_of_ne_nil (by decide)]
      rfl
    have hends : closing.isSuffixOf (v ++ closing) = true :=
      List.isSuffixOf_iff_suffix.mpr (List.suffix_append v closing)
    simp only [isSingle, hafter, hlast, hv, hends, Bool.not_false, Bool.and_true, Bool.or_true]

end Comment

namespace DocBlock

open Comment

variable {l first last : Text} {ls pre inner gap above : List Text}

/-- What lines tell about the comments in them: whether a closing mark stands there with no line
since that opens a comment or declares a circuit, and whether the comment that ends last, right at
the end, is not set apart from what comes before it. -/
structure Marks where
  ended : Bool := false
  loose : Bool := false

def Marks.next (m : Marks) (l : Text) : Marks :=
  if blank l then m
  else
    let still := m.ended && !(opensComment l || declares l)
    { ended := still || marked l
      loose := closesComment l && (still || marked (trimRight l).dropLast) }

/-- Whether the lines end in a comment that is not set apart: its closing mark is not the first one
since a line opened a comment or declared a circuit. -/
def endsLoose (ls : List Text) : Bool := (ls.foldl Marks.next {}).loose

variable {m : Marks}

theorem Marks.ended_next (hl : marked l = true) : (m.next l).ended = true := by
  rw [next, not_blank_of_marked hl, if_neg (by decide)]
  simp [hl]

theorem Marks.ended_foldl (hls : ∀ l ∈ ls, Inner l) (hm : m.ended = true) :
    (ls.foldl next m).ended = true := by
  induction ls generalizing m with
  | nil => exact hm
  | cons l ls ih =>
    rw [List.forall_mem_cons] at hls
    refine ih hls.2 ?_
    unfold next
    split
    · exact hm
    · simp [hm, hls.1.1, hls.1.2]

theorem Marks.foldl_of_blank (hls : ∀ l ∈ ls, blank l = true) : ls.foldl next m = m := by
  induction ls with
  | nil => rfl
  | cons l ls ih =>
    rw [List.forall_mem_cons] at hls
    rw [List.foldl_cons, next, if_pos hls.1, ih hls.2]

theorem Marks.loose_next (hl : closesComment l = true) (hloose : (m.next l).loose = false) :
    (m.ended && !(opensComment l || declares l)) = false ∧
      marked (trimRight l).dropLast = false := by
  rw [next, not_blank_of_closesComment hl, if_neg (by decide)] at hloose
  simpa only [hl, Bool.true_and, Bool.or_eq_false_iff] using hloose

theorem not_marked_of_block (hgap : ∀ l ∈ gap, blank l = true)
    (hblock : first :: inner = pre ++ [last]) (hinner : ∀ l ∈ inner, Inner l)
    (hlast : closesComment last = true)
    (h : endsLoose (above ++ (pre ++ last :: gap)) = false) :
    (∀ l ∈ pre, marked l = false) ∧ marked (trimRight last).dropLast = false := by
  rw [endsLoose, List.foldl_append, List.foldl_append, List.foldl_cons,
    Marks.foldl_of_blank hgap] at h
  obtain ⟨hstill, hend⟩ := Marks.loose_next hlast h
  refine ⟨fun l hl => ?_, hend⟩
  rw [← Bool.not_eq_true]
  intro hm
  obtain ⟨p, q, rfl⟩ := List.append_of_mem hl
  rw [List.append_assoc, List.cons_append] at hblock
  have hq : q ++ [last] <:+ inner := by
    cases p with
    | nil => exact (List.cons.inj hblock).2 ▸ List.suffix_rfl
    | cons f p => exact (List.cons.inj hblock).2 ▸ ⟨p ++ [l], by simp⟩
  have hinner' : ∀ k ∈ q ++ [last], Inner k := fun k hk => hinner k (hq.subset hk)
  obtain ⟨ho, hd⟩ := hinner' last (by simp)
  rw [List.foldl_append, List.foldl_cons, Marks.ended_foldl
    (fun k hk => hinner' k (List.mem_append_left _ hk)) (Marks.ended_next hm), ho, hd] at hstill
  exact absurd hstill (by decide)

/-! ## Texts of blocks -/

theorem exists_of_closesComment (h : closesComment l = true) :
    ∃ a b, l = a ++ (closing ++ b) ∧ blank b = true := by
  obtain ⟨u, -, hu⟩ := exists_blank_append_trimLeft l
  obtain ⟨b, hb, ht⟩ := exists_trimRight_append_blank (trimLeft l)
  obtain ⟨a, ha⟩ := List.isSuffixOf_iff_suffix.mp h
  refine ⟨u ++ a, b, ?_, hb⟩
  rw [List.append_assoc, ← List.append_assoc a, ha, trim, ← ht, ← hu]

theorem opening_prefix_trim (h : opensDoc first = true) (inner : List Text) :
    opening <+: trim (unlines (first :: inner)) := by
  obtain ⟨u, hu, hfirst⟩ := exists_blank_append_trimLeft first
  obtain ⟨s, hs⟩ := (List.isPrefixOf_iff_prefix.mp h).trans (List.rdropWhile_prefix isBlank _)
  have hleft : ∀ v, trimLeft (opening ++ v) = opening ++ v := fun v => trimLeft_cons (by decide)
  rw [hfirst, ← hs, unlines_append_cons, unlines_append_cons, trim_blank_append hu, trim, hleft]
  cases hv : blank (unlines (s :: inner)) with
  | true =>
    rw [trimRight_append_blank hv]
    exact (by decide : trimRight opening = opening) ▸ List.prefix_rfl
  | false =>
    rw [trimRight_append hv]
    exact List.prefix_append _ _

theorem trim_unlines_closing {b : Text} (hb : blank b = true) (pre : List Text) (a : Text) :
    trim (unlines (pre ++ [a ++ (closing ++ b)])) =
      trimLeft (unlines (pre ++ [a])) ++ closing := by
  have hright : ∀ u, trimRight (u ++ closing) = u ++ closing := by
    intro u
    rw [show u ++ closing = (u ++ ['*']) ++ ['/'] by simp [closing], trimRight_concat (by decide)]
  rw [unlines_concat_append, ← List.append_assoc, trim_append_blank hb, trim]
  cases hu : blank (unlines (pre ++ [a])) with
  | true =>
    rw [trimLeft_append_blank hu, trimLeft_eq_nil_iff.mpr hu]
    exact hright []
  | false => rw [trimLeft_append hu, hright]

theorem isSingle_of_not_marked (hopen : opensDoc first = true)
    (hblock : first :: inner = pre ++ [last]) (hlast : closesComment last = true)
    (hpre : ∀ l ∈ pre, marked l = false) (hend : marked (trimRight last).dropLast = false) :
    isSingle (trim (unlines (first :: inner))) = true := by
  have hprefix := opening_prefix_trim hopen inner
  obtain ⟨a, b, rfl, hb⟩ := exists_of_closesComment hlast
  rw [hblock, trim_unlines_closing hb] at hprefix ⊢
  apply isSingle_of_append hprefix
  rw [← Bool.not_eq_true]
  intro hm
  have hsuffix : trimLeft (unlines (pre ++ [a])) ++ ['*'] <:+ unlines (pre ++ [a ++ ['*']]) := by
    rw [unlines_concat_append]
    obtain ⟨u, hu⟩ := List.dropWhile_suffix isBlank (l := unlines (pre ++ [a]))
    exact ⟨u, by rw [← List.append_assoc]; exact congrArg (· ++ ['*']) hu⟩
  obtain ⟨l, hl, hml⟩ := exists_marked_of_unlines (marked_mono hm hsuffix.isInfix)
  rw [List.mem_append, List.mem_singleton] at hl
  rcases hl with hl | rfl
  · rw [hpre l hl] at hml
    contradiction
  · have hdrop : (trimRight (a ++ (closing ++ b))).dropLast = a ++ ['*'] := by
      rw [← List.append_assoc, trimRight_append_blank hb]
      rw [show a ++ closing = (a ++ ['*']) ++ ['/'] by simp [closing],
        trimRight_concat (by decide), List.dropLast_concat]
    rw [hdrop] at hend
    rw [hend] at hml
    contradiction

end DocBlock

namespace Record

open Comment DocBlock

/-- The comment of a record begins with an opening mark and ends with a closing one, and it is a
single comment when the comment that ends right above the declaration is set apart. -/
theorem comment_isSingle {source : Text} {r : Record} (hr : r ∈ ofSource source)
    (hd : r.documented = true) :
    opening <+: r.comment ∧ closing <:+ r.comment ∧
      (endsLoose ((lines source).take (r.signature.line - 1).toNat) = false →
        isSingle r.comment = true) := by
  obtain ⟨before, line, after, heading, hlines, hline, rfl⟩ := exists_line_of_mem_ofLines hr
  rw [List.append_nil] at hd ⊢
  rcases cut_or_none before.reverse with ⟨gap, first, inner, rest, h⟩ | h
  · obtain ⟨pre, last, hblock⟩ : ∃ pre last, first :: inner = pre ++ [last] :=
      (List.eq_nil_or_concat' (first :: inner)).resolve_left (by simp)
    have hlast : closesComment last = true := by
      have hcl := h.closes
      simp only [hblock, List.getLast_append_singleton] at hcl
      exact hcl
    have habove : (lines source).take
        ((ofHeading heading before.reverse (line :: after)).signature.line - 1).toNat = before := by
      rw [signature_ofHeading, Signature.line_ofText, List.length_reverse, hlines]
      simp
    rw [habove, ofHeading_of_cut h]
    refine ⟨opening_prefix_trim h.opens inner, ?_, ?_⟩
    · obtain ⟨a, b, rfl, hb⟩ := exists_of_closesComment hlast
      simp only [hblock, trim_unlines_closing hb]
      exact List.suffix_append _ _
    · intro hapart
      have hbefore : before = rest.reverse ++ (pre ++ last :: gap.reverse) := by
        have he := congrArg List.reverse h.eq
        simp only [List.reverse_reverse, List.reverse_append, List.reverse_cons, List.append_assoc,
          List.singleton_append] at he
        rw [he, hblock]
        simp
      rw [hbefore] at hapart
      have hgap : ∀ l ∈ gap.reverse, blank l = true :=
        fun l hl => h.gap_blank l (List.mem_reverse.mp hl)
      obtain ⟨hpre, hend⟩ := not_marked_of_block hgap hblock h.inner hlast hapart
      exact isSingle_of_not_marked h.opens hblock hlast hpre hend
  · rw [ofHeading_of_none h] at hd
    contradiction

/-- A comment behind code does no harm to a circuit further below with a comment of its own. -/
theorem comment_isSingle_field :
    let source := unlines (["/** @description The owner. */", "ledger owner: Bytes<32>; /* one */",
      "export circuit own(): [] \x7b", "", "\t/**", "\t * @description Pays.", "\t */ ", "",
      "export circuit pay(): [] \x7b"].map String.toList)
    ∃ r ∈ ofSource source, r.documented = true ∧ r.firstLine = 5 ∧ isSingle r.comment = true := by
  intro source
  have hrecord : ∃ r ∈ ofSource source, r.documented = true ∧ r.firstLine = 5 ∧
      r.signature.line = 9 := by decide +kernel
  obtain ⟨r, hr, hd, hfirst, hline⟩ := hrecord
  have hloose : endsLoose ((lines source).take ((9 : Int) - 1).toNat) = false := by decide +kernel
  exact ⟨r, hr, hd, hfirst, (comment_isSingle hr hd).2.2 (hline ▸ hloose)⟩

/-- A plain comment behind code ends a block that the comment of a ledger field begins. -/
theorem comment_not_isSingle :
    let source := unlines (["/** @description The owner. */",
      "ledger owner: Bytes<32>; /* set once */", "export circuit pay(): [] \x7b"].map
      String.toList)
    ∃ r ∈ ofSource source, r.documented = true ∧
      r.comment = unlines (["/** @description The owner. */",
        "ledger owner: Bytes<32>; /* set once */"].map String.toList) ∧
      isSingle r.comment = false := by
  decide +kernel

end Record

end CircuitDocs
