import CircuitDocs.Proofs.Circuit.Record
import CircuitDocs.Proofs.Circuit.Setting
import CircuitDocs.Proofs.Doc.Plain

/-! # Drafts

A draft is a circuit as an author writes it: a documentation block, a gap, a declaration and a
body. The records of a source that is put together from drafts are the drafts again, each with the
lines on which it was written.
-/

namespace CircuitDocs

open Text

/-- A circuit as an author writes it. `doc` holds the lines between the marks of a block. -/
structure Draft where
  exported : Bool
  isPure : Bool
  name : Text
  parameters : List Parameter
  returnType : Text
  setting : Setting
  doc : Option (List Text)
  gap : List Text
  body : List Text
deriving DecidableEq, Repr

namespace Draft

variable {d : Draft} {above rest : List Text} {l : Text}

def head (d : Draft) : Text := Heading.words d.exported d.isPure d.name

def tail (d : Draft) : Text := ": ".toList ++ d.returnType ++ [' ', '{']

def docLines (d : Draft) : List Text := (d.doc.map Comment.block).getD []

def declaration (d : Draft) : List Text := d.setting.lines d.parameters d.head d.tail

def lines (d : Draft) : List Text := d.docLines ++ (d.gap ++ (d.declaration ++ d.body))

def lastLine? (d : Draft) : Option Text := d.body.reverse.find? fun l => !blank l

/-- The record of a draft that stands below so many lines, with the return type that is read. -/
def record (d : Draft) (above : Nat) (returnType : Text) : Record :=
  let line : Int := above + d.docLines.length + d.gap.length + 1
  { signature := ⟨d.name, d.exported, d.parameters, returnType, line⟩
    comment := unlines d.docLines
    doc := Doc.ofComment (unlines d.docLines)
    documented := d.doc.isSome
    firstLine := if d.doc.isSome then above + 1 else line
    lastLine := if d.doc.isSome then above + d.docLines.length else line }

def records (above : Nat) : List Draft → List Record
  | [] => []
  | d :: ds => d.record above d.returnType :: records (above + d.lines.length) ds

/-- What the parts of a draft have to be so that its lines can be told apart. -/
structure Sound (d : Draft) : Prop where
  name : IsName d.name
  parameters : ∀ p ∈ d.parameters, p.WellFormed
  returnType : '\n' ∉ d.returnType
  setting : d.setting.WellFormed
  doc : ∀ inner, d.doc = some inner → ∀ l ∈ inner, '\n' ∉ l ∧ ∃ t, trimLeft l = '*' :: t
  gap : ∀ l ∈ d.gap, '\n' ∉ l ∧ blank l = true
  body : ∀ l ∈ d.body, '\n' ∉ l ∧ declares l = false

/-- A draft whose return type is read back as it was written, too. -/
structure WellFormed (d : Draft) : Prop extends Sound d where
  returnType_ne_nil : d.returnType ≠ []
  returnType_collapsed : collapse d.returnType = d.returnType
  returnType_no_brace : '{' ∉ d.returnType

/-! ## Signatures -/

theorem Sound.isWord_or_space (hd : d.Sound) {c : Char} (h : c ∈ d.head) :
    isWord c = true ∨ c = ' ' := by
  have hk : (keyword d.exported "export".toList ++ keyword d.isPure "pure".toList ++
      "circuit ".toList).all (fun c => isWord c || c = ' ') = true := by
    cases d.exported <;> cases d.isPure <;> decide
  rcases List.mem_append.mp h with h | h
  · simpa using List.all_eq_true.mp hk c h
  · exact Or.inl (hd.name.all c h)

theorem Sound.not_mem_head (hd : d.Sound) {c : Char} (hc : ¬ (isWord c = true ∨ c = ' ')) :
    c ∉ d.head := fun h => hc (hd.isWord_or_space h)

theorem Sound.newline_not_mem_tail (hd : d.Sound) : '\n' ∉ d.tail := by
  simp [tail, hd.returnType]

theorem Sound.signature (hd : d.Sound) (line : Int) (rest : List Text) :
    Signature.ofText ⟨d.name, d.exported⟩ line
        (unlines (Signature.span .start (d.declaration ++ rest))) =
      ⟨d.name, d.exported, d.parameters, Signature.returnTypeIn d.tail, line⟩ := by
  have ho : '(' ∉ d.head := hd.not_mem_head (by decide)
  have hc : ')' ∉ d.head := hd.not_mem_head (by decide)
  rw [declaration, Setting.span_lines hd.setting hd.parameters ho hc (by simp [tail]),
    Setting.unlines_lines, Signature.ofText,
    Paren.enclosed?_eq ho (Setting.balanced_inside hd.setting hd.parameters)]
  simp only [Setting.ofList_inside hd.setting hd.parameters]

theorem WellFormed.returnTypeIn_tail (hd : d.WellFormed) :
    Signature.returnTypeIn d.tail = d.returnType := by
  have htake : (' ' :: (d.returnType ++ [' ', '{'])).takeWhile (· ≠ '{') =
      ' ' :: (d.returnType ++ [' ']) := by
    have h : ∀ c ∈ ' ' :: (d.returnType ++ [' ']), decide (c ≠ '{') = true := by
      intro c hc
      refine decide_eq_true ?_
      rintro rfl
      simp [hd.returnType_no_brace] at hc
    have hsplit : ' ' :: (d.returnType ++ [' ', '{']) =
        ' ' :: (d.returnType ++ [' ']) ++ ['{'] := by simp
    rw [hsplit, List.takeWhile_append_of_pos h, List.takeWhile_cons_of_neg (by decide),
      List.append_nil]
  have hcollapse : collapse (' ' :: (d.returnType ++ [' '])) = d.returnType := by
    rw [collapse_congr ((words_cons_blank (by decide)).trans (words_append_blank (by decide))),
      hd.returnType_collapsed]
  have ht : d.tail = ':' :: ' ' :: (d.returnType ++ [' ', '{']) := by simp [tail]
  rw [ht, Signature.returnTypeIn, trimLeft_cons (by decide)]
  simp only [htake, hcollapse]
  obtain ⟨c, t, h⟩ := List.exists_cons_of_ne_nil hd.returnType_ne_nil
  rw [h]

/-! ## Documentation -/

/-- The nearest line above that is not blank closes no comment. -/
def Open (above : List Text) : Prop :=
  ∀ l, above.find? (fun l => !blank l) = some l → DocBlock.closesComment l = false

theorem above?_eq_none (h : Open above) : DocBlock.above? above = none := by
  rcases Record.cut_or_none above with ⟨gap, first, inner, rest, hcut⟩ | hn
  · have hc := h _ hcut.nearest
    rw [hcut.closes] at hc
    exact absurd hc (by decide)
  · exact hn

theorem open_gap {gap : List Text} (hg : ∀ l ∈ gap, blank l = true) (h : Open above) :
    Open (gap ++ above) := by
  intro l hl
  have hn : gap.find? (fun l => !blank l) = none :=
    List.find?_eq_none.mpr fun l hl => by simp [hg l hl]
  rw [List.find?_append, hn, Option.none_or] at hl
  exact h l hl

theorem Sound.mem_docLines (hd : d.Sound) (hl : l ∈ d.docLines) :
    '\n' ∉ l ∧ declares l = false := by
  cases hdoc : d.doc with
  | none => simp [docLines, hdoc] at hl
  | some inner =>
    simp only [docLines, hdoc, Option.map_some, Option.getD_some, Comment.block, List.mem_cons,
      List.mem_append, List.not_mem_nil, or_false] at hl
    rcases hl with rfl | hl | rfl
    · decide
    · obtain ⟨hn, t, ht⟩ := hd.doc inner hdoc l hl
      exact ⟨hn, (DocBlock.inner_of_star ht).2⟩
    · decide

theorem Sound.cut (hd : d.Sound) {inner : List Text} (hdoc : d.doc = some inner)
    (above : List Text) :
    DocBlock.Cut (d.gap.reverse ++ (d.docLines.reverse ++ above)) d.gap.reverse Comment.opening
      (inner ++ [' ' :: Comment.closing]) above where
  eq := by simp [docLines, hdoc, Comment.block]
  gap_blank l hl := (hd.gap l (by simpa using hl)).2
  closes := by
    rw [List.getLast_cons (by simp), List.getLast_append_singleton]
    decide
  opens := by decide
  inner l hl := by
    rcases List.mem_append.mp hl with hl | hl
    · obtain ⟨-, t, ht⟩ := hd.doc inner hdoc l hl
      exact DocBlock.inner_of_star ht
    · rw [List.mem_singleton.mp hl]
      exact DocBlock.inner_of_star (t := ['/']) (by decide)

theorem Sound.ofHeading_eq (hd : d.Sound) (ho : Open above) (rest : List Text) :
    Record.ofHeading ⟨d.name, d.exported⟩ (d.gap.reverse ++ (d.docLines.reverse ++ above))
        (d.declaration ++ rest) =
      d.record above.length (Signature.returnTypeIn d.tail) := by
  cases hdoc : d.doc with
  | none =>
    have hl : d.docLines = [] := by simp [docLines, hdoc]
    have hg : ∀ l ∈ d.gap.reverse, blank l = true := fun l hl => (hd.gap l (by simpa using hl)).2
    rw [hl, List.reverse_nil, List.nil_append,
      Record.ofHeading_of_none (above?_eq_none (open_gap hg ho)), hd.signature]
    simp only [record, hl, hdoc, unlines_nil, Doc.ofComment_nil, Option.isSome_none,
      List.length_append, List.length_reverse, List.length_nil, Record.mk.injEq,
      Signature.mk.injEq, Bool.false_eq_true, if_false, true_and]
    omega
  | some inner =>
    have hl : d.docLines = Comment.block inner := by simp [docLines, hdoc]
    have hlen : (Comment.block inner).length = inner.length + 2 := by simp [Comment.block]
    rw [Record.ofHeading_of_cut (hd.cut hdoc above), hd.signature, ← Comment.block,
      Comment.trim_unlines_block]
    simp only [record, hl, hdoc, hlen, Option.isSome_some, if_true, List.length_append,
      List.length_reverse, List.length_cons, List.length_nil, Record.mk.injEq,
      Signature.mk.injEq, true_and]
    omega

/-- Below a draft the nearest line that is not blank is one of its body or the end of its
declaration. -/
theorem open_lines (he : ∀ l, d.lastLine? = some l → DocBlock.closesComment l = false)
    (above : List Text) : Open (d.lines.reverse ++ above) := by
  obtain ⟨ls, u, hu⟩ := Setting.exists_lines_eq_concat d.setting d.parameters d.head d.tail
  obtain ⟨v, hlast⟩ : ∃ v, d.declaration = ls ++ [v ++ ['{']] := by
    refine ⟨u ++ "): ".toList ++ d.returnType ++ [' '], ?_⟩
    rw [declaration, hu]
    simp [tail]
  intro l hl
  have hrev : d.lines.reverse ++ above =
      d.body.reverse ++ (d.declaration.reverse ++
        (d.gap.reverse ++ (d.docLines.reverse ++ above))) := by
    simp [lines]
  rw [hrev, List.find?_append] at hl
  cases hb : d.body.reverse.find? (fun l => !blank l) with
  | some l' =>
    rw [hb, Option.some_or] at hl
    exact he l (hb.trans hl)
  | none =>
    have hv : blank (v ++ ['{']) = false := not_blank_of_mem (c := '{') (by simp) (by decide)
    rw [hb, Option.none_or, hlast, List.reverse_append, List.reverse_singleton, List.cons_append,
      List.cons_append, List.find?_cons_of_pos (by simp [hv])] at hl
    rw [← Option.some.inj hl]
    exact DocBlock.not_closesComment_concat (by decide) (by decide)

theorem Sound.newline_not_mem (hd : d.Sound) (hl : l ∈ d.lines) : '\n' ∉ l := by
  simp only [lines, List.mem_append] at hl
  rcases hl with hl | hl | hl | hl
  · exact (hd.mem_docLines hl).1
  · exact (hd.gap l hl).1
  · exact Setting.newline_not_mem_lines hd.setting hd.parameters (hd.not_mem_head (by decide))
      hd.newline_not_mem_tail hl
  · exact (hd.body l hl).1

theorem Sound.ofLines_lines (hd : d.Sound) (ho : Open above) (rest : List Text) :
    Record.ofLines above (d.lines ++ rest) =
      d.record above.length (Signature.returnTypeIn d.tail) ::
        Record.ofLines (d.lines.reverse ++ above) rest := by
  obtain ⟨t, later, hlines⟩ := Setting.exists_lines_eq_cons d.setting d.parameters d.head d.tail
  have hfirst : Heading.ofLine? (d.head ++ '(' :: t) = some ⟨d.name, d.exported⟩ :=
    Heading.ofLine?_words d.exported d.isPure hd.name t
  have hlater : ∀ l ∈ later ++ d.body, declares l = false := by
    intro l hl
    rcases List.mem_append.mp hl with hl | hl
    · have hmem : l ∈ (d.setting.lines d.parameters d.head d.tail).tail := by rwa [hlines]
      exact Setting.not_declares_of_mem_tail hd.setting hd.parameters hmem
    · exact (hd.body l hl).2
  have hdecl : d.declaration = (d.head ++ '(' :: t) :: later := hlines
  have hr := hd.ofHeading_eq ho (d.body ++ rest)
  rw [lines, List.append_assoc, List.append_assoc, List.append_assoc,
    Record.ofLines_append_of_not_declares fun l hl => (hd.mem_docLines hl).2,
    Record.ofLines_append_of_not_declares fun l hl => not_declares_of_blank (hd.gap l hl).2]
  rw [hdecl] at hr ⊢
  rw [List.cons_append] at hr ⊢
  rw [Record.ofLines, hfirst]
  simp only [hr]
  rw [← List.append_assoc later, Record.ofLines_append_of_not_declares hlater]
  simp

theorem lines_ne_nil (d : Draft) : d.lines ≠ [] := by
  obtain ⟨t, later, hlines⟩ := Setting.exists_lines_eq_cons d.setting d.parameters d.head d.tail
  simp [lines, declaration, hlines]

theorem Sound.ofSource_lines (hd : d.Sound) :
    Record.ofSource (unlines d.lines) = [d.record 0 (Signature.returnTypeIn d.tail)] := by
  have ho : Open [] := by simp [Open]
  have h := hd.ofLines_lines ho []
  rw [List.append_nil] at h
  rw [Record.ofSource, lines_unlines d.lines_ne_nil fun l hl => hd.newline_not_mem hl, h]
  rfl

theorem ofLines_flatMap_lines {ds : List Draft} (hds : ∀ d ∈ ds, d.WellFormed)
    (he : ∀ d ∈ ds, ∀ l, d.lastLine? = some l → DocBlock.closesComment l = false)
    (ho : Open above) :
    Record.ofLines above (ds.flatMap lines) = records above.length ds := by
  induction ds generalizing above with
  | nil => rfl
  | cons d ds ih =>
    have hd := hds d (by simp)
    rw [List.flatMap_cons, hd.ofLines_lines ho, hd.returnTypeIn_tail,
      ih (fun d hd => hds d (by simp [hd])) (fun d hd => he d (by simp [hd]))
        (open_lines (he d (by simp)) above), records]
    congr 2
    simp [Nat.add_comm]

/-- The records of drafts that are written one below the other are those drafts. -/
theorem ofSource_unlines {ds : List Draft} (hds : ∀ d ∈ ds, d.WellFormed)
    (he : ∀ d ∈ ds, ∀ l, d.lastLine? = some l → DocBlock.closesComment l = false) :
    Record.ofSource (unlines (ds.flatMap lines)) = records 0 ds := by
  cases ds with
  | nil => decide
  | cons d ds =>
    have hne : (d :: ds).flatMap lines ≠ [] := by simp [d.lines_ne_nil]
    rw [Record.ofSource, lines_unlines hne, ofLines_flatMap_lines hds he (by simp [Open])]
    · rfl
    · intro l hl
      obtain ⟨d', hd', hl⟩ := List.mem_flatMap.mp hl
      exact (hds d' hd').newline_not_mem hl

def mint : Draft where
  exported := true
  isPure := false
  name := "mint".toList
  parameters := ["payer".toList, "payee".toList].map (⟨·, "Either<Key, (Address)>".toList⟩)
  returnType := "[]".toList
  setting := .column "  ".toList true
  doc := some [" * @title Mint".toList, "*".toList]
  gap := [" ".toList]
  body := [['}'], []]

def bare (name : Text) (body : List Text) : Draft where
  exported := false
  isPure := true
  name := name
  parameters := []
  returnType := "Bytes<32>".toList
  setting := .row
  doc := none
  gap := []
  body := body

theorem mint_wellFormed : mint.WellFormed := by
  have hb : Paren.Balanced "Either<Key, (Address)>".toList :=
    (Paren.Balanced.of_not_mem (w := "Either<Key, ".toList) (by decide) (by decide)).append
      (.group (.of_not_mem (w := "Address".toList) (by decide) (by decide))
        (.of_not_mem (w := ">".toList) (by decide) (by decide)))
  have ht : Parameter.IsType "Either<Key, (Address)>".toList :=
    ⟨by decide, by decide +kernel, hb, by decide,
      by simp [Parameter.solid_cons, Parameter.solid_nil, Parameter.angle]⟩
  refine ⟨⟨by decide, ?_, by decide, by constructor <;> decide, ?_, by decide, by decide⟩,
    by decide, by decide, by decide⟩
  · intro p hp
    obtain ⟨n, hn, rfl⟩ := List.mem_map.mp hp
    refine ⟨?_, ht⟩
    revert n
    decide
  · rintro inner hi l hl
    obtain rfl := Option.some.inj hi
    rcases List.mem_pair.mp hl with rfl | rfl
    · exact ⟨by decide, " @title Mint".toList, by decide⟩
    · exact ⟨by decide, [], by decide⟩

theorem bare_wellFormed {name : Text} {body : List Text} (hn : IsName name)
    (hb : ∀ l ∈ body, '\n' ∉ l ∧ declares l = false) : (bare name body).WellFormed :=
  ⟨⟨hn, by simp [bare], by simp [bare], trivial, by simp [bare], by simp [bare], hb⟩,
    by simp [bare], by simp only [bare]; decide, by simp [bare]⟩

theorem ofSource_unlines_mint_bare :
    (∀ d ∈ [mint, bare "owner".toList ["/* none */;".toList]], d.WellFormed) ∧
      Record.ofSource (unlines ([mint, bare "owner".toList ["/* none */;".toList]].flatMap lines)) =
        records 0 [mint, bare "owner".toList ["/* none */;".toList]] := by
  have h : ∀ d ∈ [mint, bare "owner".toList ["/* none */;".toList]], d.WellFormed := by
    intro d hd
    rcases List.mem_pair.mp hd with rfl | rfl
    · exact mint_wellFormed
    · exact bare_wellFormed (by decide) (by decide)
  exact ⟨h, ofSource_unlines h (by decide)⟩

/-- Blanks at the end of a line do not hide a closing mark. A body that ends with a comment and a
space gives that comment to the next circuit. -/
theorem ofSource_unlines_trailing_blank :
    (∀ d ∈ [bare "a".toList ["/** x */ ".toList], bare "b".toList []], d.WellFormed) ∧
      (∀ d ∈ [bare "a".toList ["/** x */ ".toList], bare "b".toList []],
        ∀ l, d.lastLine? = some l → ¬ Comment.closing <:+ l) ∧
      Record.ofSource
          (unlines ([bare "a".toList ["/** x */ ".toList], bare "b".toList []].flatMap lines)) ≠
        records 0 [bare "a".toList ["/** x */ ".toList], bare "b".toList []] := by
  refine ⟨?_, by decide, ?_⟩
  · intro d hd
    rcases List.mem_pair.mp hd with rfl | rfl <;> exact bare_wellFormed (by decide) (by decide)
  · intro h
    exact absurd (congrArg (List.map (·.documented)) h) (by decide)

end Draft

end CircuitDocs
