import CircuitDocs.Proofs.Circuit.Draft
import CircuitDocs.Proofs.Doc.Template
import CircuitDocs.Proofs.Rules.Selection
import CircuitDocs.Report.Basic

/-! # Verdicts on filled-in templates

A circuit below a filled-in template gets a verdict that names exactly the parts that are required
and were left out.
-/

namespace CircuitDocs

open Text Doc

namespace Template

variable {t : Template} {record : Record} {d : Draft}

/-! ## Findings -/

def absent (required present : Bool) (message field : String) : List Issue :=
  if required && !present then [.warning message.toList 1 field.toList] else []

def leftOut (p : Parameter) : Issue :=
  .warning ("Missing @param documentation for parameter \"".toList ++ p.name ++
    "\" (type: ".toList ++ p.type ++ ")".toList) 1 "@param".toList

/-- What a configuration finds missing in a template above the given parameters. -/
def findings (t : Template) (config : Config) (ps : List Parameter) : List Issue :=
  absent config.requireTitle t.title.isSome "Missing @title tag" "@title" ++
  absent config.requireDescription t.description.isSome "Missing @description tag" "@description" ++
  absent config.requireRemarks t.remarks.isSome "Missing @remarks section" "@remarks" ++
  absent config.requireCircuitInfo t.circuitInfo.isSome "Missing @circuitInfo tag" "@circuitInfo" ++
  (if config.requireParams then
    (ps.filter fun p => !(t.params.map (·.name)).contains p.name).map leftOut else []) ++
  absent config.requireThrows t.throws.isSome "Missing @throws documentation" "@throws" ++
  absent config.requireReturns t.returns.isSome "Missing @returns tag" "@returns"

theorem prose_ne_nil {p : Passage} (hp : p.WellFormed) (hne : p.words ≠ []) : p.prose ≠ [] := by
  intro h
  rw [← words_intercalate_space fun w hw => (hp.words w hw).1, ← Passage.prose, h, words_nil] at hne
  exact hne rfl

theorem WellFormed.given_prose (ht : t.WellFormed) (tag : Tag) {o : Option Passage}
    (hpart : t.part (Mark.tag tag).rule = o.toList.map (⟨.tag tag, ·⟩)) :
    Rule.given (o.map Passage.prose) = o.isSome := by
  cases o with
  | none => rfl
  | some p =>
    obtain ⟨⟨-, hp⟩, hne⟩ := ht.layouts ⟨.tag tag, p⟩ (mem_layouts (by rw [hpart]; simp))
    simpa [Rule.given] using prose_ne_nil hp hne

theorem expect_eq_absent (required present : Bool) (message : String) (rule : Rule) (field : String)
    (hf : rule.field = field.toList) :
    (if required then Rule.expect present message 1 rule else []) =
      absent required present message field := by
  rw [Rule.expect, absent, hf]
  cases required <;> cases present <;> rfl

theorem WellFormed.check_circuitInfo (ht : t.WellFormed) (line : Int) :
    CircuitInfo.check (t.circuitInfo.map Passage.prose) line =
      Rule.expect t.circuitInfo.isSome "Missing @circuitInfo tag" line .circuitInfo := by
  cases hi : t.circuitInfo with
  | none => rfl
  | some p =>
    obtain ⟨k, rows, hk, hr, hwords⟩ := ht.circuitInfo p hi
    have hprose : p.prose = CircuitInfo.written k rows := by
      simp [Passage.prose, hwords, CircuitInfo.written]
    have hwell := CircuitInfo.wellFormed_written hk hr
    rw [Option.map_some, hprose, CircuitInfo.check, Option.getD_some]
    split
    · rename_i h
      simp [CircuitInfo.written] at h
    · rename_i h
      rw [← h, hwell]
      rfl

theorem check_params (threshold : Threshold) (hdoc : record.doc = t.doc)
    (hline : record.firstLine = 1)
    (hnames : ∀ p ∈ t.params, p.name ∈ record.signature.parameters.map (·.name)) :
    Rule.check threshold record .params =
      (record.signature.parameters.filter fun p =>
        !(t.params.map (·.name)).contains p.name).map leftOut := by
  have hdocumented : record.doc.params.map (·.name) = t.params.map (·.name) := by
    rw [hdoc, doc, List.map_map]
    rfl
  have hundeclared : Params.undeclared record = [] := by
    refine List.filter_eq_nil_iff.mpr fun q hq => ?_
    rw [hdoc] at hq
    obtain ⟨p, hp, rfl⟩ := List.mem_map.mp hq
    simpa using hnames p hp
  have hundocumented : Params.undocumented record = record.signature.parameters.filter fun p =>
      !(t.params.map (·.name)).contains p.name := by
    rw [Params.undocumented, hdocumented]
    exact List.filter_congr fun p _ => by simp only [List.contains_eq_mem, decide_not]
  rw [Rule.check, Params.check, hundeclared, hundocumented, hline]
  split
  · rename_i h
    rw [List.isEmpty_iff.mp h]
    rfl
  · rw [List.map_nil, List.append_nil]
    rfl

theorem WellFormed.issues_eq (ht : t.WellFormed) (threshold : Threshold) (config : Config)
    (hdoc : record.doc = t.doc) (hd : record.documented = true) (hline : record.firstLine = 1)
    (hnames : ∀ p ∈ t.params, p.name ∈ record.signature.parameters.map (·.name)) :
    config.issues threshold record =
      if config.exportedOnly && !record.signature.exported then []
      else t.findings config record.signature.parameters := by
  have hparams := check_params threshold hdoc hline hnames
  have hthrows : (!t.doc.throws.isEmpty) = t.throws.isSome := by
    cases h : t.throws <;> simp [doc, h]
  have hreturns : t.doc.returns.isSome = t.returns.isSome := by simp [doc]
  have htitle : Rule.given t.doc.title = t.title.isSome := ht.given_prose .title rfl
  have hdescription : Rule.given t.doc.description = t.description.isSome :=
    ht.given_prose .description rfl
  have hremarks : Rule.given t.doc.remarks = t.remarks.isSome := ht.given_prose .remarks rfl
  have hinfo := ht.check_circuitInfo 1
  rw [Config.issues, Config.exempts, hd, if_pos rfl, flatMap_filter_requires]
  simp only [Rule.all, List.flatMap_cons, List.flatMap_nil, hparams]
  simp only [Rule.check, Config.requires, hdoc, hline, hthrows, hreturns, htitle, hdescription,
    hremarks]
  rw [show t.doc.circuitInfo = t.circuitInfo.map Passage.prose from rfl, hinfo,
    expect_eq_absent _ _ _ .title "@title" rfl,
    expect_eq_absent _ _ _ .description "@description" rfl,
    expect_eq_absent _ _ _ .remarks "@remarks" rfl,
    expect_eq_absent _ _ _ .circuitInfo "@circuitInfo" rfl,
    expect_eq_absent _ _ _ .throws "@throws" rfl, expect_eq_absent _ _ _ .returns "@returns" rfl,
    findings]
  simp only [List.append_assoc, List.append_nil]
  rfl

/-! ## Verdicts -/

def fill (t : Template) (d : Draft) : Draft :=
  { d with doc := some (Item.block t.lead (t.layouts.map Layout.item)) }

theorem WellFormed.layouts_wellFormed (ht : t.WellFormed) : ∀ e ∈ t.layouts, e.WellFormed :=
  fun e he => (ht.layouts e he).1

theorem WellFormed.fill_sound (ht : t.WellFormed) (hd : d.Sound) : (t.fill d).Sound where
  name := hd.name
  parameters := hd.parameters
  returnType := hd.returnType
  setting := hd.setting
  gap := hd.gap
  body := hd.body
  doc inner hi l hl := by
    obtain rfl := Option.some.inj hi
    exact Item.mem_block (Layout.forall_item_wellFormed ht.layouts_wellFormed) hl

theorem WellFormed.ofComment_fill (ht : t.WellFormed) (d : Draft) :
    Doc.ofComment (unlines (t.fill d).docLines) = t.doc := by
  have hes := ht.layouts_wellFormed
  have hlines : (t.fill d).docLines =
      Comment.block (Item.block t.lead (t.layouts.map Layout.item)) := rfl
  rw [hlines, Item.ofComment_block t.lead (Layout.forall_item_wellFormed hes),
    Layout.map_tagged_item hes, ht.doc_layouts]

def verdict (t : Template) (d : Draft) (config : Config) (file : Text) : Verdict :=
  let issues :=
    if config.exportedOnly && !d.exported then [] else t.findings config d.parameters
  ⟨d.name, file, (t.fill d).docLines.length + d.gap.length + 1, issues.isEmpty, issues⟩

/-- A circuit below a filled-in template is reported with the parts that are missing. -/
theorem verdicts_fill (hd : d.Sound) (ht : t.WellFormed)
    (hnames : ∀ p ∈ t.params, p.name ∈ d.parameters.map (·.name)) (config : Config) (file : Text) :
    (FileReport.ofSource config file (unlines (t.fill d).lines)).verdicts =
      [t.verdict d config file] := by
  have hdoc : ((t.fill d).record 0 (Signature.returnTypeIn (t.fill d).tail)).doc = t.doc :=
    ht.ofComment_fill d
  have hissues := ht.issues_eq .usual config hdoc rfl rfl hnames
  rw [FileReport.ofSource, (ht.fill_sound hd).ofSource_lines, FileReport.ofRecords]
  simp only [List.map_cons, List.map_nil, Config.verdict]
  rw [hissues]
  simp only [Draft.record, verdict, Int.natCast_zero, Int.zero_add]
  rfl

def payee : Template where
  lead := 1
  title := none
  description := some ⟨["Mints".toList, "-".toList], [], [["tokens.".toList]], 1⟩
  remarks := some ⟨[], " ".toList, [["Requirements:".toList], ["-".toList, "none".toList]], 0⟩
  circuitInfo := some ⟨["k=11,".toList, "rows=1305".toList], [], [], 2⟩
  params := [⟨⟨"Map<A, B>".toList, ["who".toList], [], [], 0⟩, "payee".toList⟩]
  throws := none
  returns := some ⟨"[]".toList, ["Nothing.".toList], [], [], 0⟩

theorem payee_wellFormed : payee.WellFormed where
  layouts := by decide +kernel
  circuitInfo p hp := by
    obtain rfl := Option.some.inj hp
    exact ⟨"11".toList, "1305".toList, by decide, by decide, rfl⟩

theorem verdicts_fill_payee :
    { Draft.mint with setting := .row }.Sound ∧ payee.WellFormed ∧
      (FileReport.ofSource .strict "a.compact".toList
          (unlines (payee.fill { Draft.mint with setting := .row }).lines)).verdicts =
        [⟨"mint".toList, "a.compact".toList, 16, false,
          [.warning "Missing @title tag".toList 1 "@title".toList,
            leftOut ⟨"payer".toList, "Either<Key, (Address)>".toList⟩,
            .warning "Missing @throws documentation".toList 1 "@throws".toList]⟩] := by
  have hd : { Draft.mint with setting := .row }.Sound :=
    { Draft.mint_wellFormed.toSound with setting := trivial }
  exact ⟨hd, payee_wellFormed,
    (verdicts_fill hd payee_wellFormed (by decide) .strict _).trans (by decide +kernel)⟩

end Template

end CircuitDocs
