import CircuitDocs.Proofs.Circuit.Padded
import CircuitDocs.Report.Basic

/-! # Reports on padded sources

No rule looks at the text of a comment or at a documented type, so records that are alike get the
same verdict, and a source keeps its report when its lines are padded.
-/

namespace CircuitDocs

open Text Filler

variable {r r' : Record}

namespace Doc.Alike

variable {d d' : Doc}

theorem names_eq (h : d.Alike d') : d'.params.map (·.name) = d.params.map (·.name) := by
  have hps := h.params
  generalize d.params = ps, d'.params = ps' at hps
  induction hps with
  | nil => rfl
  | cons hp _ ih => rw [List.map_cons, List.map_cons, hp.1, ih]

theorem throws_isEmpty_eq (h : d.Alike d') : d'.throws.isEmpty = d.throws.isEmpty := by
  have hthrows := h.throws
  generalize d.throws = es, d'.throws = es' at hthrows
  cases hthrows <;> rfl

theorem returns_isSome_eq (h : d.Alike d') : d'.returns.isSome = d.returns.isSome := by
  have hreturns := h.returns
  generalize d.returns = o, d'.returns = o' at hreturns
  cases hreturns <;> rfl

end Doc.Alike

namespace Record.Alike

theorem undocumented_eq (h : r.Alike r') : Params.undocumented r' = Params.undocumented r := by
  rw [Params.undocumented, Params.undocumented, h.signature, h.doc.names_eq]

theorem stray_eq (h : r.Alike r') (threshold : Threshold) {p p' : Doc.Param}
    (hp : p'.name = p.name) :
    Params.stray threshold r' p' = Params.stray threshold r p := by
  unfold Params.stray
  rw [hp, h.undocumented_eq]

theorem map_stray_eq (h : r.Alike r') (threshold : Threshold) :
    (Params.undeclared r').map (Params.stray threshold r') =
      (Params.undeclared r).map (Params.stray threshold r) := by
  have hps := h.doc.params
  rw [Params.undeclared, Params.undeclared, h.signature]
  generalize r.doc.params = ps, r'.doc.params = ps' at hps
  induction hps with
  | nil => rfl
  | cons hp _ ih =>
    rw [List.filter_cons, List.filter_cons, hp.1]
    split
    · rw [List.map_cons, List.map_cons, h.stray_eq threshold hp.1, ih]
    · exact ih

theorem check_eq (h : r.Alike r') (threshold : Threshold) (rule : Rule) :
    rule.check threshold r' = rule.check threshold r := by
  cases rule with
  | title => rw [Rule.check, Rule.check, h.doc.title, h.firstLine]
  | description => rw [Rule.check, Rule.check, h.doc.description, h.firstLine]
  | remarks => rw [Rule.check, Rule.check, h.doc.remarks, h.firstLine]
  | circuitInfo => rw [Rule.check, Rule.check, h.doc.circuitInfo, h.firstLine]
  | params =>
    have hstray := congrArg (List.map fun m => Issue.warning m r.firstLine Rule.params.field)
      (h.map_stray_eq threshold)
    simp only [List.map_map] at hstray
    simp only [Rule.check, Params.check, h.signature, h.undocumented_eq, h.firstLine]
    exact congrArg _ (congrArg _ hstray)
  | throws => rw [Rule.check, Rule.check, h.doc.throws_isEmpty_eq, h.firstLine]
  | returns => rw [Rule.check, Rule.check, h.doc.returns_isSome_eq, h.firstLine]

theorem verdict_eq (h : r.Alike r') (config : Config) (threshold : Threshold) (file : Text) :
    config.verdict threshold file r' = config.verdict threshold file r := by
  have hcheck : Rule.check threshold r' = Rule.check threshold r := funext (h.check_eq threshold)
  have hissues : config.issues threshold r' = config.issues threshold r := by
    unfold Config.issues Config.exempts
    rw [h.signature, h.documented, hcheck]
  simp only [Config.verdict, hissues, h.signature]

end Record.Alike

/-- Lines may be padded with blanks and tabs in front and with any blanks behind: the report stays
the same. -/
theorem FileReport.ofSource_padded {source : Text} {ls : List Text}
    (h : List.Forall₂ (PaddedLine .pads .blanks) (lines source) ls) (config : Config)
    (file : Text) :
    FileReport.ofSource config file (unlines ls) = FileReport.ofSource config file source := by
  have hverdicts : (Record.ofSource (unlines ls)).map (config.verdict .usual file) =
      (Record.ofSource source).map (config.verdict .usual file) := by
    have hrs := Record.alike_ofSource h
    generalize Record.ofSource source = rs, Record.ofSource (unlines ls) = rs' at hrs
    induction hrs with
    | nil => rfl
    | cons hr _ ih => rw [List.map_cons, List.map_cons, hr.verdict_eq, ih]
  simp only [FileReport.ofSource, FileReport.ofRecords, hverdicts]

def mintRows : List (Text × Text × Text) :=
  [("\t", "/**", "\r"), (" \t", " * @description Mints", "  \r"), ("\t\t", "tokens.", "\u2003"),
    ("\t", "", "\x0b\r"), ("", " * @param \x7bMap<A,", "\r"), (" ", "B>\x7d amont - A.", "\x1f\r"),
    ("\t", " */", "\u3000\r"), (" \t", "export circuit mint(", " "), ("\t", "amount: Field,", "\r"),
    ("", "", "\r"), ("\t", "to: Key): [] \x7b", "\u0085\r")].map
    fun (u, l, v) => (u.toList, l.toList, v.toList)

theorem FileReport.ofSource_padded_mint :
    let source := unlines (mintRows.map (·.2.1))
    let rows := mintRows.map fun row => row.1 ++ (row.2.1 ++ row.2.2)
    List.Forall₂ (PaddedLine .pads .blanks) (lines source) rows ∧
      FileReport.ofSource {} [] (unlines rows) = FileReport.ofSource {} [] source ∧
      ((FileReport.ofSource {} [] source).verdicts.flatMap (·.issues)).map (·.message) =
        ["Missing @circuitInfo tag",
          "Missing @param documentation for parameter \"amount\" (type: Field)",
          "Missing @param documentation for parameter \"to\" (type: Key)",
          "Documented @param \"amont\" does not exist in circuit signature " ++
            "(did you mean \"amount\"?)",
          "Missing @returns tag"].map String.toList := by
  intro source rows
  have hruns : ∀ row ∈ mintRows, pads.Run row.1 ∧ blanks.Run row.2.2 := by decide
  have hrows : List.Forall₂ (PaddedLine .pads .blanks) (lines source) rows := by
    rw [lines_unlines (by decide) (by decide)]
    simp only [rows, List.forall₂_map_left_iff, List.forall₂_map_right_iff, List.forall₂_same]
    intro row hrow
    exact ⟨row.1, row.2.2, (hruns row hrow).1, (hruns row hrow).2, rfl⟩
  exact ⟨hrows, FileReport.ofSource_padded hrows {} [], by decide +kernel⟩

end CircuitDocs
