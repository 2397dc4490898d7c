import CircuitDocs.Proofs.Command.Course
import CircuitDocs.Proofs.Command.Selection
import CircuitDocs.Proofs.Disk.Change
import CircuitDocs.Proofs.Report.Payload

/-! # The forms of results

Results are put out as a table, as JSON, or as JSON in a file. Command lines that differ in nothing
else end alike, unless the console refuses the heading of a table, and what they put out agrees: the
tables can be read off from the JSON.
-/

namespace CircuitDocs.Command

variable {console : Console} {disk : Disk} {here argv argv' argv'' : List Text}
  {a b c : Arguments} {target : Path} {files : List Path} {output : Text}

/-- Whether arguments ask for the same as others, with the results put out in a given form. -/
structure Arguments.Recasts (a : Arguments) (format : Format) (output : Option Text)
    (b : Arguments) : Prop where
  config : b.config = a.config
  target : b.targetText = a.targetText
  gitignore : b.gitignore = a.gitignore
  format : b.format? = some format
  output : b.output? = output

theorem Reaches.recast {output : Option Text} (h : Reaches disk here argv a target files)
    (hb : Arguments.parse argv' = .ok b) (hab : a.Recasts .json output b) :
    Reaches disk here argv' b target files := by
  refine ⟨⟨hb, ?_, ?_⟩, ?_⟩
  · simp [Arguments.fits, hab.format]
  · rw [← h.located, targetOf, targetOf, hab.target]
  · rw [hab.gitignore, h.found]

def noFilesLine (target : Path) : Text := "No .compact files found in ".toList ++ target.text

/-- What is printed of a payload: the tables of its files, each below its heading, and the
totals. -/
def printsOf (base : Path) (payload : Json) (summary : RunSummary) : List Print :=
  let titles := ["line", "severity", "field", "circuit", "message"].map String.toList
  (Table.ofPayload base payload).flatMap (fun t => [.rule t.heading, .table titles t.rows]) ++
    summary.lines.map .line

theorem prints_eq_printsOf (base : Path) {r : RunReport} (h : ∀ file ∈ r.reports, file.Sound) :
    r.prints base = printsOf base r.toJson r.summary := by
  rw [RunReport.prints, Table.ofRun_eq_ofPayload base h]
  rfl

theorem statusOf_ofFiles (config : Config) (read : Path → Except ReadFault Text) :
    statusOf (.ofFiles config read files) =
      if (RunReport.issuesIn (RunReport.ofFiles config read files).toJson).isEmpty then 0
      else 1 := by
  rw [statusOf, RunReport.hasIssues_ofFiles]
  split <;> simp_all

theorem lint_nil (hformat : a.format? = some .table) :
    lint console disk here a target [] =
      (disk, .ok { status := 0, stdout := noFilesLine target ++ ['\n'] }) := by
  rw [lint, if_pos (by simp [hformat])]
  rfl

theorem lint_table {r : RunReport} (console : Console) (here : List Text) (target : Path)
    (hformat : a.format? = some .table) (hfiles : files ≠ [])
    (hr : RunReport.ofDisk a.config disk files = .ok r)
    (hsound : ∀ report ∈ r.reports, report.Sound) :
    let prints := printsOf (baseOf disk target) r.toJson r.summary
    (∀ stdout, console.putAll prints = .ok stdout →
      lint console disk here a target files =
        (disk, .ok { status := statusOf r, stdout, stderr := errorLines r })) ∧
    ∀ message, console.putAll prints = .error message →
      lint console disk here a target files = (disk, .error (.heading message)) := by
  intro prints
  have hprints : r.prints (baseOf disk target) = prints := prints_eq_printsOf _ hsound
  have hlint : lint console disk here a target files = emit console disk here a target r := by
    rw [lint, List.isEmpty_eq_false_iff.mpr hfiles, Bool.false_and, if_neg (by decide), hr]
  rw [hlint]
  constructor
  · intro stdout hout
    simp only [emit, hformat, hprints, hout]
  · intro message hout
    simp only [emit, hformat, hprints, hout]

theorem emit_json (hformat : a.format? = some .json) (houtput : a.output? = none) (r : RunReport) :
    emit console disk here a target r =
      (disk, .ok
        { status := statusOf r, stdout := r.toJson.render ++ ['\n'], stderr := errorLines r }) := by
  simp [emit, hformat, houtput]

theorem emit_saved (hformat : a.format? = some .json) (houtput : a.output? = some output)
    (hwrite : (disk.write here (Path.ofText output) []).2 = .ok ()) (r : RunReport) :
    (emit console disk here a target r).2 = .ok { status := statusOf r, stderr := errorLines r } ∧
      (emit console disk here a target r).1.locate (Path.ofText output) here =
        .ok (.file (Utf8.encode r.toJson.render)) := by
  have hemit : emit console disk here a target r = save disk here output r := by
    simp [emit, hformat, houtput]
  have hwrite' : (disk.write here (Path.ofText output) (Utf8.encode r.toJson.render)).2 =
      .ok () := (disk.write_result here _ [] _).trans hwrite
  have hlocate := Disk.locate_write hwrite'
  rw [hemit, save]
  generalize disk.write here (Path.ofText output) (Utf8.encode r.toJson.render) = x at *
  obtain ⟨d, result⟩ := x
  obtain rfl : result = .ok () := hwrite'
  exact ⟨rfl, hlocate⟩

theorem lint_eq_emit {r : RunReport} (hformat : a.format? = some .json)
    (hr : RunReport.ofDisk a.config disk files = .ok r) :
    lint console disk here a target files = emit console disk here a target r := by
  rw [lint, if_neg (by simp [hformat]), hr]

theorem lint_json {r : RunReport} (hformat : b.format? = some .json) (houtput : b.output? = none)
    (hr : RunReport.ofDisk b.config disk files = .ok r) :
    lint console disk here b target files =
      (disk, .ok
        { status := statusOf r, stdout := r.toJson.render ++ ['\n'], stderr := errorLines r }) := by
  rw [lint_eq_emit hformat hr, emit_json hformat houtput]

theorem lint_saved {r : RunReport} (console : Console) (hformat : c.format? = some .json)
    (houtput : c.output? = some output) (hr : RunReport.ofDisk c.config disk files = .ok r)
    (hwrite : (disk.write here (Path.ofText output) []).2 = .ok ()) :
    (lint console disk here c target files).2 =
        .ok { status := statusOf r, stderr := errorLines r } ∧
      (lint console disk here c target files).1.locate (Path.ofText output) here =
        .ok (.file (Utf8.encode r.toJson.render)) := by
  rw [lint_eq_emit hformat hr]
  exact emit_saved hformat houtput hwrite r

theorem success_mem_printsOf (base : Path) (config : Config) (read : Path → Except ReadFault Text)
    (files : List Path) :
    let r := RunReport.ofFiles config read files
    .line RunSummary.success ∈ printsOf base r.toJson r.summary ↔
      (RunReport.issuesIn r.toJson).isEmpty = true := by
  intro r
  have haccounts : r.Accounts config read files := RunReport.accounts_ofFiles config read files
  have hissues : r.summary.hasIssues = !(RunReport.issuesIn r.toJson).isEmpty :=
    RunReport.hasIssues_ofFiles
  have hpos := haccounts.hasIssues
  rw [hissues, Bool.not_eq_true', ← Bool.not_eq_true] at hpos
  have hprints : r.prints base = printsOf base r.toJson r.summary :=
    prints_eq_printsOf base fun _ => RunReport.sound_of_mem_reports
  rw [← hprints, RunReport.success_mem_prints, ← not_iff_not, hpos]
  simp [haccounts.noErrors, Nat.pos_iff_ne_zero]

theorem exists_table_of_putAll {base : Path} {payload : Json} {summary : RunSummary}
    {message : Text} (h : console.putAll (printsOf base payload summary) = .error message) :
    ∃ t ∈ Table.ofPayload base payload, console.rule t.heading = .error message := by
  obtain ⟨title, hmem, hrule⟩ := Console.exists_rule_of_putAll h
  have htitle : ∃ t ∈ Table.ofPayload base payload, title = t.heading := by
    simpa [printsOf] using hmem
  obtain ⟨t, ht, rfl⟩ := htitle
  exact ⟨t, ht, hrule⟩

/-- Runs that differ in the form of their results only end with the same status and the same errors:
1 if an issue is in the payload, and 0 if not. For a terminal the tables of the files in the payload
are printed, and the line of success, or the one for no files, exactly when the status is 0. What
the console shows stands in the output in this order. But the run ends without a status when the
console refuses the heading of a table. -/
theorem formats_agree (console : Console) (output : Text) (hdisk : disk.root.nullFree = true)
    (ha : Reaches disk here argv a target files) (hformat : a.format? = some .table)
    (hb : Arguments.parse argv' = .ok b) (hab : a.Recasts .json none b)
    (hc : Arguments.parse argv'' = .ok c) (hac : a.Recasts .json (some output) c)
    (hwrite : (disk.write here (Path.ofText output) []).2 = .ok ()) :
    let r := RunReport.ofFiles a.config disk.read files
    let status := if (RunReport.issuesIn r.toJson).isEmpty then 0 else 1
    let prints := printsOf (baseOf disk target) r.toJson r.summary
    run console disk here argv' =
        (disk, .ok { status, stdout := r.toJson.render ++ ['\n'], stderr := errorLines r }) ∧
      (run console disk here argv'').2 = .ok { status, stderr := errorLines r } ∧
      (run console disk here argv'').1.locate (Path.ofText output) here =
        .ok (.file (Utf8.encode r.toJson.render)) ∧
      (files = [] → run console disk here argv =
        (disk, .ok
          { status, stdout := noFilesLine target ++ ['\n'], stderr := errorLines r })) ∧
      (files ≠ [] →
        (∀ stdout, console.putAll prints = .ok stdout →
          run console disk here argv = (disk, .ok { status, stdout, stderr := errorLines r })) ∧
        (∀ message, console.putAll prints = .error message →
          run console disk here argv = (disk, .error (.heading message)) ∧
            ∃ t ∈ Table.ofPayload (baseOf disk target) r.toJson,
              console.rule t.heading = .error message) ∧
        ((∀ p ∈ prints, console.Shows p) → ∃ stdout,
          run console disk here argv = (disk, .ok { status, stdout, stderr := errorLines r }) ∧
            Carries (prints.flatMap Print.texts) stdout)) ∧
      (files = [] ∨ .line RunSummary.success ∈ prints ↔ status = 0) := by
  intro r status prints
  have hb' := ha.recast hb hab
  have hc' := ha.recast hc hac
  have hstatus : statusOf r = status := statusOf_ofFiles a.config disk.read
  have hr := ha.ofDisk_eq hdisk a.config
  have hr' : RunReport.ofDisk b.config disk files = .ok r := hab.config ▸ hr
  have hr'' : RunReport.ofDisk c.config disk files = .ok r := hac.config ▸ hr
  rw [ha.run_eq, hb'.run_eq, hc'.run_eq, ← hstatus]
  obtain ⟨hsaved, hlocate⟩ := lint_saved console hac.format hac.output hr'' hwrite
  refine ⟨lint_json hab.format hab.output hr', hsaved, hlocate, ?_, fun hfiles => ?_, ?_⟩
  · rintro rfl
    exact lint_nil hformat
  · obtain ⟨hput, hrefused⟩ := lint_table console here target hformat hfiles hr
      fun _ => RunReport.sound_of_mem_reports
    refine ⟨hput, fun message hout => ⟨hrefused message hout, exists_table_of_putAll hout⟩, ?_⟩
    intro hshows
    obtain ⟨stdout, hout, hcarries⟩ := Console.exists_putAll_of_shows hshows
    exact ⟨stdout, hput stdout hout, hcarries⟩
  · have hsuccess : .line RunSummary.success ∈ prints ↔
        (RunReport.issuesIn r.toJson).isEmpty = true :=
      success_mem_printsOf (baseOf disk target) a.config disk.read files
    rw [hstatus, hsuccess]
    constructor
    · rintro (rfl | h)
      · rfl
      · exact if_pos h
    · intro h
      refine Or.inr (by_contra fun hne => ?_)
      rw [show status = 1 from if_neg hne] at h
      contradiction

def mixed : Disk where
  root := .file "bad.compact".toList [0xff]
    (.file "pay.compact".toList (Utf8.encode "export circuit pay(): [] \x7b".toList) .empty)

theorem reaches_mixed :
    Reaches mixed [] ["/".toList] { target := some "/".toList } (.absolute [])
      [.absolute ["bad.compact".toList], .absolute ["pay.compact".toList]] := by
  have hroot : mixed.ask (.absolute []) = .ok (.folder mixed.root) := by decide +kernel
  have hpatterns : mixed.patterns (.absolute []) = .ok (.ok []) := by decide +kernel
  have hloop : (mixed.search (.absolute []) []).loop [⟨[], mixed.root⟩] =
      .ok [["bad.compact".toList], ["pay.compact".toList]] := by decide +kernel
  have hsorted : sortNames [["bad.compact".toList], ["pay.compact".toList]] =
      [["bad.compact".toList], ["pay.compact".toList]] :=
    List.mergeSort_of_pairwise (by decide)
  refine ⟨⟨by decide +kernel, by decide, by decide +kernel⟩, ?_⟩
  rw [show Arguments.gitignore { target := some "/".toList } = true from rfl,
    Disk.discover_folder hroot ((if_pos rfl).trans hpatterns), Disk.searchFolder, Search.run, hloop]
  simp only [Except.map, hsorted]
  rfl

theorem formats_agree_mixed :
    let files : List Path := [.absolute ["bad.compact".toList], .absolute ["pay.compact".toList]]
    let r := RunReport.ofFiles {} mixed.read files
    let errors := ("read_error: /bad.compact: 'utf-8' codec can't decode byte 0xff in position 0" ++
      ": invalid start byte\n").toList
    let saving := ["--format", "json", "--output", "/out/new.json", "/"].map String.toList
    let texts := ["pay.compact", "line", "severity", "field", "circuit", "message", "1", "warning",
      "documentation", "pay", "Circuit has no documentation comment", "", "Summary:",
      "  Files checked: 1, Circuits: 1, Valid: 0", "  Issues: 1 warning(s), 0 error(s)"]
    mixed.root.nullFree = true ∧
      Reaches mixed [] ["/".toList] { target := some "/".toList } (.absolute []) files ∧
      (mixed.write [] (.ofText "/out/new.json".toList) []).2 = .ok () ∧
      (∃ stdout, run .wide mixed [] ["/".toList] =
          (mixed, .ok { status := 1, stdout, stderr := errors }) ∧
        Carries (texts.map String.toList) stdout) ∧
      run .wide mixed [] (["--format=json", "/"].map String.toList) =
        (mixed, .ok { status := 1, stdout := r.toJson.render ++ ['\n'], stderr := errors }) ∧
      (run .wide mixed [] saving).2 = .ok { status := 1, stderr := errors } ∧
      (run .wide mixed [] saving).1.locate (.ofText "/out/new.json".toList) [] =
        .ok (.file (Utf8.encode r.toJson.render)) := by
  intro files r errors saving texts
  have hreaches : Reaches mixed [] ["/".toList] { target := some "/".toList } (.absolute [])
      files := reaches_mixed
  have hjson : Arguments.parse (["--format=json", "/"].map String.toList) =
      .ok { target := some "/".toList, format := .given .json } := by decide +kernel
  have hsaving : Arguments.parse saving =
      .ok { target := some "/".toList, format := .given .json,
            output := .given "/out/new.json".toList } := by decide +kernel
  have hdisk : mixed.root.nullFree = true := by decide
  have hwrite : (mixed.write [] (.ofText "/out/new.json".toList) []).2 = .ok () := by
    decide +kernel
  have hagree := formats_agree .wide "/out/new.json".toList hdisk hreaches rfl hjson
    ⟨rfl, rfl, rfl, rfl, rfl⟩ hsaving ⟨rfl, rfl, rfl, rfl, rfl⟩ hwrite
  have hconfig : Arguments.config { target := some "/".toList } = {} := rfl
  have hbase : baseOf mixed (.absolute []) = .absolute [] := by decide +kernel
  have hissues : (RunReport.issuesIn (RunReport.ofFiles {} mixed.read files).toJson).isEmpty =
      false := by decide +kernel
  have herrors : errorLines (RunReport.ofFiles {} mixed.read files) = errors := by decide +kernel
  have hprints : printsOf (.absolute []) r.toJson r.summary =
      .rule "pay.compact".toList :: .table Table.titles [["1", "warning", "documentation", "pay",
          "Circuit has no documentation comment"].map String.toList] ::
        (["", "Summary:", "  Files checked: 1, Circuits: 1, Valid: 0",
          "  Issues: 1 warning(s), 0 error(s)"].map String.toList).map Print.line := by
    decide +kernel
  simp only [hconfig, hbase, hissues, herrors, Bool.false_eq_true, if_false] at hagree
  obtain ⟨hprint, hsave, hlocate, -, htable, -⟩ := hagree
  obtain ⟨-, -, hshown⟩ := htable (by simp [files])
  refine ⟨hdisk, hreaches, hwrite, ?_, hprint, hsave, hlocate⟩
  rw [show printsOf (.absolute []) (RunReport.ofFiles {} mixed.read files).toJson
    (RunReport.ofFiles {} mixed.read files).summary = _ from hprints] at hshown
  refine hshown ?_
  rw [List.forall_mem_cons, List.forall_mem_cons]
  refine ⟨Console.wide_shows_rule (by decide), Console.wide_shows_table (by decide) (by decide),
    fun p hp => ?_⟩
  obtain ⟨t, -, rfl⟩ := List.mem_map.mp hp
  exact Console.wide_shows_line t

def bracketed (above name : Text) : Disk where
  root := .folder above (.file name (Utf8.encode "export circuit pay(): [] \x7b".toList) .empty)
    .empty

/-- The path of a file is read as markup where it is the heading of a table, although issues are
found in all forms. The end of a tag that was never begun is refused, and other tags are left
out. -/
theorem formats_disagree :
    let slashed := bracketed "[".toList "x].compact".toList
    let tagged := bracketed "[id]".toList "a.compact".toList
    let printing := ["--format=json", "/"].map String.toList
    status? (run .wide slashed [] printing) = some 1 ∧
      (run .wide slashed [] ["/".toList]).2 = .error (.heading
        "closing tag '[/x]' at position 0 doesn't match any open tag".toList) ∧
      status? (run .wide tagged [] printing) = some 1 ∧
      (run .wide tagged [] ["/".toList]).2.toOption.map (·.stdout.take 20) =
        some "---- /a.compact ----".toList := by
  decide +kernel

end CircuitDocs.Command
