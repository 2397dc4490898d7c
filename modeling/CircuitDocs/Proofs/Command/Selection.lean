import CircuitDocs.Command.Run
import CircuitDocs.Proofs.Command.Switch
import CircuitDocs.Proofs.Report.Console
import CircuitDocs.Proofs.Report.Payload
import CircuitDocs.Proofs.Report.Selection

/-! # Switches and the status of a run

A switch that selects rules bears on nothing but the configuration. A run that asks for more fails
where it failed before, and finds no fewer circuits with issues where it comes to its end. Only a
heading for one of them that the console refuses can keep it from there.
-/

namespace CircuitDocs

open Command

namespace Disk

theorem put_result (d : Disk) (here : List Text) (p : Path) (content content' : List UInt8) :
    (d.put here p content').map (fun _ => ()) = (d.put here p content).map fun _ => () := by
  unfold put
  cases d.place here p with
  | error cause => rfl
  | ok place =>
    simp only
    split
    · rfl
    · cases place.entries.follow place.name with
      | error cause => rfl
      | ok name =>
        simp only
        split <;> rfl

theorem write_result (d : Disk) (here : List Text) (p : Path) (content content' : List UInt8) :
    (d.write here p content').2 = (d.write here p content).2 := by
  unfold write
  rcases d.makeFolders here p.parent with ⟨d, fault | _⟩
  · rfl
  · have hput := put_result d here p content content'
    simp only
    split
    · rfl
    · cases hx : d.put here p content <;> cases hy : d.put here p content' <;>
        simp_all [Except.map]

end Disk

namespace Command

variable {console : Console} {disk : Disk} {here : List Text} {a a' : Arguments} {target : Path}
  {r r' : RunReport} {s : Switch}

def status? (x : Disk × Except Crash Outcome) : Option Nat := x.2.toOption.map (·.status)

/-- Of two runs the second one fails where the first one does, unless the console refuses a heading,
and the first one succeeds where the second one does. -/
structure Worsens (x x' : Disk × Except Crash Outcome) : Prop where
  one : status? x = some 1 → status? x' = some 1 ∨ ∃ message, x'.2 = .error (.heading message)
  zero : status? x' = some 0 → status? x = some 0

theorem Worsens.refl (x : Disk × Except Crash Outcome) : Worsens x x := ⟨Or.inl, id⟩

theorem statusOf_eq (r : RunReport) : statusOf r = if 0 < r.summary.withIssues then 1 else 0 := by
  simp only [statusOf, RunSummary.hasIssues, decide_eq_true_eq]

theorem worsens_of_status {x x' : Disk × Except Crash Outcome}
    (h : r.summary.withIssues ≤ r'.summary.withIssues) (hx : status? x = some (statusOf r))
    (hx' : status? x' = some (statusOf r')) : Worsens x x' := by
  rw [statusOf_eq] at hx hx'
  constructor
  · intro hone
    rw [hx] at hone
    split at hone
    · rename_i hr
      rw [hx', if_pos (Nat.lt_of_lt_of_le hr h)]
      exact Or.inl rfl
    · simp at hone
  · intro hzero
    rw [hx'] at hzero
    split at hzero
    · simp at hzero
    · rw [hx, if_neg (by omega)]

/-- Two command lines ask for the same, but for rules that only the second one selects. -/
structure Arguments.Below (a a' : Arguments) : Prop where
  config : a.config ≤ a'.config
  format : a'.format? = a.format?
  output : a'.output? = a.output?
  target : a'.targetText = a.targetText
  gitignore : a'.gitignore = a.gitignore

/-! ## Stages of a run -/

theorem worsens_save (output : Text) (h : r.summary.withIssues ≤ r'.summary.withIssues) :
    Worsens (save disk here output r) (save disk here output r') := by
  have hwrite := Disk.write_result disk here (Path.ofText output) (Utf8.encode r.toJson.render)
    (Utf8.encode r'.toJson.render)
  unfold save
  generalize disk.write here (Path.ofText output) (Utf8.encode r.toJson.render) = x,
    disk.write here (Path.ofText output) (Utf8.encode r'.toJson.render) = x' at hwrite
  obtain ⟨d, result⟩ := x
  obtain ⟨d', result'⟩ := x'
  obtain rfl : result' = result := hwrite
  rcases result' with (fault | _) | _
  · exact ⟨Or.inl, id⟩
  · exact ⟨Or.inl, id⟩
  · exact worsens_of_status h rfl rfl

/-- A report without issues is printed without headings. -/
theorem putAll_prints (console : Console) (base : Path)
    (h : ∀ v ∈ r.verdicts, v.valid = true) :
    console.putAll (r.prints base) = .ok (r.summary.lines.flatMap console.line) := by
  rw [RunReport.prints, Table.ofRun_eq_nil base h]
  exact console.putAll_lines _

theorem worsens_emit (ha : a.Below a') (h : r.summary.withIssues ≤ r'.summary.withIssues)
    (hvalid : r.summary.withIssues = 0 → ∀ v ∈ r.verdicts, v.valid = true) :
    Worsens (emit console disk here a target r) (emit console disk here a' target r') := by
  unfold emit
  rw [ha.format, ha.output]
  split
  · exact worsens_save _ h
  · exact worsens_of_status h rfl rfl
  · cases hout' : console.putAll (r'.prints (baseOf disk target)) with
    | error message => exact ⟨fun _ => Or.inr ⟨message, rfl⟩, by simp [status?, Except.toOption]⟩
    | ok out' =>
      cases hout : console.putAll (r.prints (baseOf disk target)) with
      | ok out => exact worsens_of_status h rfl rfl
      | error message =>
        refine ⟨by simp [status?, Except.toOption], fun hzero => ?_⟩
        have hnone : r.summary.withIssues = 0 := by
          have hstatus : statusOf r' = 0 := Option.some.inj hzero
          rw [statusOf_eq] at hstatus
          split at hstatus <;> omega
        rw [putAll_prints console _ (hvalid hnone)] at hout
        contradiction

theorem worsens_lint (ha : a.Below a') (files : List Path) :
    Worsens (lint console disk here a target files) (lint console disk here a' target files) := by
  unfold lint RunReport.ofDisk
  rw [ha.format]
  split
  · exact .refl _
  · by_cases hnull : files.any Path.hasNull = true
    · rw [if_pos hnull, if_pos hnull]
      exact .refl _
    · rw [if_neg hnull, if_neg hnull]
      refine worsens_emit ha (RunReport.withIssues_le ha.config) fun hnone v hv => ?_
      rw [(RunReport.accounts_ofFiles _ _ _).invalid, List.countP_eq_zero] at hnone
      simpa using hnone v hv

theorem worsens_runOn (ha : a.Below a') :
    Worsens (runOn console disk here a target) (runOn console disk here a' target) := by
  unfold runOn
  rw [ha.gitignore]
  split
  · exact .refl _
  · exact .refl _
  · exact .refl _
  · exact worsens_lint ha _

theorem worsens_runWith (ha : a.Below a') :
    Worsens (runWith console disk here a) (runWith console disk here a') := by
  have htarget : targetOf disk here a' = targetOf disk here a := by
    unfold targetOf
    rw [ha.target]
  unfold runWith
  rw [ha.output, ha.format, htarget]
  split
  · exact .refl _
  · split
    · exact worsens_runOn ha
    · exact .refl _

/-! ## Switches -/

def Switch.demands : Switch → Bool
  | all | strict | requireTitle | requireRemarks | requireThrows => true
  | _ => false

def Switch.relaxes : Switch → Bool
  | noRequireDescription | noRequireCircuitInfo | noRequireParams | noRequireReturns => true
  | _ => false

theorem Arguments.gives_front (s s' : Switch) (a : Arguments) :
    (a.front s).gives s' = (decide (s' = s) || a.gives s') := by
  simp only [gives, front, List.mem_cons, Bool.decide_or]

theorem Arguments.below_front (hs : s.demands = true) (a : Arguments) : a.Below (a.front s) := by
  constructor
  · constructor
    · intro rule
      cases s <;> cases rule <;> simp [Switch.demands, Config.requires, config, gives_front] at hs ⊢
    · cases s <;> simp [Switch.demands, config, gives_front] at hs ⊢
  · rfl
  · rfl
  · rfl
  · cases s <;> simp [Switch.demands, gitignore, gives_front] at hs ⊢

theorem Arguments.front_below (hs : s.relaxes = true) (a : Arguments) : (a.front s).Below a := by
  constructor
  · constructor
    · intro rule
      cases s <;> cases rule <;> simp [Switch.relaxes, Config.requires, config, gives_front] at hs ⊢
    · cases s <;> simp [Switch.relaxes, config, gives_front] at hs ⊢
  · rfl
  · rfl
  · rfl
  · cases s <;> simp [Switch.relaxes, gitignore, gives_front] at hs ⊢

theorem worsens_run {w : Text} (hw : (w, .switch s) ∈ Choice.spellings) (hs : s.demands = true)
    (argv : List Text) :
    Worsens (run console disk here argv) (run console disk here (w :: argv)) := by
  unfold run
  rw [Arguments.parse_cons hw]
  cases Arguments.parse argv with
  | error stop => cases stop <;> exact .refl _
  | ok a => exact worsens_runWith (a.below_front hs)

theorem worsens_run_of_relaxes {w : Text} (hw : (w, .switch s) ∈ Choice.spellings)
    (hs : s.relaxes = true) (argv : List Text) :
    Worsens (run console disk here (w :: argv)) (run console disk here argv) := by
  unfold run
  rw [Arguments.parse_cons hw]
  cases Arguments.parse argv with
  | error stop => cases stop <;> exact .refl _
  | ok a => exact worsens_runWith (a.front_below hs)

/-- A configuration picks its issues from those of one that asks for more, so that every count of
issues grows with what is asked for. On the command line, a switch that asks for more never makes
issues go away, although the console may refuse to head the files with new ones, and a switch that
asks for less never makes issues appear. -/
theorem selection_mono {c c' : Config} (h : c ≤ c') :
    (∀ rule i, i.field = rule.field → c.selects i = c.requires rule) ∧
    (∀ i, i.field = "documentation".toList → c.selects i = true) ∧
    (∀ threshold record, c.issues threshold record =
      if c.exempts record then [] else (c'.issues threshold record).filter c.selects) ∧
    (∀ file source,
      (FileReport.ofSource c file source).Below (FileReport.ofSource c' file source)) ∧
    ∀ (console : Console) (disk : Disk) (here argv : List Text) (w : Text) (s : Switch),
      (w, .switch s) ∈ Choice.spellings →
        (s.demands = true → status? (run console disk here argv) = some 1 →
          status? (run console disk here (w :: argv)) = some 1 ∨
            ∃ message, (run console disk here (w :: argv)).2 = .error (.heading message)) ∧
        (s.relaxes = true → status? (run console disk here argv) = some 0 →
          status? (run console disk here (w :: argv)) = some 0) := by
  refine ⟨fun _ _ => Config.selects_of_field, fun _ => Config.selects_of_documentation,
    Config.issues_eq_filter h, FileReport.below_ofSource h, ?_⟩
  intro console disk here argv w s hw
  constructor
  · intro hs
    exact (worsens_run hw hs argv).one
  · intro hs
    exact (worsens_run_of_relaxes hw hs argv).zero

def shelf : Disk where
  root := .file "pay.compact".toList (Utf8.encode (Text.unlines (["/** @description Pays.",
    " * @circuitInfo k=9, rows=12 */", "export circuit pay(): [] \x7b"].map String.toList))) .empty

theorem selection_mono_shelf :
    let records := Record.ofSource (Text.unlines (["/** @description Pays.",
      " * @circuitInfo k=9, rows=12 */", "export circuit pay(): [] \x7b"].map String.toList))
    let relaxed := ["--no-require-returns".toList, "/pay.compact".toList]
    ({} : Config) ≤ .strict ∧
      records.map (fun r => (Config.strict.issues .usual r).map (·.field)) =
        [["@title", "@remarks", "@throws", "@returns"].map String.toList] ∧
      (∀ r ∈ records, ({} : Config).issues .usual r =
        (Config.strict.issues .usual r).filter (Config.selects {})) ∧
      status? (run .wide shelf [] ["/".toList]) = some 1 ∧
      status? (run .wide shelf [] ["-a".toList, "/".toList]) = some 1 ∧
      status? (run .wide shelf [] relaxed) = some 0 ∧
      status? (run .wide shelf [] ("--no-require-params".toList :: relaxed)) = some 0 := by
  intro records relaxed
  have hle : ({} : Config) ≤ .strict := ⟨fun rule => by cases rule <;> decide, by decide⟩
  have hone : status? (run .wide shelf [] ["/".toList]) = some 1 := by decide +kernel
  have hzero : status? (run .wide shelf [] relaxed) = some 0 := by decide +kernel
  obtain ⟨-, -, hissues, -, hrun⟩ := selection_mono hle
  refine ⟨hle, by decide +kernel, ?_, hone, ?_, hzero, ?_⟩
  · intro r hr
    have hexempt : ∀ r ∈ records, ({} : Config).exempts r = false := by decide +kernel
    rw [hissues, hexempt r hr]
    rfl
  · rcases (hrun .wide shelf [] _ "-a".toList .all (by decide)).1 rfl hone with h | ⟨message, h⟩
    · exact h
    · have hended : status? (run .wide shelf [] ["-a".toList, "/".toList]) ≠ none := by
        decide +kernel
      exact absurd (congrArg (fun result => result.toOption.map (·.status)) h) hended
  · exact (hrun .wide shelf [] _ _ .noRequireParams (by decide)).2 rfl hzero

end Command

end CircuitDocs
