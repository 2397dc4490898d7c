import CircuitDocs.Proofs.Command.Course
import CircuitDocs.Proofs.Command.Source
import CircuitDocs.Proofs.Ignore.Nested
import CircuitDocs.Proofs.Report.Console

/-! # How runs end

A run ends with a status of at most 2, unless an obstacle stands in its way: the links to its target
close, the system does not tell what its target is or what an entry is that the search meets, a
pattern of an ignore file below its target is refused, or the console refuses a heading. Ignore
files that cannot be read are no obstacle.
-/

namespace CircuitDocs

/-! ## Searches that end early -/

namespace Disk

variable {d : Disk} {target p : Path} {gitignore : Bool} {cause : Refusal}

theorem discover_eq_pattern_iff {fault : Ignore.Fault} :
    d.discover gitignore target = .error (.pattern fault) ↔
      ∃ l, d.ask target = .ok (.folder l) ∧ gitignore = true ∧
        d.patterns target = .ok (.error fault) := by
  unfold discover
  cases d.ask target with
  | error cause => cases hc : cause.isAbsence <;> simp [hc]
  | ok node =>
    cases node with
    | file | link => by_cases hs : Path.isSource target.name = true <;> simp [hs]
    | folder l =>
      have hsearch : ∀ patterns, d.searchFolder target patterns l ≠ .error (.pattern fault) := by
        intro patterns
        unfold searchFolder
        split <;> simp
      cases gitignore with
      | false => simp [hsearch]
      | true => rcases d.patterns target with fault' | fault' | patterns <;> simp [hsearch]

theorem refusal?_eq_some_iff :
    d.refusal? p = some cause ↔ d.ask p = .error cause ∧ cause.isAbsence = false := by
  unfold refusal?
  cases d.ask p with
  | ok node => simp
  | error cause' =>
    simp only [Except.error.injEq]
    split
    · rename_i habsent
      refine iff_of_false (by simp) ?_
      rintro ⟨rfl, hcause⟩
      rw [habsent] at hcause
      contradiction
    · rename_i hpresent
      rw [Option.some.injEq]
      refine ⟨?_, fun h => h.1⟩
      rintro rfl
      exact ⟨rfl, Bool.eq_false_iff.mpr hpresent⟩

theorem exists_of_discover_refused (h : d.discover gitignore target = .error (.refused cause p)) :
    (d.refusal? target = some cause ∧ p = target) ∨
      ∃ l patterns k n, d.ask target = .ok (.folder l) ∧
        (if gitignore then d.patterns target else .ok (.ok [])) = .ok (.ok patterns) ∧
        (d.search target patterns).Visits ⟨[], l⟩ k ∧ n ∈ k.children ∧
        d.refusal? (target.below (k.names ++ [n])) = some cause ∧
        p = target.below (k.names ++ [n]) := by
  unfold discover at h
  split at h
  · rename_i cause' hask
    cases hc : cause'.isAbsence with
    | true => simp [hc] at h
    | false =>
      simp only [hc, Bool.false_eq_true, if_false, Except.error.injEq,
        DiscoveryFailure.refused.injEq] at h
      obtain ⟨rfl, rfl⟩ := h
      exact Or.inl ⟨refusal?_eq_some_iff.mpr ⟨hask, hc⟩, rfl⟩
  · rename_i l hask
    split at h
    · simp at h
    · simp at h
    · rename_i patterns hps
      unfold searchFolder Search.run at h
      rcases Search.loop_cases (d.search target patterns) [⟨[], l⟩] with
        ⟨found, hloop, -, -⟩ | ⟨halt, hloop, f, hf, k, hvisits, hhalt⟩
      · simp [hloop, Except.map] at h
      · obtain rfl := List.mem_singleton.mp hf
        obtain ⟨n, hn, hnames, hcause⟩ := Search.exists_of_halt? hhalt
        simp only [hloop, Except.map, Except.error.injEq, DiscoveryFailure.refused.injEq] at h
        obtain ⟨rfl, rfl⟩ := h
        rw [hnames] at hcause ⊢
        exact Or.inr ⟨l, patterns, k, n, hask, hps, hvisits, hn, hcause, rfl⟩
  · split at h <;> simp at h

theorem exists_discover_refused {l : Listing} {patterns : List Ignore.Pattern} {k : Search.Folder}
    {n : Text} (hask : d.ask target = .ok (.folder l))
    (hps : (if gitignore then d.patterns target else .ok (.ok [])) = .ok (.ok patterns))
    (hvisits : (d.search target patterns).Visits ⟨[], l⟩ k) (hn : n ∈ k.children)
    (h : d.refusal? (target.below (k.names ++ [n])) = some cause) :
    ∃ cause' p', d.discover gitignore target = .error (.refused cause' p') := by
  rw [discover_folder hask hps, searchFolder, Search.run]
  rcases Search.loop_cases (d.search target patterns) [⟨[], l⟩] with
    ⟨found, -, hnone, -⟩ | ⟨halt, hloop, -⟩
  · refine absurd ⟨_, List.mem_singleton_self _, k, hvisits, fun hhalt => ?_⟩ hnone
    have htold : d.refusal? (target.below (k.names ++ [n])) = none :=
      Search.halt?_eq_none_iff.mp hhalt n hn
    rw [h] at htold
    contradiction
  · rw [hloop]
    exact ⟨_, _, rfl⟩

end Disk

namespace Command

variable {console : Console} {disk : Disk} {here argv : List Text} {a : Arguments} {target : Path}
  {files : List Path}

/-! ## Obstacles -/

def Arguments.aim (disk : Disk) (here : List Text) (a : Arguments) : Path :=
  .absolute (disk.resolve ((Path.ofText a.targetText).namesFrom here))

/-- What keeps a run from ending with a status. -/
inductive Obstacle (console : Console) (disk : Disk) (here : List Text) (a : Arguments) :
    Crash → Prop where
  | linkLoop (h : disk.ask (a.aim disk here) = .error .tooManyLinks) :
      Obstacle console disk here a (.linkLoop (a.aim disk here))
  | target {cause : Refusal} (h : disk.refusal? (a.aim disk here) = some cause) :
      Obstacle console disk here a (.path (.refused cause (a.aim disk here)))
  | pattern {l : Listing} {fault : Ignore.Fault}
      (hfolder : disk.ask (a.aim disk here) = .ok (.folder l)) (hgitignore : a.gitignore = true)
      (h : disk.patterns (a.aim disk here) = .ok (.error fault)) :
      Obstacle console disk here a (.pattern fault)
  | entry {l : Listing} {patterns : List Ignore.Pattern} {k : Search.Folder} {n : Text}
      {cause : Refusal} (hfolder : disk.ask (a.aim disk here) = .ok (.folder l))
      (hpatterns : (if a.gitignore then disk.patterns (a.aim disk here) else .ok (.ok [])) =
        .ok (.ok patterns))
      (hvisits : (disk.search (a.aim disk here) patterns).Visits ⟨[], l⟩ k) (hn : n ∈ k.children)
      (h : disk.refusal? ((a.aim disk here).below (k.names ++ [n])) = some cause) :
      Obstacle console disk here a
        (.path (.refused cause ((a.aim disk here).below (k.names ++ [n]))))
  | heading {files : List Path} {t : Table} {message : Text}
      (hfound : disk.discover a.gitignore (a.aim disk here) = .ok files)
      (hformat : a.format? ≠ some .json)
      (ht : t ∈ Table.ofRun (baseOf disk (a.aim disk here)) (.ofFiles a.config disk.read files))
      (h : console.rule t.heading = .error message) :
      Obstacle console disk here a (.heading message)

theorem targetOf_eq (hnull : '\x00' ∉ a.targetText) :
    targetOf disk here a =
      if disk.ask (a.aim disk here) = .error .tooManyLinks then
        .error (.linkLoop (a.aim disk here))
      else .ok (a.aim disk here) := by
  unfold targetOf
  simp only [Path.hasNull_ofText hnull, Bool.false_eq_true, if_false]
  split <;> simp_all [Arguments.aim]

theorem Aims.target_eq (h : Aims disk here argv a target) (hnull : '\x00' ∉ a.targetText) :
    target = a.aim disk here := by
  have hlocated := h.located
  rw [targetOf_eq hnull] at hlocated
  split at hlocated
  · simp at hlocated
  · exact (Except.ok.inj hlocated).symm

theorem statusOf_le (r : RunReport) : statusOf r ≤ 1 := by
  unfold statusOf
  split <;> omega

theorem rule_mem_prints {base : Path} {r : RunReport} {title : Text} :
    .rule title ∈ r.prints base ↔ ∃ t ∈ Table.ofRun base r, t.heading = title := by
  simp [RunReport.prints, Table.prints, eq_comm]

theorem emit_ends (console : Console) (disk : Disk) (here : List Text) (target : Path)
    (r : RunReport) (hout : ∀ t, a.output? = some t → '\x00' ∉ t) :
    (∃ out, (emit console disk here a target r).2 = .ok out ∧ out.status ≤ 2) ∨
      ∃ t message, t ∈ Table.ofRun (baseOf disk target) r ∧
        console.rule t.heading = .error message ∧ a.format? ≠ some .json ∧
        (emit console disk here a target r).2 = .error (.heading message) := by
  have hle := statusOf_le r
  unfold emit
  split
  · rename_i output _ houtput
    have hnull := Path.hasNull_ofText (hout output houtput)
    unfold save
    split
    · exact Or.inl ⟨_, rfl, Nat.le_succ_of_le hle⟩
    · exact Or.inl ⟨_, rfl, Nat.le_refl 2⟩
    · rename_i hwrite
      exact absurd (congrArg Prod.snd hwrite) (Disk.write_ne_nullByte hnull _)
  · exact Or.inl ⟨_, rfl, Nat.le_succ_of_le hle⟩
  · rename_i hsaved hprinted
    split
    · exact Or.inl ⟨_, rfl, Nat.le_succ_of_le hle⟩
    · rename_i message hmessage
      obtain ⟨title, hmem, hrule⟩ := Console.exists_rule_of_putAll hmessage
      obtain ⟨t, ht, rfl⟩ := rule_mem_prints.mp hmem
      refine Or.inr ⟨t, message, ht, hrule, fun hformat => ?_, rfl⟩
      cases houtput : a.output? with
      | none => exact hprinted hformat houtput
      | some output => exact hsaved output hformat houtput

theorem lint_ends {r : RunReport} (console : Console)
    (hr : RunReport.ofDisk a.config disk files = .ok r)
    (hout : ∀ t, a.output? = some t → '\x00' ∉ t) :
    (∃ out, (lint console disk here a target files).2 = .ok out ∧ out.status ≤ 2) ∨
      ∃ t message, t ∈ Table.ofRun (baseOf disk target) r ∧
        console.rule t.heading = .error message ∧ a.format? ≠ some .json ∧
        (lint console disk here a target files).2 = .error (.heading message) := by
  unfold lint
  split
  · exact Or.inl ⟨_, rfl, Nat.zero_le _⟩
  · rw [hr]
    exact emit_ends console disk here target r hout

theorem exists_lint_eq_heading {r : RunReport} {t : Table} {message : Text}
    (hr : RunReport.ofDisk a.config disk files = .ok r) (hfiles : files ≠ [])
    (hformat : a.format? ≠ some .json) (ht : t ∈ Table.ofRun (baseOf disk target) r)
    (h : console.rule t.heading = .error message) :
    ∃ message', lint console disk here a target files = (disk, .error (.heading message')) := by
  obtain ⟨message', hput⟩ :=
    Console.exists_putAll_of_rule (rule_mem_prints.mpr ⟨t, ht, rfl⟩) h
  refine ⟨message', ?_⟩
  rw [lint, if_neg (by simp [hfiles]), hr]
  dsimp only
  unfold emit
  split
  · exact absurd ‹_› hformat
  · exact absurd ‹_› hformat
  · rw [hput]

/-! ## Runs -/

theorem run_eq_runOn (ha : Arguments.parse argv = .ok a) (hfits : a.fits = true)
    (hnull : '\x00' ∉ a.targetText)
    (hask : disk.ask (a.aim disk here) ≠ .error .tooManyLinks) :
    run console disk here argv = runOn console disk here a (a.aim disk here) := by
  have haims : Aims disk here argv a (a.aim disk here) :=
    ⟨ha, hfits, by rw [targetOf_eq hnull, if_neg hask]⟩
  exact haims.run_eq

theorem exists_run_eq_of_obstacle {crash : Crash} (hdisk : disk.root.nullFree = true)
    (ha : Arguments.parse argv = .ok a) (hfits : a.fits = true) (hnull : '\x00' ∉ a.targetText)
    (h : Obstacle console disk here a crash) :
    ∃ crash', run console disk here argv = (disk, .error crash') := by
  cases h with
  | linkLoop h =>
    refine ⟨.linkLoop (a.aim disk here), ?_⟩
    rw [run, ha]
    simp only [runWith, a.not_fits, hfits, targetOf_eq hnull, if_pos h, Bool.not_true,
      Bool.false_eq_true, if_false]
  | @target cause h =>
    obtain ⟨hask, hcause⟩ := Disk.refusal?_eq_some_iff.mp h
    have hfound : disk.discover a.gitignore (a.aim disk here) =
        .error (.refused cause (a.aim disk here)) := by
      rw [Disk.discover, hask]
      simp only [hcause, Bool.false_eq_true, if_false]
    have hne : disk.ask (a.aim disk here) ≠ .error .tooManyLinks := by
      rw [hask]
      rintro ⟨⟩
      contradiction
    exact ⟨_, by rw [run_eq_runOn ha hfits hnull hne, runOn, hfound]⟩
  | pattern hfolder hgitignore h =>
    have hfound := Disk.discover_eq_pattern_iff.mpr ⟨_, hfolder, hgitignore, h⟩
    exact ⟨_, by rw [run_eq_runOn ha hfits hnull (by simp [hfolder]), runOn, hfound]⟩
  | entry hfolder hpatterns hvisits hn h =>
    obtain ⟨cause', p', hfound⟩ := Disk.exists_discover_refused hfolder hpatterns hvisits hn h
    exact ⟨_, by rw [run_eq_runOn ha hfits hnull (by simp [hfolder]), runOn, hfound]⟩
  | @heading files t message hfound hformat ht h =>
    have hne : disk.ask (a.aim disk here) ≠ .error .tooManyLinks := by
      intro hask
      simp [Disk.discover, hask] at hfound
    have hreaches : Reaches disk here argv a (a.aim disk here) files :=
      ⟨⟨ha, hfits, by rw [targetOf_eq hnull, if_neg hne]⟩, hfound⟩
    have hfiles : files ≠ [] := by
      rintro rfl
      simp [Table.ofRun, RunReport.ofFiles] at ht
    obtain ⟨message', hlint⟩ :=
      exists_lint_eq_heading (hreaches.ofDisk_eq hdisk _) hfiles hformat ht h
    exact ⟨_, hreaches.run_eq.trans hlint⟩

theorem run_ends (console : Console) (here : List Text) (hdisk : disk.root.nullFree = true)
    (hargv : ∀ w ∈ argv, '\x00' ∉ w) :
    (∃ out, (run console disk here argv).2 = .ok out ∧ out.status ≤ 2) ∨
      ∃ crash a, (run console disk here argv).2 = .error crash ∧ Arguments.parse argv = .ok a ∧
        a.fits = true ∧ Obstacle console disk here a crash := by
  have hfree : ∀ {a}, Arguments.parse argv = .ok a →
      '\x00' ∉ a.targetText ∧ ∀ t, a.output? = some t → '\x00' ∉ t :=
    fun ha => (Arguments.parse_from ha).not_mem hargv (by decide)
  have hcourse := course_run console disk here argv
  generalize run console disk here argv = x at hcourse
  cases hcourse with
  | help => exact Or.inl ⟨_, rfl, Nat.zero_le _⟩
  | usage | unfit | failed => exact Or.inl ⟨_, rfl, Nat.le_refl 2⟩
  | lost ha hfits htarget =>
    rw [targetOf_eq (hfree ha).1] at htarget
    split at htarget
    · rename_i hask
      obtain rfl := Except.error.inj htarget
      exact Or.inr ⟨_, _, rfl, ha, hfits, .linkLoop hask⟩
    · simp at htarget
  | badPattern h hfound =>
    obtain rfl := h.target_eq (hfree h.accepted).1
    obtain ⟨l, hfolder, hgitignore, hpatterns⟩ := Disk.discover_eq_pattern_iff.mp hfound
    exact Or.inr ⟨_, _, rfl, h.accepted, h.fits, .pattern hfolder hgitignore hpatterns⟩
  | refused h hfound =>
    obtain rfl := h.target_eq (hfree h.accepted).1
    rcases Disk.exists_of_discover_refused hfound with
      ⟨hcause, rfl⟩ | ⟨l, patterns, k, n, hfolder, hpatterns, hvisits, hn, hcause, rfl⟩
    · exact Or.inr ⟨_, _, rfl, h.accepted, h.fits, .target hcause⟩
    · exact Or.inr ⟨_, _, rfl, h.accepted, h.fits, .entry hfolder hpatterns hvisits hn hcause⟩
  | reached h =>
    obtain rfl := h.target_eq (hfree h.accepted).1
    rcases lint_ends console (h.ofDisk_eq hdisk _) (hfree h.accepted).2 with
      hended | ⟨t, message, ht, hrule, hformat, hcrash⟩
    · exact Or.inl hended
    · exact Or.inr ⟨_, _, hcrash, h.accepted, h.fits, .heading h.found hformat ht hrule⟩

theorem Aims.run_eq_of_unread {l : Listing} {fault : ReadFault}
    (h : Aims disk here argv a target) (hfolder : disk.ask target = .ok (.folder l))
    (hgitignore : a.gitignore = true) (hpatterns : disk.patterns target = .error fault) :
    run console disk here argv = (disk, .ok
      { status := 2,
        stderr := "Error: Failed to read .gitignore files: ".toList ++ fault.message ++
          ['\n'] }) := by
  have hfound : disk.discover a.gitignore target = .error (.error (.ignoreFile fault)) := by
    simp only [Disk.discover, hfolder, hgitignore, if_true, hpatterns]
  rw [h.run_eq, runOn, hfound]
  rfl

/-- Every run ends with a status of at most 2, but for the runs that an obstacle stands in the way
of, and these do not. When ignore files below a target cannot be found or read, the run says so and
ends with status 2. -/
theorem run_status (console : Console) (disk : Disk) (here argv : List Text)
    (hdisk : disk.root.nullFree = true) (hargv : ∀ w ∈ argv, '\x00' ∉ w) :
    (∀ out, (run console disk here argv).2 = .ok out → out.status ≤ 2) ∧
      (∀ crash, (run console disk here argv).2 = .error crash →
        ∃ a, Arguments.parse argv = .ok a ∧ a.fits = true ∧
          Obstacle console disk here a crash) ∧
      (∀ a crash, Arguments.parse argv = .ok a → a.fits = true →
        Obstacle console disk here a crash →
          ∃ crash', run console disk here argv = (disk, .error crash')) ∧
      ∀ a target l fault, Aims disk here argv a target → disk.ask target = .ok (.folder l) →
        a.gitignore = true → disk.patterns target = .error fault →
          run console disk here argv = (disk, .ok
            { status := 2,
              stderr := "Error: Failed to read .gitignore files: ".toList ++ fault.message ++
                ['\n'] }) := by
  refine ⟨?_, ?_, ?_, ?_⟩
  · intro out hout
    rcases run_ends console here hdisk hargv with ⟨out', hout', hle⟩ | ⟨crash, a, hcrash, -⟩
    · rw [hout] at hout'
      exact Except.ok.inj hout' ▸ hle
    · simp [hout] at hcrash
  · intro crash hcrash
    rcases run_ends console here hdisk hargv with ⟨out, hout, -⟩ | ⟨crash', a, hcrash', h⟩
    · simp [hcrash] at hout
    · rw [hcrash] at hcrash'
      obtain rfl := Except.error.inj hcrash'
      exact ⟨a, h⟩
  · intro a crash ha hfits h
    have hnull := ((Arguments.parse_from ha).not_mem hargv (by decide)).1
    exact exists_run_eq_of_obstacle hdisk ha hfits hnull h
  · intro a target l fault haims
    exact haims.run_eq_of_unread

def blurred : Disk where
  root := .file ignoreFileName [0xff] .empty

theorem run_status_blurred :
    blurred.root.nullFree = true ∧
      run .wide blurred [] ["/".toList] = (blurred, .ok
        { status := 2,
          stderr := ("Error: Failed to read .gitignore files: 'utf-8' codec can't decode byte " ++
            "0xff in position 0: invalid start byte\n").toList }) := by
  have hdisk : blurred.root.nullFree = true := by decide
  obtain ⟨-, -, -, hunread⟩ := run_status .wide blurred [] ["/".toList] hdisk (by decide)
  refine ⟨hdisk, ?_⟩
  have haims : Aims blurred [] ["/".toList] { target := some "/".toList } (.absolute []) :=
    ⟨by decide +kernel, by decide, by decide +kernel⟩
  rw [hunread _ _ blurred.root (.encoding ⟨.startByte, 0, [0xff]⟩) haims (by decide +kernel)
    (by decide) (by decide +kernel)]
  decide +kernel

/-- A pattern that is refused ends a run without a status. -/
theorem run_refuses_pattern :
    let disk := Disk.holding [ignoreFileName] "!\n"
    disk.root.nullFree = true ∧
      (run .wide disk [] ["/".toList]).2 = .error (.pattern (.invalid "!".toList)) := by
  decide +kernel

end Command

end CircuitDocs
