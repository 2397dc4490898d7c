import CircuitDocs.Command.Run
import CircuitDocs.Proofs.Disk.Named

/-! # The course of a run

A run goes through stages, each of which may end it: the command line is read, the target is
looked up and searched, and the files that were found are linted. What is said of runs is said of
each way in which they go.
-/

namespace CircuitDocs.Command

variable {console : Console} {disk : Disk} {here argv : List Text} {a : Arguments} {target : Path}
  {files : List Path}

/-- Whether an output file is asked for in no other format than JSON. -/
def Arguments.fits (a : Arguments) : Bool := !(a.output?.isSome && a.format? ≠ some .json)

theorem Arguments.not_fits (a : Arguments) :
    (a.output?.isSome && a.format? ≠ some .json) = !a.fits := (Bool.not_not _).symm

/-- A command line that is accepted, and where its target is. -/
structure Aims (disk : Disk) (here argv : List Text) (a : Arguments) (target : Path) : Prop where
  accepted : Arguments.parse argv = .ok a
  fits : a.fits = true
  located : targetOf disk here a = .ok target

/-- A command line with a target that is searched with success. -/
structure Reaches (disk : Disk) (here argv : List Text) (a : Arguments) (target : Path)
    (files : List Path) : Prop extends Aims disk here argv a target where
  found : disk.discover a.gitignore target = .ok files

/-- The ways in which a run goes, each with the disk that it leaves and its outcome. -/
inductive Course (console : Console) (disk : Disk) (here argv : List Text) :
    Disk × Except Crash Outcome → Prop where
  | help (h : Arguments.parse argv = .error .help) :
      Course console disk here argv (disk, .ok { status := 0, stop := some .help })
  | usage {e : UsageError} (h : Arguments.parse argv = .error (.usage e)) :
      Course console disk here argv (disk, .ok { status := 2, stop := some (.usage e) })
  | unfit {a : Arguments} (h : Arguments.parse argv = .ok a) (hfits : a.fits = false) :
      Course console disk here argv
        (disk, .ok { status := 2, stderr := "--output requires --format json\n".toList })
  | lost {a : Arguments} {crash : Crash} (h : Arguments.parse argv = .ok a)
      (hfits : a.fits = true) (htarget : targetOf disk here a = .error crash) :
      Course console disk here argv (disk, .error crash)
  | badPattern {a : Arguments} {target : Path} {fault : Ignore.Fault}
      (h : Aims disk here argv a target)
      (hfound : disk.discover a.gitignore target = .error (.pattern fault)) :
      Course console disk here argv (disk, .error (.pattern fault))
  | refused {a : Arguments} {target p : Path} {cause : Refusal}
      (h : Aims disk here argv a target)
      (hfound : disk.discover a.gitignore target = .error (.refused cause p)) :
      Course console disk here argv (disk, .error (.path (.refused cause p)))
  | failed {a : Arguments} {target : Path} {e : DiscoveryError} (h : Aims disk here argv a target)
      (hfound : disk.discover a.gitignore target = .error (.error e)) :
      Course console disk here argv
        (disk, .ok { status := 2, stderr := "Error: ".toList ++ e.message ++ ['\n'] })
  | reached {a : Arguments} {target : Path} {files : List Path}
      (h : Reaches disk here argv a target files) :
      Course console disk here argv (lint console disk here a target files)

theorem course_run (console : Console) (disk : Disk) (here argv : List Text) :
    Course console disk here argv (run console disk here argv) := by
  unfold run
  split
  · exact .help ‹_›
  · rename_i stop hstop h
    cases stop with
    | help => exact absurd rfl hstop
    | usage e => exact .usage h
  · rename_i a h
    unfold runWith
    rw [a.not_fits]
    cases hf : a.fits with
    | false => exact .unfit h hf
    | true =>
      simp only [Bool.not_true, Bool.false_eq_true, if_false]
      split
      · rename_i target htarget
        have haims : Aims disk here argv a target := ⟨h, hf, htarget⟩
        unfold runOn
        split
        · exact .badPattern haims ‹_›
        · exact .refused haims ‹_›
        · exact .failed haims ‹_›
        · exact .reached ⟨haims, ‹_›⟩
      · exact .lost h hf ‹_›

theorem Aims.run_eq (h : Aims disk here argv a target) :
    run console disk here argv = runOn console disk here a target := by
  rw [run, h.accepted]
  simp only [runWith, a.not_fits, h.fits, h.located, Bool.not_true, Bool.false_eq_true, if_false]

theorem Reaches.run_eq (h : Reaches disk here argv a target files) :
    run console disk here argv = lint console disk here a target files := by
  rw [h.toAims.run_eq, runOn, h.found]

theorem Reaches.ofDisk_eq (h : Reaches disk here argv a target files)
    (hdisk : disk.root.nullFree = true) (config : Config) :
    RunReport.ofDisk config disk files = .ok (.ofFiles config disk.read files) := by
  rw [RunReport.ofDisk, if_neg]
  simpa [List.any_eq_true] using Disk.hasNull_of_mem_discover hdisk h.found

end CircuitDocs.Command
