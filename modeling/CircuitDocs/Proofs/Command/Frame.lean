import CircuitDocs.Proofs.Command.Course
import CircuitDocs.Proofs.Disk.Change

/-! # What a run changes

A run changes the disk only where it writes its report to a file, which it does at its end and with
a search that succeeded. Runs that are not asked for a file leave the disk as it was, and so one of
them ends in the same way however many came before it.
-/

namespace CircuitDocs.Command

variable {console : Console} {disk : Disk} {here argv : List Text} {a : Arguments} {target : Path}
  {files : List Path}

/-- Whether a run comes to write a report to a file. -/
structure Saves (disk : Disk) (here argv : List Text) (output : Text) (r : RunReport) : Prop where
  reached : ∃ a target files, Reaches disk here argv a target files ∧ a.format? = some .json ∧
    a.output? = some output ∧ RunReport.ofDisk a.config disk files = .ok r

theorem save_fst (disk : Disk) (here : List Text) (output : Text) (r : RunReport) :
    (save disk here output r).1 =
      (disk.write here (Path.ofText output) (Utf8.encode r.toJson.render)).1 := by
  unfold save
  split <;> simp_all

theorem lint_cases (console : Console) (disk : Disk) (here : List Text) (a : Arguments)
    (target : Path) (files : List Path) :
    (lint console disk here a target files).1 = disk ∨
      ∃ output r, a.format? = some .json ∧ a.output? = some output ∧
        RunReport.ofDisk a.config disk files = .ok r ∧
        lint console disk here a target files = save disk here output r := by
  unfold lint
  split
  · exact Or.inl rfl
  · split
    · rename_i r hr
      unfold emit
      split
      · rename_i output hformat houtput
        exact Or.inr ⟨output, r, hformat, houtput, hr, rfl⟩
      · exact Or.inl rfl
      · split <;> exact Or.inl rfl
    · exact Or.inl rfl

theorem run_cases (console : Console) (disk : Disk) (here argv : List Text) :
    (run console disk here argv).1 = disk ∨
      ∃ output r, Saves disk here argv output r ∧
        disk.WritesOnly (run console disk here argv).1 here (Path.ofText output)
          (Utf8.encode r.toJson.render) := by
  have hcourse := course_run console disk here argv
  generalize run console disk here argv = x at hcourse
  cases hcourse with
  | help | usage | unfit | lost | badPattern | refused | failed => exact Or.inl rfl
  | reached h =>
    rcases lint_cases console disk here _ _ _ with hsame | ⟨output, r, hformat, houtput, hr, hsave⟩
    · exact Or.inl hsame
    · refine Or.inr ⟨output, r, ⟨_, _, _, h, hformat, houtput, hr⟩, ?_⟩
      rw [hsave, save_fst]
      exact disk.write_writesOnly here _ _

/-! ## Several runs -/

/-- Runs one after another, each with the directory in which it takes place: the disk that they
leave, and how each of them ended. -/
def session (console : Console) (disk : Disk) :
    List (List Text × List Text) → Disk × List (Except Crash Outcome)
  | [] => (disk, [])
  | (here, argv) :: runs =>
    let (disk', result) := run console disk here argv
    let (left, results) := session console disk' runs
    (left, result :: results)

def SavesNothing (argv : List Text) : Prop :=
  ∀ a, Arguments.parse argv = .ok a → a.output? = none

instance (argv : List Text) : Decidable (SavesNothing argv) :=
  decidable_of_iff (∀ a ∈ (Arguments.parse argv).toOption, a.output? = none) (by
    unfold SavesNothing
    cases Arguments.parse argv <;> simp [Except.toOption])

theorem SavesNothing.run_fst (h : SavesNothing argv) : (run console disk here argv).1 = disk := by
  rcases run_cases console disk here argv with hsame | ⟨output, r, ⟨a, _, _, ha, -, houtput, -⟩, -⟩
  · exact hsame
  · rw [h a ha.accepted] at houtput
    contradiction

theorem session_eq {runs : List (List Text × List Text)} (h : ∀ x ∈ runs, SavesNothing x.2) :
    session console disk runs = (disk, runs.map fun x => (run console disk x.1 x.2).2) := by
  induction runs with
  | nil => rfl
  | cons x runs ih =>
    rw [List.forall_mem_cons] at h
    simp only [session, h.1.run_fst, ih h.2, List.map_cons]

def desk : Disk where
  root := .file "pay.compact".toList (Utf8.encode "export circuit pay(): [] \x7b".toList)
    (.link "last.json".toList "new.json".toList .empty)

end CircuitDocs.Command
