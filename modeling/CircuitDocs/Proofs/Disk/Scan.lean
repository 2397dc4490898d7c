import CircuitDocs.Proofs.Disk.Listing

/-! # Scans for ignore files

A scan asks the directories that it sees for their ignore files, one after another. What it finds
has the name of ignore files and is in order.
-/

namespace CircuitDocs

theorem mapM_cons_eq_ok_iff {ε α β : Type} {f : α → Except ε β} {a : α} {as : List α}
    {result : List β} :
    (a :: as).mapM f = .ok result ↔
      ∃ b bs, f a = .ok b ∧ as.mapM f = .ok bs ∧ result = b :: bs := by
  rw [List.mapM_cons]
  cases f a with
  | error e => simp [bind, Except.bind]
  | ok b =>
    cases as.mapM f with
    | error e => simp [bind, Except.bind]
    | ok bs => simp [bind, Except.bind, pure, Except.pure, eq_comm]

theorem exists_of_mem_mapM {ε α β : Type} {f : α → Except ε β} {as : List α} {result : List β}
    {b : β} (h : as.mapM f = .ok result) (hb : b ∈ result) : ∃ a ∈ as, f a = .ok b := by
  induction as generalizing result with
  | nil =>
    obtain rfl := Except.ok.inj h
    simp at hb
  | cons a as ih =>
    obtain ⟨b', bs, ha, has, rfl⟩ := mapM_cons_eq_ok_iff.mp h
    rcases List.mem_cons.mp hb with rfl | hb
    · exact ⟨a, .head _, ha⟩
    · obtain ⟨a', ha', hfa⟩ := ih has hb
      exact ⟨a', .tail _ ha', hfa⟩

namespace Disk

variable {d : Disk} {target : Path} {files : List (List Text)}

/-- A scan sees the directories in directories that are not veiled. -/
theorem scan_eq_collect (d : Disk) (p : Path) (here : List Text) (l : Listing) :
    d.scan p here l = l.collect (fun _ _ node => node.isFolder)
      (fun here n => p.names ++ (here ++ [n]) ∉ d.veiled) here := by
  induction l generalizing here with
  | empty => rfl
  | file n content rest ih => simp [scan, Listing.collect, Node.isFolder, ih]
  | link n target rest ih => simp [scan, Listing.collect, Node.isFolder, ih]
  | folder n inner rest ihi ih =>
    by_cases hv : p.names ++ (here ++ [n]) ∈ d.veiled <;>
      simp [scan, Listing.collect, Node.isFolder, ihi, ih, hv]

theorem getLast?_of_mem_ignoreFileIn {folder : List Text}
    (h : d.ignoreFileIn target folder = .ok files) :
    ∀ p ∈ files, p.getLast? = some ignoreFileName := by
  unfold ignoreFileIn at h
  dsimp only at h
  split at h
  · split at h
    · simp at h
    · obtain rfl := Except.ok.inj h
      simp
  · split at h
    · split at h
      · simp at h
      · obtain rfl := Except.ok.inj h
        simp
    · simp at h

theorem ignoreFiles_cases (h : d.ignoreFiles target = .ok files) :
    files.Pairwise (· ≤ ·) ∧ ∀ p ∈ files, p.getLast? = some ignoreFileName := by
  unfold ignoreFiles at h
  split at h
  · rename_i l _
    cases hfound : (d.scanned target l).mapM (d.ignoreFileIn target) with
    | error fault => simp [hfound, Except.map] at h
    | ok found =>
      simp only [hfound, Except.map] at h
      obtain rfl := Except.ok.inj h
      refine ⟨pairwise_le_sortNames _, fun p hp => ?_⟩
      obtain ⟨part, hpart, hp⟩ := List.mem_flatten.mp (mem_sortNames.mp hp)
      obtain ⟨folder, -, hfolder⟩ := exists_of_mem_mapM hfound hpart
      exact getLast?_of_mem_ignoreFileIn hfolder p hp
  · obtain rfl := Except.ok.inj h
    simp
  · split at h
    · obtain rfl := Except.ok.inj h
      simp
    · simp at h

end Disk

end CircuitDocs
