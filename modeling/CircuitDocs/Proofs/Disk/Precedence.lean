import CircuitDocs.Proofs.Disk.Scan

/-! # Order of ignore files

The lines of all ignore files are one list, file after file, and of two lines that disagree the
later one counts. Files come in the order of their paths. So the lines of a directory precede
those of a directory below it, unless the way down begins with a name that comes before the name
of ignore files.
-/

namespace CircuitDocs

variable {p q b rest : List Text} {n : Text}

/-! ## Members of ascending lists -/

theorem pair_sublist_iff_lt {α : Type} {key : α → List Text} {l : List α} {x y : α}
    (hl : l.Pairwise fun x y => key x ≤ key y) (hx : x ∈ l) (hy : y ∈ l) (hne : key x ≠ key y) :
    [x, y].Sublist l ↔ key x < key y := by
  constructor
  · intro h
    exact lt_of_le_of_ne (List.pairwise_iff_forall_sublist.mp hl h) hne
  · intro hlt
    obtain ⟨before, after, rfl⟩ := List.append_of_mem hx
    obtain ⟨-, -, hcross⟩ := List.pairwise_append.mp hl
    have hafter : y ∈ after := by
      rcases List.mem_append.mp hy with hy | hy
      · exact absurd (hcross y hy x List.mem_cons_self) (not_le_of_gt hlt)
      · refine (List.mem_cons.mp hy).resolve_left ?_
        rintro rfl
        exact hne rfl
    exact ((List.singleton_sublist.mpr hafter).cons_cons x).trans (List.sublist_append_right _ _)

theorem append_lt_append_iff : b ++ p < b ++ q ↔ p < q := by
  induction b with
  | nil => rfl
  | cons k b ih => simp [ih]

theorem concat_lt_iff {name : Text} (hrest : rest ≠ []) :
    b ++ [name] < b ++ n :: rest ↔ ¬ n < name := by
  obtain ⟨k, rest, rfl⟩ := List.exists_cons_of_ne_nil hrest
  rw [append_lt_append_iff, List.cons_lt_cons_iff, not_lt, le_iff_lt_or_eq]
  simp

/-! ## Ignore files and their lines -/

/-- An ignore file, by its names below the target, and its lines as they count for the target. -/
structure IgnoreBlock where
  names : List Text
  lines : List Text

namespace Disk

variable {d : Disk} {target : Path} {ls : List Text} {files : List (List Text)}

/-- The ignore files of a target in order, each with its lines. -/
structure Blocks (d : Disk) (target : Path) (blocks : List IgnoreBlock) : Prop where
  files : d.ignoreFiles target = .ok (blocks.map (·.names))
  lines : ∀ x ∈ blocks, d.ignoreFileLines target x.names = .ok x.lines

theorem exists_blocks_of_mapM {lss : List (List Text)}
    (h : files.mapM (d.ignoreFileLines target) = .ok lss) :
    ∃ blocks : List IgnoreBlock, blocks.map (·.names) = files ∧ blocks.map (·.lines) = lss ∧
      ∀ x ∈ blocks, d.ignoreFileLines target x.names = .ok x.lines := by
  induction files generalizing lss with
  | nil =>
    obtain rfl := Except.ok.inj h
    exact ⟨[], rfl, rfl, by simp⟩
  | cons file files ih =>
    obtain ⟨ls, lss, hfile, hfiles, rfl⟩ := mapM_cons_eq_ok_iff.mp h
    obtain ⟨blocks, rfl, rfl, hlines⟩ := ih hfiles
    refine ⟨⟨file, ls⟩ :: blocks, rfl, rfl, ?_⟩
    rintro x (_ | ⟨_, hx⟩)
    · exact hfile
    · exact hlines x hx

theorem exists_blocks (h : d.ignoreLines target = .ok ls) :
    ∃ blocks, d.Blocks target blocks ∧ ls = blocks.flatMap (·.lines) := by
  unfold ignoreLines at h
  split at h
  · rename_i files hfiles
    cases hm : files.mapM (d.ignoreFileLines target) with
    | error fault => simp [hm, Except.map] at h
    | ok lss =>
      obtain ⟨blocks, rfl, rfl, hlines⟩ := exists_blocks_of_mapM hm
      refine ⟨blocks, ⟨hfiles, hlines⟩, ?_⟩
      rw [hm] at h
      rw [← Except.ok.inj h, List.flatMap_def]
  · simp at h

theorem Blocks.pair_sublist_iff {blocks : List IgnoreBlock} {x y : IgnoreBlock}
    (h : d.Blocks target blocks) (hx : x ∈ blocks) (hy : y ∈ blocks)
    (hway : x.names.dropLast ++ [n] <+: y.names.dropLast) :
    ([x, y].Sublist blocks ↔ nameBefore n ignoreFileName = false) ∧
      ([y, x].Sublist blocks ↔ nameBefore n ignoreFileName = true) := by
  obtain ⟨hsorted, hlast⟩ := ignoreFiles_cases h.files
  have hkeys : blocks.Pairwise fun x y => x.names ≤ y.names := List.pairwise_map.mp hsorted
  have hconcat : ∀ z ∈ blocks, z.names = z.names.dropLast ++ [ignoreFileName] := fun z hz =>
    (List.dropLast_append_getLast? _ (hlast _ (List.mem_map_of_mem hz))).symm
  obtain ⟨between, hbetween⟩ := hway
  have hy' : y.names = x.names.dropLast ++ n :: (between ++ [ignoreFileName]) := by
    rw [hconcat y hy, ← hbetween]
    simp
  have hlt : x.names < y.names ↔ ¬ n < ignoreFileName := by
    rw [hconcat x hx, hy']
    exact concat_lt_iff (by simp)
  have hne : x.names ≠ y.names := by
    rw [hconcat x hx, hy']
    simp
  rw [pair_sublist_iff_lt hkeys hx hy hne, pair_sublist_iff_lt hkeys hy hx hne.symm,
    ← Bool.not_eq_true, nameBefore_iff]
  refine ⟨hlt, ?_⟩
  rw [← not_iff_not, not_lt, ← hlt, le_iff_lt_or_eq]
  simp [hne]

/-- The lines for a target are those of its ignore files, file after file. The lines of a directory
come before those of a directory below it exactly when the first name on the way down does not come
before the name of ignore files; when it does, they come after them. -/
theorem ignoreLines_order (h : d.ignoreLines target = .ok ls) :
    ∃ blocks, d.Blocks target blocks ∧ ls = blocks.flatMap (·.lines) ∧
      ∀ x ∈ blocks, ∀ y ∈ blocks, ∀ n, x.names.dropLast ++ [n] <+: y.names.dropLast →
        ([x, y].Sublist blocks ↔ nameBefore n ignoreFileName = false) ∧
          ([y, x].Sublist blocks ↔ nameBefore n ignoreFileName = true) := by
  obtain ⟨blocks, hblocks, hls⟩ := exists_blocks h
  exact ⟨blocks, hblocks, hls, fun x hx y hy n hway => hblocks.pair_sublist_iff hx hy hway⟩

def terraced : Disk where
  root := .folder ".github".toList
    (.file ignoreFileName (Utf8.encode "!keep.compact\n".toList) .empty)
    (.file ignoreFileName (Utf8.encode "*.compact\n".toList)
      (.folder "src".toList
        (.file ignoreFileName (Utf8.encode "!keep.compact\n".toList) .empty) .empty))

theorem ignoreFiles_terraced :
    terraced.ignoreFiles (.absolute []) =
      .ok [[".github".toList, ignoreFileName], [ignoreFileName],
        ["src".toList, ignoreFileName]] := by
  have hroot : terraced.ask (.absolute []) = .ok (.folder terraced.root) := by decide +kernel
  have hfound : (terraced.scanned (.absolute []) terraced.root).mapM
      (terraced.ignoreFileIn (.absolute [])) =
        .ok [[[ignoreFileName]], [[".github".toList, ignoreFileName]],
          [["src".toList, ignoreFileName]]] := by
    decide +kernel
  simp only [ignoreFiles, hroot, hfound, Except.map]
  refine congrArg Except.ok ((sortNames_eq_of_perm (.swap _ _ _)).trans ?_)
  exact List.mergeSort_of_pairwise (by decide)

theorem ignoreLines_terraced :
    terraced.ignoreLines (.absolute []) =
      .ok ["!.github/keep.compact".toList, "*.compact".toList, "!src/keep.compact".toList] := by
  rw [ignoreLines, ignoreFiles_terraced]
  decide +kernel

theorem ignoreLines_order_src :
    ∃ blocks, terraced.Blocks (.absolute []) blocks ∧
      ["!.github/keep.compact".toList, "*.compact".toList, "!src/keep.compact".toList] =
        blocks.flatMap (·.lines) ∧
      ∃ x ∈ blocks, ∃ y ∈ blocks, x.names = [ignoreFileName] ∧
        y.names = ["src".toList, ignoreFileName] ∧
        [x, y].Sublist blocks ∧ ¬ [y, x].Sublist blocks := by
  obtain ⟨blocks, hblocks, hls, horder⟩ := ignoreLines_order ignoreLines_terraced
  have hnames := Except.ok.inj (hblocks.files.symm.trans ignoreFiles_terraced)
  have hmem : ∀ names ∈ [[ignoreFileName], ["src".toList, ignoreFileName]],
      ∃ x ∈ blocks, x.names = names := by
    intro names h
    rw [← List.mem_map, hnames]
    exact List.mem_cons_of_mem _ h
  obtain ⟨x, hx, hxn⟩ := hmem [ignoreFileName] (by simp)
  obtain ⟨y, hy, hyn⟩ := hmem ["src".toList, ignoreFileName] (by simp)
  have hway : x.names.dropLast ++ ["src".toList] <+: y.names.dropLast := by
    rw [hxn, hyn]
    decide
  have hsrc : nameBefore "src".toList ignoreFileName = false := by decide
  obtain ⟨hupper, hlower⟩ := horder x hx y hy _ hway
  refine ⟨blocks, hblocks, hls, x, hx, y, hy, hxn, hyn, hupper.mpr hsrc, fun h => ?_⟩
  rw [hlower, hsrc] at h
  contradiction

/-- The exception of a directory whose name comes before that of ignore files is read before the
rule at the top, and is lost. -/
theorem ignoreLines_hidden_first :
    terraced.ignoreLines (.absolute []) =
        .ok ["!.github/keep.compact".toList, "*.compact".toList, "!src/keep.compact".toList] ∧
      (terraced.patterns (.absolute [])).map
        (·.map (Ignore.ignored · (Path.joined [".github".toList, "keep.compact".toList]) false)) =
          .ok (.ok true) ∧
      (terraced.patterns (.absolute [])).map
        (·.map (Ignore.ignored · (Path.joined ["src".toList, "keep.compact".toList]) false)) =
          .ok (.ok false) := by
  refine ⟨ignoreLines_terraced, ?_, ?_⟩
  all_goals
    rw [patterns, ignoreLines_terraced]
    decide +kernel

end Disk

end CircuitDocs
