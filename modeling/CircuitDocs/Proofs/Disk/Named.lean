import CircuitDocs.Disk.Change
import CircuitDocs.Proofs.Disk.Discovery
import CircuitDocs.Proofs.Disk.Lookup
import CircuitDocs.Proofs.Disk.Path

/-! # Names without null characters

No name on a disk has a null character. So no search finds a file with one, and a path that is
read from a text without one can be written to or is refused for a cause of its own.
-/

namespace CircuitDocs

variable {n : Text} {l inner : Listing} {node : Node} {p here : List Text}

/-! ## Texts and paths -/

theorem Path.subset_joined (h : n ∈ p) : n ⊆ joined p := by
  induction p with
  | nil => simp at h
  | cons m p ih =>
    cases p with
    | nil =>
      rw [joined_singleton, List.mem_singleton.mp h]
      exact List.Subset.refl m
    | cons k p =>
      rw [joined_cons m (by simp)]
      rcases List.mem_cons.mp h with rfl | h
      · exact List.subset_append_left n _
      · exact List.subset_append_of_subset_right m (List.subset_cons_of_subset '/' (ih h))

theorem Path.hasNull_ofText {t : Text} (h : '\x00' ∉ t) : (ofText t).hasNull = false := by
  rw [hasNull, List.any_eq_false]
  intro n hn
  have hjoin : joined (t.splitOn '/') = t := List.intercalate_splitOn '/'
  have hsub : n ⊆ t := hjoin ▸ subset_joined (List.mem_filter.mp hn).1
  simpa using fun hnull => h (hsub hnull)

/-! ## Listings -/

namespace Listing

/-- Whether no name in a directory and below has a null character. -/
def nullFree : Listing → Bool
  | empty => true
  | file n _ rest => '\x00' ∉ n && rest.nullFree
  | link n _ rest => '\x00' ∉ n && rest.nullFree
  | folder n inner rest => '\x00' ∉ n && inner.nullFree && rest.nullFree

theorem nullFree_entry {rest : Listing} :
    (node.entry n rest).nullFree = true ↔
      '\x00' ∉ n ∧ node.inside.nullFree = true ∧ rest.nullFree = true := by
  cases node <;> simp [Node.entry, Node.inside, nullFree, and_assoc]

theorem nullFree_of_find? (hl : l.nullFree = true) (h : l.find? n = some node) :
    node.inside.nullFree = true := by
  induction l using entry_induction with
  | empty => simp [find?] at h
  | entry k node' rest _ ih =>
    obtain ⟨-, hinside, hrest⟩ := nullFree_entry.mp hl
    rw [find?_entry] at h
    split at h
    · exact Option.some.inj h ▸ hinside
    · exact ih hrest h

theorem nullFree_of_at? (hl : l.nullFree = true) (h : l.at? p = some (.folder inner)) :
    inner.nullFree = true := by
  refine folder_induction (motive := fun _ l => l.nullFree = true → inner.nullFree = true)
    id ?_ h hl
  intro n p l inner' hf _ ih hl
  exact ih (nullFree_of_find? hl hf)

theorem not_mem_of_find? (hl : l.nullFree = true) (h : (l.find? n).isSome = true) :
    '\x00' ∉ n := by
  induction l using entry_induction with
  | empty => simp [find?] at h
  | entry k node rest _ ih =>
    obtain ⟨hk, -, hrest⟩ := nullFree_entry.mp hl
    rw [find?_entry] at h
    split at h
    · rename_i he
      exact he ▸ hk
    · exact ih hrest h

end Listing

/-! ## Searches -/

theorem Search.Visits.nullFree {s : Search} {f k : Folder} (h : s.Visits f k)
    (hnames : ∀ n ∈ f.names, '\x00' ∉ n) (hentries : f.entries.nullFree = true) :
    (∀ n ∈ k.names, '\x00' ∉ n) ∧ k.entries.nullFree = true := by
  induction h with
  | here => exact ⟨hnames, hentries⟩
  | inside _ hg _ ih =>
    obtain ⟨n, inner, hinner, -, rfl⟩ := mem_foldersIn.mp hg
    obtain ⟨hn, m, hm⟩ := Listing.exists_find?_of_enter? hinner
    refine ih ?_ (Listing.nullFree_of_find? hentries hm)
    simpa [or_imp, forall_and] using ⟨hnames, Listing.not_mem_of_find? hentries hn⟩

theorem Search.not_mem_of_loop {s : Search} {found : List (List Text)} {names : List Text}
    (hl : l.nullFree = true) (h : s.loop [⟨[], l⟩] = .ok found) (hnames : names ∈ found) :
    ∀ n ∈ names, '\x00' ∉ n := by
  obtain ⟨f, hf, k, hvisits, hfile⟩ := (mem_of_loop h).mp hnames
  obtain rfl := List.mem_singleton.mp hf
  obtain ⟨habove, hentries⟩ := hvisits.nullFree (by simp) hl
  obtain ⟨n, hn, -, -, rfl⟩ := mem_filesIn.mp hfile
  simpa [or_imp, forall_and] using
    ⟨habove, Listing.not_mem_of_find? hentries (Folder.mem_children.mp hn)⟩

/-! ## Disks -/

namespace Disk

variable {d : Disk} {target : Path} {cause : Refusal}

theorem nullFree_of_locate (hd : d.root.nullFree = true)
    (h : d.locate target here = .ok (.folder l)) : l.nullFree = true := by
  unfold locate at h
  split at h
  · simp at h
  · split at h
    · simp at h
    · split at h
      · rename_i names _
        cases hn : d.root.at? names with
        | none => simp [hn] at h
        | some node =>
          rw [hn] at h
          obtain rfl := Except.ok.inj h
          exact Listing.nullFree_of_at? hd hn
      · simp at h

theorem locate_of_ask {node : Node} (h : d.ask target = .ok node) :
    d.locate target = .ok node := by
  unfold ask at h
  split at h
  · simp at h
  · exact h

theorem hasNull_of_mem_searchFolder (hl : l.nullFree = true) (htarget : target.hasNull = false)
    {patterns : List Ignore.Pattern} {files : List Path}
    (h : d.searchFolder target patterns l = .ok files) :
    ∀ file ∈ files, file.hasNull = false := by
  unfold searchFolder Search.run at h
  cases hloop : (d.search target patterns).loop [⟨[], l⟩] with
  | error halt => simp [hloop, Except.map] at h
  | ok found =>
    simp only [hloop, Except.map] at h
    obtain rfl := Except.ok.inj h
    intro file hfile
    obtain ⟨names, hnames, rfl⟩ := List.mem_map.mp hfile
    have hfree := Search.not_mem_of_loop hl hloop (mem_sortNames.mp hnames)
    rw [Path.hasNull, Path.below, List.any_append, Bool.or_eq_false_iff]
    exact ⟨htarget, by simpa [List.any_eq_false] using hfree⟩

theorem hasNull_of_mem_discover (hd : d.root.nullFree = true) {gitignore : Bool}
    {files : List Path} (h : d.discover gitignore target = .ok files) :
    ∀ file ∈ files, file.hasNull = false := by
  unfold discover at h
  split at h
  · simp at h
  · rename_i l hask
    have hl := locate_of_ask hask
    split at h
    · simp at h
    · simp at h
    · exact hasNull_of_mem_searchFolder (nullFree_of_locate hd hl) (hasNull_of_locate hl) h
  · rename_i node _ hnode
    split at h
    · obtain rfl := Except.ok.inj h
      intro file hfile
      rw [List.mem_singleton] at hfile
      exact hfile ▸ hasNull_of_locate (locate_of_ask hnode)
    · simp at h

theorem ensureFolder_ne_nullByte (d : Disk) (here : List Text) (p : Path) :
    (d.ensureFolder here p).2 ≠ .error .nullByte := by
  unfold ensureFolder
  split
  · simp
  · split <;> simp_all

theorem makeUpwards_ne_nullByte (d : Disk) (here : List Text) (anchor : Anchor)
    (names : List Text) : (d.makeUpwards here anchor names).2 ≠ .error .nullByte := by
  induction names with
  | nil => simp [makeUpwards]
  | cons n above ih =>
    rw [makeUpwards]
    split
    · split
      · exact ensureFolder_ne_nullByte _ _ _
      · rename_i d' fault hfault
        rwa [hfault] at ih
    · exact ensureFolder_ne_nullByte _ _ _

theorem write_ne_nullByte (hp : target.hasNull = false) (content : List UInt8) :
    (d.write here target content).2 ≠ .error .nullByte := by
  have hparent : target.parent.hasNull = false := by
    rw [Path.hasNull, List.any_eq_false] at hp ⊢
    exact fun n hn => hp n (List.dropLast_subset _ hn)
  have hfolders : (d.makeFolders here target.parent).2 ≠ .error .nullByte := by
    rw [makeFolders, hparent]
    exact makeUpwards_ne_nullByte _ _ _ _
  unfold write
  split
  · rename_i d' fault hfault
    rwa [hfault] at hfolders
  · rw [hp]
    simp only [Bool.false_eq_true, if_false]
    split <;> simp

end Disk

end CircuitDocs
