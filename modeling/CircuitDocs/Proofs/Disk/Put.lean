import CircuitDocs.Proofs.Disk.Listing
import CircuitDocs.Proofs.Disk.Lookup

/-! # Entries put into a tree

An entry that is put in the place of something that is no directory leaves everything elsewhere as
it was. As long as links and directories stay, every path that led somewhere still leads there.
-/

namespace CircuitDocs

/-- What a node is, apart from the bytes of a file and from what is below a directory. -/
def Node.outline : Node → Node
  | file _ => file []
  | link target => link target
  | folder _ => folder .empty

theorem Node.outline_bare (node : Node) : node.bare.outline = node.outline := by
  cases node <;> rfl

namespace Listing

variable {l l' root root' inner inner' entries : Listing} {n m : Text} {p names here : List Text}
  {node : Node}

/-! ## Putting an entry into a directory -/

theorem find?_put (n : Text) (node : Node) (l : Listing) (m : Text) :
    (l.put n node).find? m = if n = m then some node else l.find? m := by
  have hentry : ∀ (k : Text) (old : Node) (rest : Listing), (old.entry k rest).put n node =
      if k = n then node.entry n rest else old.entry k (rest.put n node) := by
    intro k old rest
    cases old <;> rfl
  induction l using entry_induction with
  | empty => exact find?_entry n node .empty m
  | entry k old rest _ ih =>
    rw [hentry]
    by_cases hk : k = n
    · subst hk
      rw [if_pos rfl, find?_entry, find?_entry]
      split <;> rfl
    · rw [if_neg hk, find?_entry, find?_entry, ih]
      split
      · subst_vars
        rw [if_neg (Ne.symm hk)]
      · rfl

theorem at?_empty (hp : p ≠ []) : empty.at? p = none := by
  match p with
  | [n] => rfl
  | n :: m :: p => rfl

theorem at?_cons_eq_bind (l : Listing) (n : Text) (hp : p ≠ []) :
    l.at? (n :: p) = (l.find? n).bind fun node => node.inside.at? p := by
  obtain ⟨m, p, rfl⟩ := List.exists_cons_of_ne_nil hp
  rw [at?]
  cases l.find? n with
  | none => rfl
  | some node =>
    cases node with
    | folder inner => rfl
    | file content => exact (at?_empty hp).symm
    | link target => exact (at?_empty hp).symm

theorem putAt_cons (h : l.find? n = some (.folder inner)) (hp : p ≠ []) :
    l.putAt node (n :: p) = l.put n (.folder (inner.putAt node p)) := by
  obtain ⟨m, p, rfl⟩ := List.exists_cons_of_ne_nil hp
  rw [putAt, h]

theorem at?_putAt_self (h : l.at? p = some (.folder entries)) :
    (l.putAt node (p ++ [n])).at? (p ++ [n]) = some node := by
  refine folder_induction
    (motive := fun p l => (l.putAt node (p ++ [n])).at? (p ++ [n]) = some node) ?_ ?_ h
  · exact (find?_put n node entries n).trans (if_pos rfl)
  · intro k p l inner' hf _ ih
    rw [List.cons_append, putAt_cons hf (by simp), at?_cons_eq_bind _ _ (by simp), find?_put,
      if_pos rfl]
    exact ih

theorem bare_at?_putAt (h : l.at? p = some (.folder entries))
    (hold : ∀ inner, entries.find? n ≠ some (.folder inner)) (hnode : node.inside = .empty)
    (hne : names ≠ p ++ [n]) :
    ((l.putAt node (p ++ [n])).at? names).map Node.bare = (l.at? names).map Node.bare := by
  refine folder_induction (motive := fun p l => ∀ names, names ≠ p ++ [n] →
    ((l.putAt node (p ++ [n])).at? names).map Node.bare = (l.at? names).map Node.bare)
    ?_ ?_ h names hne
  · intro names hne
    rw [List.nil_append] at hne ⊢
    match names with
    | [] => rfl
    | [m] =>
      have hm : n ≠ m := by
        rintro rfl
        exact hne rfl
      rw [at?_singleton, at?_singleton, putAt, find?_put, if_neg hm]
    | m :: k :: q =>
      rw [at?_cons_eq_bind _ _ (by simp), at?_cons_eq_bind _ _ (by simp), putAt, find?_put]
      split
      · rename_i hm
        subst hm
        rw [Option.bind_some, hnode, at?_empty (by simp)]
        cases hn : entries.find? n with
        | none => rfl
        | some old =>
          cases old with
          | folder inner => exact absurd hn (hold inner)
          | file content => exact congrArg _ (at?_empty (by simp)).symm
          | link target => exact congrArg _ (at?_empty (by simp)).symm
      · rfl
  · intro k p l inner' hf _ ih names hne
    rw [List.cons_append, putAt_cons hf (by simp)]
    match names with
    | [] => rfl
    | [m] =>
      rw [at?_singleton, at?_singleton, find?_put]
      split
      · subst_vars
        rw [hf]
        rfl
      · rfl
    | m :: j :: q =>
      rw [at?_cons_eq_bind _ _ (by simp), at?_cons_eq_bind _ _ (by simp), find?_put]
      split
      · subst_vars
        rw [hf]
        exact ih (j :: q) fun he => hne (by rw [he, List.cons_append])
      · rfl

/-! ## Paths that still lead where they led -/

/-- Whether every entry is still there as what it was, and no link is new. -/
def Keeps (l l' : Listing) : Prop :=
  ∀ names, (l'.at? names).map Node.outline = (l.at? names).map Node.outline ∨
    l.at? names = none ∧ ∀ target, l'.at? names ≠ some (.link target)

theorem Keeps.exists_folder (h : l.Keeps l') (hp : l.at? p = some (.folder inner)) :
    ∃ inner', l'.at? p = some (.folder inner') := by
  rcases h p with ho | ⟨hnone, -⟩
  · rw [hp, Option.map_some] at ho
    obtain ⟨node, hn, hnode⟩ := Option.map_eq_some_iff.mp ho
    cases node <;> simp only [Node.outline, reduceCtorEq] at hnode
    exact ⟨_, hn⟩
  · rw [hp] at hnone
    contradiction

theorem Keeps.link_iff (h : l.Keeps l') (p : List Text) (target : Text) :
    l'.at? p = some (.link target) ↔ l.at? p = some (.link target) := by
  have houtline : ∀ x : Option Node, x.map Node.outline = some (.link target) ↔
      x = some (.link target) := by
    intro x
    rcases x with _ | (_ | _ | _) <;> simp [Node.outline]
  rcases h p with ho | ⟨hnone, hlink⟩
  · rw [← houtline, ho, houtline]
  · simp [hnone, hlink]

theorem Keeps.isSome_at? (h : l.Keeps l') (hp : (l.at? p).isSome = true) :
    (l'.at? p).isSome = true := by
  rcases h p with ho | ⟨hnone, -⟩
  · rwa [← Option.isSome_map, ho, Option.isSome_map]
  · rw [hnone] at hp
    contradiction

theorem Keeps.follow_eq (h : l.Keeps l') (hp : l.at? p = some (.folder inner))
    (hp' : l'.at? p = some (.folder inner')) (n : Text) : inner'.follow n = inner.follow n := by
  apply chase_congr
  intro n target
  rw [← at?_singleton, ← at?_singleton, ← at?_append hp (by simp), ← at?_append hp' (by simp)]
  exact h.link_iff _ _

theorem Keeps.walk_eq_ok (h : root.Keeps root') (hw : Disk.walk root here names = .ok p) :
    Disk.walk root' here names = .ok p := by
  induction names generalizing here with
  | nil =>
    rw [Disk.walk] at hw ⊢
    split at hw
    · rename_i hhere
      rw [if_pos (h.isSome_at? hhere), hw]
    · simp at hw
  | cons n names ih =>
    rw [Disk.walk] at hw ⊢
    split at hw
    · rename_i inner hin
      obtain ⟨inner', hin'⟩ := h.exists_folder hin
      simp only [hin']
      split at hw
      · rename_i hn
        rw [if_pos hn]
        exact ih hw
      · rename_i hn
        rw [if_neg hn, h.follow_eq hin hin']
        split at hw
        · exact ih hw
        · simp at hw
    · simp at hw
    · simp at hw

end Listing

end CircuitDocs
