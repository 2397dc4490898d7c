import CircuitDocs.Proofs.Disk.Order

/-! # Trees

A listing is a tree when no directory has two entries of one name and no link leads to a directory.
Such a tree is known by what stands at its paths: the paths that are collected from it and the
places that paths lead to do not depend on the order of the entries.
-/

namespace CircuitDocs

/-- A node without what stands below it. -/
def Node.bare : Node → Node
  | folder _ => folder .empty
  | node => node

def Node.isFolder : Node → Bool
  | folder _ => true
  | _ => false

def Node.inside : Node → Listing
  | folder inner => inner
  | _ => .empty

namespace Listing

/-- Whether no directory has two entries of one name. -/
def distinct : Listing → Bool
  | empty => true
  | file n _ rest => (rest.find? n).isNone && rest.distinct
  | link n _ rest => (rest.find? n).isNone && rest.distinct
  | folder n inner rest => (rest.find? n).isNone && inner.distinct && rest.distinct

def isFolder (l : Listing) (n : Text) : Bool := (l.enter? n).isSome

/-- Whether names lead to a directory, possibly through links at their end. -/
def leadsToFolder : List Text → Listing → Bool
  | [], _ => true
  | [n], l => l.isFolder n
  | n :: m :: names, l =>
    match l.find? n with
    | some (.folder inner) => inner.leadsToFolder (m :: names)
    | _ => false

/-- Whether no link among some entries of a directory or below leads to a directory. Links are
looked up in the whole directory `here`. -/
def linksEnd : Listing → (here : Listing) → Bool
  | empty, _ => true
  | file _ _ rest, here => rest.linksEnd here
  | link n _ rest, here => !here.isFolder n && rest.linksEnd here
  | folder _ inner rest, here => inner.linksEnd inner && rest.linksEnd here

/-- The listing of a tree without links to directories. -/
structure IsTree (l : Listing) : Prop where
  distinct : l.distinct = true
  links : l.linksEnd l = true

instance (l : Listing) : Decidable l.IsTree :=
  decidable_of_iff (l.distinct = true ∧ l.linksEnd l = true)
    ⟨fun h => ⟨h.1, h.2⟩, fun h => ⟨h.distinct, h.links⟩⟩

variable {l l' inner : Listing} {n m : Text} {p q names here : List Text} {node : Node}

/-! ## Entries in front -/

@[elab_as_elim] theorem entry_induction {motive : Listing → Prop} (empty : motive .empty)
    (entry : ∀ (name : Text) (node : Node) (rest : Listing), motive node.inside → motive rest →
      motive (node.entry name rest)) (l : Listing) : motive l := by
  induction l with
  | empty => exact empty
  | file n content rest ih => exact entry n (.file content) rest empty ih
  | link n target rest ih => exact entry n (.link target) rest empty ih
  | folder n inner rest ihi ih => exact entry n (.folder inner) rest ihi ih

theorem find?_entry (k : Text) (node : Node) (rest : Listing) (n : Text) :
    (node.entry k rest).find? n = if k = n then some node else rest.find? n := by
  cases node <;> rfl

theorem distinct_entry {k : Text} {rest : Listing} :
    (node.entry k rest).distinct = true ↔
      rest.find? k = none ∧ node.inside.distinct = true ∧ rest.distinct = true := by
  cases node <;>
    simp [Node.entry, Node.inside, Listing.distinct, and_assoc]

theorem names_entry (k : Text) (node : Node) (rest : Listing) :
    (node.entry k rest).names = k :: rest.names := by
  cases node <;> rfl

theorem mem_names_iff : n ∈ l.names ↔ (l.find? n).isSome = true := by
  induction l using entry_induction with
  | empty => simp [names, find?]
  | entry k node rest _ ih =>
    rw [names_entry, List.mem_cons, find?_entry, ih]
    by_cases hk : k = n
    · simp [hk]
    · simp [hk, Ne.symm hk]

theorem nodup_names (hd : l.distinct = true) : l.names.Nodup := by
  induction l using entry_induction with
  | empty => exact List.nodup_nil
  | entry k node rest _ ih =>
    obtain ⟨hk, -, hrest⟩ := distinct_entry.mp hd
    rw [names_entry, List.nodup_cons, mem_names_iff, hk]
    exact ⟨by simp, ih hrest⟩

theorem distinct_of_find? (hd : l.distinct = true) (h : l.find? n = some node) :
    node.inside.distinct = true := by
  induction l using entry_induction with
  | empty => simp [find?] at h
  | entry k node' rest _ ih =>
    obtain ⟨-, hin, hrest⟩ := distinct_entry.mp hd
    rw [find?_entry] at h
    split at h
    · obtain rfl := Option.some.inj h
      exact hin
    · exact ih hrest h

theorem exists_find?_of_enter? (h : l.enter? n = some inner) :
    (l.find? n).isSome = true ∧ ∃ m, l.find? m = some (.folder inner) := by
  unfold enter? at h
  split at h
  · rename_i hn
    exact ⟨by rw [hn]; rfl, n, by rw [hn, Option.some.inj h]⟩
  · rename_i hn
    refine ⟨by rw [hn]; rfl, ?_⟩
    split at h
    · rename_i m _
      split at h
      · rename_i hm
        exact ⟨m, by rw [hm, Option.some.inj h]⟩
      · simp at h
    · simp at h
  · simp at h

theorem linksEnd_entry {k : Text} {rest whole : Listing} :
    (node.entry k rest).linksEnd whole = true ↔
      (∀ target, node = .link target → whole.isFolder k = false) ∧
        node.inside.linksEnd node.inside = true ∧ rest.linksEnd whole = true := by
  cases node <;> simp [Node.entry, Node.inside, linksEnd]

theorem linksEnd_of_find? {whole : Listing} (hl : l.linksEnd whole = true)
    (h : l.find? n = some node) :
    (∀ target, node = .link target → whole.isFolder n = false) ∧
      node.inside.linksEnd node.inside = true := by
  induction l using entry_induction with
  | empty => simp [find?] at h
  | entry k node' rest _ ih =>
    obtain ⟨hlink, hin, hrest⟩ := linksEnd_entry.mp hl
    rw [find?_entry] at h
    split at h
    · rename_i hk
      subst hk
      obtain rfl := Option.some.inj h
      exact ⟨hlink, hin⟩
    · exact ih hrest h

/-! ## What stands at a path -/

theorem at?_singleton (l : Listing) (n : Text) : l.at? [n] = l.find? n := rfl

theorem at?_cons (h : l.find? n = some (.folder inner)) (hp : p ≠ []) :
    l.at? (n :: p) = inner.at? p := by
  obtain ⟨m, p, rfl⟩ := List.exists_cons_of_ne_nil hp
  rw [at?, h]

theorem exists_of_at?_cons (hp : p ≠ []) (h : l.at? (n :: p) = some node) :
    ∃ inner, l.find? n = some (.folder inner) ∧ inner.at? p = some node := by
  obtain ⟨m, p, rfl⟩ := List.exists_cons_of_ne_nil hp
  rw [at?] at h
  split at h
  · rename_i inner hf
    exact ⟨inner, hf, h⟩
  · simp at h

theorem leadsToFolder_cons (h : l.find? n = some (.folder inner)) (hp : p ≠ []) :
    l.leadsToFolder (n :: p) = inner.leadsToFolder p := by
  obtain ⟨m, p, rfl⟩ := List.exists_cons_of_ne_nil hp
  rw [leadsToFolder, h]

theorem folder_induction {motive : List Text → Listing → Prop} (nil : motive [] inner)
    (cons : ∀ n p l inner', l.find? n = some (.folder inner') →
      inner'.at? p = some (.folder inner) → motive p inner' → motive (n :: p) l)
    (h : l.at? p = some (.folder inner)) : motive p l := by
  induction p generalizing l with
  | nil =>
    obtain rfl := Node.folder.inj (Option.some.inj h)
    exact nil
  | cons n p ih =>
    by_cases hp : p = []
    · subst hp
      exact cons n [] l inner h rfl nil
    · obtain ⟨inner', hf, hat⟩ := exists_of_at?_cons hp h
      exact cons n p l inner' hf hat (ih hat)

theorem at?_append (h : l.at? p = some (.folder inner)) (hq : q ≠ []) :
    l.at? (p ++ q) = inner.at? q := by
  refine folder_induction (motive := fun p l => l.at? (p ++ q) = inner.at? q) rfl ?_ h
  intro n p l inner' hf _ ih
  rw [List.cons_append, at?_cons hf (by simp [hq]), ih]

theorem leadsToFolder_append (h : l.at? p = some (.folder inner)) (hq : q ≠ []) :
    l.leadsToFolder (p ++ q) = inner.leadsToFolder q := by
  refine folder_induction
    (motive := fun p l => l.leadsToFolder (p ++ q) = inner.leadsToFolder q) rfl ?_ h
  intro n p l inner' hf _ ih
  rw [List.cons_append, leadsToFolder_cons hf (by simp [hq]), ih]

theorem IsTree.of_at? (hl : l.IsTree) (h : l.at? p = some (.folder inner)) : inner.IsTree := by
  refine folder_induction (motive := fun _ l => l.IsTree → inner.IsTree) id ?_ h hl
  intro n p l inner' hf _ ih hl
  exact ih ⟨distinct_of_find? hl.distinct hf, (linksEnd_of_find? hl.links hf).2⟩

theorem exists_of_at?_concat (h : l.at? (p ++ [n]) = some node) :
    ∃ inner, l.at? p = some (.folder inner) ∧ inner.find? n = some node := by
  induction p generalizing l with
  | nil => exact ⟨l, rfl, h⟩
  | cons k p ih =>
    obtain ⟨inner', hf, hat⟩ := exists_of_at?_cons (by simp) h
    obtain ⟨inner, hp, hn⟩ := ih hat
    refine ⟨inner, ?_, hn⟩
    by_cases hnil : p = []
    · subst hnil
      exact hf.trans hp
    · rw [at?_cons hf hnil, hp]

theorem IsTree.leadsToFolder_eq (hl : l.IsTree) (h : l.at? (p ++ [n]) = some node) :
    l.leadsToFolder (p ++ [n]) = node.isFolder := by
  obtain ⟨inner, hp, hn⟩ := exists_of_at?_concat h
  rw [leadsToFolder_append hp (by simp), leadsToFolder]
  cases node with
  | link target => exact (linksEnd_of_find? (hl.of_at? hp).links hn).1 target rfl
  | file content => simp only [isFolder, enter?, hn, Node.isFolder, Option.isSome_none]
  | folder entries => simp only [isFolder, enter?, hn, Node.isFolder, Option.isSome_some]

theorem IsTree.enter?_eq_some_iff (hl : l.IsTree) :
    l.enter? n = some inner ↔ l.find? n = some (.folder inner) := by
  cases hn : l.find? n with
  | none => simp [enter?, hn]
  | some node =>
    cases node with
    | file content => simp [enter?, hn]
    | folder entries => simp [enter?, hn]
    | link target =>
      have hnone := (linksEnd_of_find? hl.links hn).1 target rfl
      rw [isFolder, Option.isSome_eq_false_iff, Option.isNone_iff_eq_none] at hnone
      simp [hnone]

/-! ## Paths collected from a tree -/

section Collect

variable (f : List Text → Text → Node → Bool) (g : List Text → Text → Bool)

/-- The paths of the entries that `f` accepts, in this directory and below those that `g` accepts.
Both are asked with the names above the entry and its own name. -/
def collect (here : List Text) : Listing → List (List Text)
  | empty => []
  | file n content rest =>
    (if f here n (.file content) then [here ++ [n]] else []) ++ rest.collect here
  | link n target rest =>
    (if f here n (.link target) then [here ++ [n]] else []) ++ rest.collect here
  | folder n inner rest =>
    (if f here n (.folder inner) then [here ++ [n]] else []) ++
      (if g here n then inner.collect (here ++ [n]) else []) ++ rest.collect here

/-- Whether names lead, through directories that `g` accepts, to an entry that `f` accepts. -/
def Collects (here : List Text) : List Text → Listing → Prop
  | [], _ => False
  | [n], l => ∃ node, l.find? n = some node ∧ f here n node = true
  | n :: m :: q, l => ∃ node, l.find? n = some node ∧ g here n = true ∧
      node.inside.Collects (here ++ [n]) (m :: q)

variable {f g}

theorem collect_entry (here : List Text) (k : Text) (node : Node) (rest : Listing) :
    (node.entry k rest).collect f g here =
      (if f here k node then [here ++ [k]] else []) ++
        (if g here k then node.inside.collect f g (here ++ [k]) else []) ++
        rest.collect f g here := by
  cases node <;> simp [Node.entry, Node.inside, collect]

theorem Collects.exists_find? (h : l.Collects f g here p) :
    ∃ n q node, p = n :: q ∧ l.find? n = some node := by
  match p, h with
  | [n], ⟨node, hf, _⟩ => exact ⟨n, [], node, rfl, hf⟩
  | n :: m :: q, ⟨node, hf, _⟩ => exact ⟨n, m :: q, node, rfl, hf⟩

theorem not_collects_empty : ¬ empty.Collects f g here p := by
  intro h
  obtain ⟨n, q, node, -, hf⟩ := h.exists_find?
  simp [find?] at hf

theorem collects_congr (h : l.find? n = l'.find? n) (q : List Text) :
    l.Collects f g here (n :: q) ↔ l'.Collects f g here (n :: q) := by
  cases q with
  | nil => rw [Collects, Collects, h]
  | cons m q => rw [Collects, Collects, h]

theorem collects_entry {k : Text} {rest : Listing} (hk : rest.find? k = none) :
    (node.entry k rest).Collects f g here p ↔
      (p = [k] ∧ f here k node = true) ∨
        (∃ q, p = k :: q ∧ g here k = true ∧ node.inside.Collects f g (here ++ [k]) q) ∨
        rest.Collects f g here p := by
  have hfront : (node.entry k rest).find? k = some node := by rw [find?_entry, if_pos rfl]
  have hother : ∀ {n}, n ≠ k → (node.entry k rest).find? n = rest.find? n := by
    intro n hn
    rw [find?_entry, if_neg (Ne.symm hn)]
  constructor
  · intro h
    obtain ⟨n, q, node', rfl, hn⟩ := h.exists_find?
    by_cases hnk : n = k
    · subst hnk
      rw [hfront] at hn
      obtain rfl := Option.some.inj hn
      cases q with
      | nil =>
        obtain ⟨node', hf, hacc⟩ := h
        obtain rfl := Option.some.inj (hfront.symm.trans hf)
        exact Or.inl ⟨rfl, hacc⟩
      | cons m q =>
        obtain ⟨node', hf, hacc, hrest⟩ := h
        obtain rfl := Option.some.inj (hfront.symm.trans hf)
        exact Or.inr (Or.inl ⟨m :: q, rfl, hacc, hrest⟩)
    · exact Or.inr (Or.inr ((collects_congr (hother hnk) q).mp h))
  · rintro (⟨rfl, hacc⟩ | ⟨q, rfl, hacc, hrest⟩ | h)
    · exact ⟨node, hfront, hacc⟩
    · obtain ⟨m, q, -, rfl, -⟩ := hrest.exists_find?
      exact ⟨node, hfront, hacc, hrest⟩
    · obtain ⟨n, q, node', rfl, hn⟩ := h.exists_find?
      have hnk : n ≠ k := by
        rintro rfl
        rw [hk] at hn
        simp at hn
      exact (collects_congr (hother hnk) q).mpr h

theorem mem_collect (hd : l.distinct = true) :
    p ∈ l.collect f g here ↔ ∃ q, p = here ++ q ∧ l.Collects f g here q := by
  induction l using entry_induction generalizing here with
  | empty => simp [collect, not_collects_empty]
  | entry k node rest ihi ih =>
    obtain ⟨hk, hin, hrest⟩ := distinct_entry.mp hd
    rw [collect_entry, List.mem_append, List.mem_append, ih hrest]
    constructor
    · rintro ((h | h) | ⟨q, rfl, hq⟩)
      · obtain ⟨hacc, h⟩ := List.mem_ite_nil_right.mp h
        exact ⟨[k], List.mem_singleton.mp h, (collects_entry hk).mpr (Or.inl ⟨rfl, hacc⟩)⟩
      · obtain ⟨hacc, h⟩ := List.mem_ite_nil_right.mp h
        obtain ⟨q, rfl, hq⟩ := (ihi hin).mp h
        exact ⟨k :: q, by simp, (collects_entry hk).mpr (Or.inr (Or.inl ⟨q, rfl, hacc, hq⟩))⟩
      · exact ⟨q, rfl, (collects_entry hk).mpr (Or.inr (Or.inr hq))⟩
    · rintro ⟨q, rfl, hq⟩
      rcases (collects_entry hk).mp hq with ⟨rfl, hacc⟩ | ⟨q, rfl, hacc, hq⟩ | hq
      · exact Or.inl (Or.inl (by simp [hacc]))
      · refine Or.inl (Or.inr ?_)
        rw [if_pos hacc, ihi hin]
        exact ⟨q, by simp, hq⟩
      · exact Or.inr ⟨q, rfl, hq⟩

theorem nodup_collect (hd : l.distinct = true) : (l.collect f g here).Nodup := by
  induction l using entry_induction generalizing here with
  | empty => simp [collect]
  | entry k node rest ihi ih =>
    obtain ⟨hk, hin, hrest⟩ := distinct_entry.mp hd
    have hfront : ((if f here k node then [here ++ [k]] else []) ++
        (if g here k then node.inside.collect f g (here ++ [k]) else [])).Nodup := by
      refine List.Nodup.append (by split <;> simp) (by split <;> simp [ihi hin]) ?_
      intro p hp hp'
      obtain ⟨-, hp⟩ := List.mem_ite_nil_right.mp hp
      obtain ⟨q, rfl, hq⟩ := (mem_collect hin).mp (List.mem_ite_nil_right.mp hp').2
      obtain ⟨m, q, _, rfl, -⟩ := hq.exists_find?
      simp at hp
    rw [collect_entry]
    refine List.Nodup.append hfront (ih hrest) ?_
    intro p hp hp'
    obtain ⟨q, rfl, hq⟩ := (mem_collect hrest).mp hp'
    obtain ⟨m, q, _, rfl, hm⟩ := hq.exists_find?
    have hne : m ≠ k := by
      rintro rfl
      simp [hk] at hm
    rcases List.mem_append.mp hp with hp | hp
    · have he := List.mem_singleton.mp (List.mem_ite_nil_right.mp hp).2
      exact hne (List.cons.inj (List.append_cancel_left he)).1
    · obtain ⟨q', he, -⟩ := (mem_collect hin).mp (List.mem_ite_nil_right.mp hp).2
      rw [List.append_assoc] at he
      exact hne (List.cons.inj (List.append_cancel_left he)).1

theorem collects_cons (hp : p ≠ []) :
    l.Collects f g here (n :: p) ↔
      ∃ inner, l.find? n = some (.folder inner) ∧ g here n = true ∧
        inner.Collects f g (here ++ [n]) p := by
  obtain ⟨m, p, rfl⟩ := List.exists_cons_of_ne_nil hp
  constructor
  · rintro ⟨node, hf, hacc, hrest⟩
    cases node with
    | folder inner => exact ⟨inner, hf, hacc, hrest⟩
    | file content => exact absurd hrest not_collects_empty
    | link target => exact absurd hrest not_collects_empty
  · rintro ⟨inner, hf, hacc, hrest⟩
    exact ⟨.folder inner, hf, hacc, hrest⟩

/-- A path is collected when `f` accepts what stands there and `g` accepts the directories on the
way. -/
theorem collects_concat :
    l.Collects f g here (p ++ [n]) ↔
      (∃ node, l.at? (p ++ [n]) = some node ∧ f (here ++ p) n node = true) ∧
        ∀ q k, q ++ [k] <+: p → g (here ++ q) k = true := by
  induction p generalizing l here with
  | nil => simp [Collects, at?]
  | cons m p ih =>
    rw [List.cons_append, collects_cons (by simp)]
    constructor
    · rintro ⟨inner, hf, hacc, hrest⟩
      obtain ⟨⟨node, hat, hnode⟩, hway⟩ := ih.mp hrest
      refine ⟨⟨node, ?_, by simpa using hnode⟩, ?_⟩
      · rw [at?_cons hf (by simp), hat]
      · intro q k hq
        cases q with
        | nil =>
          obtain ⟨rfl, -⟩ := List.cons_prefix_cons.mp hq
          simpa using hacc
        | cons c q =>
          obtain ⟨rfl, hq'⟩ := List.cons_prefix_cons.mp hq
          simpa using hway q k hq'
    · rintro ⟨⟨node, hat, hnode⟩, hway⟩
      obtain ⟨inner, hf, hat⟩ := exists_of_at?_cons (by simp) hat
      refine ⟨inner, hf, by simpa using hway [] m (by simp), ?_⟩
      refine ih.mpr ⟨⟨node, hat, by simpa using hnode⟩, fun q k hq => ?_⟩
      simpa using hway (m :: q) k (by simpa using hq)

end Collect

end Listing

end CircuitDocs
