import CircuitDocs.Disk.Refusal

/-! # Directory listings

The entries of a directory, each with what stands below it: files with their bytes, links to an
entry of the same directory, and directories. Names are looked up by their first occurrence.
-/

namespace CircuitDocs

inductive Listing where
  | empty
  | file (name : Text) (content : List UInt8) (rest : Listing)
  | link (name target : Text) (rest : Listing)
  | folder (name : Text) (inner rest : Listing)
deriving DecidableEq, Repr

inductive Node where
  | file (content : List UInt8)
  | link (target : Text)
  | folder (inner : Listing)
deriving DecidableEq, Repr

def Node.entry (name : Text) (rest : Listing) : Node → Listing
  | file content => .file name content rest
  | link target => .link name target rest
  | folder inner => .folder name inner rest

namespace Listing

def size : Listing → Nat
  | empty => 0
  | file _ _ rest => rest.size + 1
  | link _ _ rest => rest.size + 1
  | folder _ _ rest => rest.size + 1

def names : Listing → List Text
  | empty => []
  | file n _ rest => n :: rest.names
  | link n _ rest => n :: rest.names
  | folder n _ rest => n :: rest.names

theorem length_names (l : Listing) : l.names.length = l.size := by
  induction l with
  | empty => rfl
  | file n content rest ih | link n target rest ih => rw [names, List.length_cons, ih, size]
  | folder n inner rest _ ih => rw [names, List.length_cons, ih, size]

def find? (name : Text) : Listing → Option Node
  | empty => none
  | file n content rest => if n = name then some (.file content) else rest.find? name
  | link n target rest => if n = name then some (.link target) else rest.find? name
  | folder n inner rest => if n = name then some (.folder inner) else rest.find? name

def put (name : Text) (node : Node) : Listing → Listing
  | empty => node.entry name .empty
  | file n content rest =>
    if n = name then node.entry name rest else .file n content (rest.put name node)
  | link n target rest =>
    if n = name then node.entry name rest else .link n target (rest.put name node)
  | folder n inner rest =>
    if n = name then node.entry name rest else .folder n inner (rest.put name node)

def erase (name : Text) : Listing → Listing
  | empty => empty
  | file n content rest => if n = name then rest else .file n content (rest.erase name)
  | link n target rest => if n = name then rest else .link n target (rest.erase name)
  | folder n inner rest => if n = name then rest else .folder n inner (rest.erase name)

/-- The node at the end of a path that leads through directories only. -/
def at? : List Text → Listing → Option Node
  | [], l => some (.folder l)
  | [n], l => l.find? n
  | n :: m :: names, l =>
    match l.find? n with
    | some (.folder inner) => inner.at? (m :: names)
    | _ => none

/-- Put a node at the end of a path. Missing directories are made; a path through anything else
changes nothing. -/
def putAt (node : Node) : List Text → Listing → Listing
  | [], l => l
  | [n], l => l.put n node
  | n :: m :: names, l =>
    match l.find? n with
    | some (.folder inner) => l.put n (.folder (inner.putAt node (m :: names)))
    | none => l.put n (.folder (empty.putAt node (m :: names)))
    | some _ => l

def eraseAt : List Text → Listing → Listing
  | [], l => l
  | [n], l => l.erase n
  | n :: m :: names, l =>
    match l.find? n with
    | some (.folder inner) => l.put n (.folder (inner.eraseAt (m :: names)))
    | _ => l

/-- The name at the end of a chain of at most `fuel` links. Nothing need be there. -/
def chase (l : Listing) : Nat → Text → Except Refusal Text
  | fuel, name =>
    if isLongName name then .error .tooLong
    else
      match l.find? name, fuel with
      | some (.link target), fuel + 1 => l.chase fuel target
      | some (.link _), 0 => .error .tooManyLinks
      | _, _ => .ok name

def follow (l : Listing) (name : Text) : Except Refusal Text := l.chase linkLimit name

/-- The name at the end of a chain of links of any length. A chain that closes gives the name that
it comes back to as an error. -/
def unwind (l : Listing) (seen : List Text) : Nat → Text → Except Text Text
  | 0, name => .error name
  | fuel + 1, name =>
    match l.find? name with
    | some (.link target) =>
      if name ∈ seen then .error name else l.unwind (name :: seen) fuel target
    | _ => .ok name

/-- The name that a name stands for in the end, or the name at which a chain of links closes. -/
def final (l : Listing) (name : Text) : Except Text Text := l.unwind [] (l.size + 1) name

/-- The entries of the directory that a name stands for, itself or through links. -/
def enter? (l : Listing) (name : Text) : Option Listing :=
  match l.find? name with
  | some (.folder inner) => some inner
  | some (.link _) =>
    match l.follow name with
    | .ok m =>
      match l.find? m with
      | some (.folder inner) => some inner
      | _ => none
    | .error _ => none
  | _ => none

/-- A bound on the directories below any single entry, each counted as often as links lead to it. -/
def deepest : Listing → Nat
  | empty => 0
  | file _ _ rest => rest.deepest
  | link _ _ rest => rest.deepest
  | folder _ inner rest => max (inner.size * inner.deepest + 1) rest.deepest

/-- A bound on the directories of a tree, counting the one at its top. -/
def weight (l : Listing) : Nat := l.size * l.deepest + 1

theorem weight_le_deepest {l inner : Listing} {n : Text} (h : l.find? n = some (.folder inner)) :
    inner.weight ≤ l.deepest := by
  induction l with
  | empty => simp [find?] at h
  | file k content rest ih | link k target rest ih =>
    rw [find?] at h
    split at h
    · simp at h
    · exact ih h
  | folder k inner' rest _ ih =>
    rw [find?] at h
    rw [deepest]
    split at h
    · obtain rfl := Node.folder.inj (Option.some.inj h)
      exact Nat.le_max_left _ _
    · exact Nat.le_trans (ih h) (Nat.le_max_right _ _)

theorem weight_le_deepest_of_enter? {l inner : Listing} {n : Text} (h : l.enter? n = some inner) :
    inner.weight ≤ l.deepest := by
  unfold enter? at h
  split at h
  · rename_i hfind
    exact weight_le_deepest (hfind.trans (congrArg _ (congrArg _ (Option.some.inj h))))
  · split at h
    · split at h
      · rename_i hfind
        exact weight_le_deepest (hfind.trans (congrArg _ (congrArg _ (Option.some.inj h))))
      · simp at h
    · simp at h
  · simp at h

end Listing

end CircuitDocs
