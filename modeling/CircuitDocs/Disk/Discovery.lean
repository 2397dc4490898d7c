import CircuitDocs.Disk.Basic
import CircuitDocs.Ignore.Match

/-! # Discovery of source files

A target is a source file or a directory. A directory is searched through all directories below it
that can be listed, are not ignored and are not called `.git`, level by level. Links to directories
are followed, and an entry of which the system does not tell what it is ends the search. A scan
before that finds the ignore files of all directories that it can see, without following links.
-/

namespace CircuitDocs

inductive DiscoveryError where
  | notFound (target : Path)
  | notSource (target : Path)
  | ignoreFile (fault : ReadFault)
deriving DecidableEq, Repr

def DiscoveryError.message : DiscoveryError → Text
  | notFound target => "Path not found: ".toList ++ target.text
  | notSource target => "File must have .compact extension: ".toList ++ target.text
  | ignoreFile fault => "Failed to read .gitignore files: ".toList ++ fault.message

/-- Why a search ends without a result: an error of the search, a refused ignore pattern, or a path
of which it is not told what is there. -/
inductive DiscoveryFailure where
  | error (e : DiscoveryError)
  | pattern (fault : Ignore.Fault)
  | refused (cause : Refusal) (path : Path)
deriving DecidableEq, Repr

def ignoreFileName : Text := ".gitignore".toList

def repositoryName : Text := ".git".toList

def nameBefore (s t : Text) : Bool := s.lex t fun c d => c.toNat < d.toNat

def namesBefore (p q : List Text) : Bool := p.lex q nameBefore

def sortNames (paths : List (List Text)) : List (List Text) :=
  paths.mergeSort fun p q => !namesBefore q p

def insertName (n : Text) : List Text → List Text
  | [] => [n]
  | m :: names => if nameBefore m n then m :: insertName n names else n :: m :: names

def orderNames (names : List Text) : List Text := names.foldr insertName []

theorem length_insertName (n : Text) (names : List Text) :
    (insertName n names).length = names.length + 1 := by
  induction names with
  | nil => rfl
  | cons m names ih =>
    rw [insertName]
    split
    · rw [List.length_cons, ih, List.length_cons]
    · rfl

theorem length_orderNames (names : List Text) : (orderNames names).length = names.length := by
  induction names with
  | nil => rfl
  | cons n names ih => rw [orderNames, List.foldr_cons, length_insertName, ← orderNames, ih,
      List.length_cons]

/-- What a search needs to know of its directory: which paths are ignored, as directories or not,
which directories can be listed, and of which paths it is not told what they are. -/
structure Search where
  ignored : List Text → Bool → Bool
  listable : List Text → Bool
  refusal? : List Text → Option Refusal

namespace Search

def finds (s : Search) (here : List Text) (name : Text) : Bool :=
  Path.isSource name && !s.ignored (here ++ [name]) false

def enters (s : Search) (here : List Text) (name : Text) : Bool :=
  name ≠ repositoryName && !s.ignored (here ++ [name]) true

/-- A directory that waits to be searched: its names and its entries. -/
structure Folder where
  names : List Text
  entries : Listing

def Folder.children (folder : Folder) : List Text := orderNames folder.entries.names

/-- Where a search ends without a result, and why. -/
structure Halt where
  cause : Refusal
  names : List Text
deriving DecidableEq, Repr

/-- The first entry of a directory of which it is not told what it is. -/
def halt? (s : Search) (folder : Folder) : Option Halt :=
  folder.children.findSome? fun n =>
    (s.refusal? (folder.names ++ [n])).map fun cause => ⟨cause, folder.names ++ [n]⟩

def filesIn (s : Search) (folder : Folder) : List (List Text) :=
  (folder.children.filter fun n =>
    (folder.entries.enter? n).isNone && s.finds folder.names n).map (folder.names ++ [·])

/-- The directories among the entries of a directory that are to be searched. -/
def foldersIn (s : Search) (folder : Folder) : List Folder :=
  folder.children.filterMap fun n =>
    if s.enters folder.names n then (folder.entries.enter? n).map (⟨folder.names ++ [n], ·⟩)
    else none

/-- How many directories a queue stands for at most, with all those below. -/
def pending : List Folder → Nat
  | [] => 0
  | folder :: queue => folder.entries.weight + pending queue

theorem pending_append (queue queue' : List Folder) :
    pending (queue ++ queue') = pending queue + pending queue' := by
  induction queue with
  | nil => rw [List.nil_append, pending, Nat.zero_add]
  | cons folder queue ih => rw [List.cons_append, pending, pending, ih, Nat.add_assoc]

theorem pending_le {queue : List Folder} {bound : Nat}
    (h : ∀ folder ∈ queue, folder.entries.weight ≤ bound) :
    pending queue ≤ queue.length * bound := by
  induction queue with
  | nil => exact Nat.zero_le _
  | cons folder queue ih =>
    rw [List.forall_mem_cons] at h
    rw [pending, List.length_cons, Nat.succ_mul, Nat.add_comm]
    exact Nat.add_le_add (ih h.2) h.1

theorem pending_foldersIn_lt (s : Search) (folder : Folder) :
    pending (s.foldersIn folder) < folder.entries.weight := by
  have hlength : (s.foldersIn folder).length ≤ folder.entries.size :=
    Nat.le_trans (List.length_filterMap_le _ _)
      (Nat.le_of_eq (by rw [Folder.children, length_orderNames, Listing.length_names]))
  have hweight : ∀ f ∈ s.foldersIn folder, f.entries.weight ≤ folder.entries.deepest := by
    intro f hf
    obtain ⟨n, -, hn⟩ := List.mem_filterMap.mp hf
    split at hn
    · obtain ⟨inner, hinner, rfl⟩ := Option.map_eq_some_iff.mp hn
      exact Listing.weight_le_deepest_of_enter? hinner
    · simp at hn
  exact Nat.lt_succ_of_le
    (Nat.le_trans (pending_le hweight) (Nat.mul_le_mul_right _ hlength))

/-- The source files of the directories in a queue and below. The first one is listed, if that can
be done, and the directories in it are put at the end. -/
def loop (s : Search) : List Folder → Except Halt (List (List Text))
  | [] => .ok []
  | folder :: queue =>
    if s.listable folder.names then
      match s.halt? folder with
      | some halt => .error halt
      | none => (s.loop (queue ++ s.foldersIn folder)).map (s.filesIn folder ++ ·)
    else s.loop queue
termination_by queue => pending queue
decreasing_by
  · have := pending_foldersIn_lt s folder
    rw [pending_append, pending]
    omega
  · rw [pending, Listing.weight]
    omega

def run (s : Search) (l : Listing) : Except Halt (List (List Text)) :=
  (s.loop [⟨[], l⟩]).map sortNames

end Search

namespace Disk

/-- The lines of the ignore file with the given names below `target`, written for the target. -/
def ignoreFileLines (d : Disk) (target : Path) (names : List Text) :
    Except ReadFault (List Text) :=
  (d.read (target.below names)).map fun t =>
    (LineEnd.split t).map (Ignore.rebase (Path.joined names.dropLast))

/-- The directories among some entries and below them that a scan sees, as it comes to them. -/
def scan (d : Disk) (target : Path) (here : List Text) : Listing → List (List Text)
  | .empty => []
  | .file _ _ rest => d.scan target here rest
  | .link _ _ rest => d.scan target here rest
  | .folder n inner rest =>
    (here ++ [n]) ::
      ((if target.names ++ (here ++ [n]) ∈ d.veiled then []
        else d.scan target (here ++ [n]) inner) ++ d.scan target here rest)

/-- A directory with the entries `l` and those below it that a scan sees. -/
def scanned (d : Disk) (target : Path) (l : Listing) : List (List Text) :=
  [] :: if target.names ∈ d.veiled then [] else d.scan target [] l

/-- The ignore file of a directory, if it is told that there is one. The directory is listed after
that, and may be faulty. -/
def ignoreFileIn (d : Disk) (target : Path) (folder : List Text) :
    Except ReadFault (List (List Text)) :=
  let names := folder ++ [ignoreFileName]
  let listed (found : List (List Text)) : Except ReadFault (List (List Text)) :=
    match d.faulty.lookup (target.names ++ folder) with
    | some message => .error (.system message)
    | none => .ok found
  match d.ask (target.below names) with
  | .ok _ => listed [names]
  | .error cause =>
    if cause.isAbsence || cause = .denied then listed []
    else .error (.refused cause (target.below names))

def ignoreFiles (d : Disk) (target : Path) : Except ReadFault (List (List Text)) :=
  match d.ask target with
  | .ok (.folder l) =>
    ((d.scanned target l).mapM (d.ignoreFileIn target)).map fun found => sortNames found.flatten
  | .ok _ => .ok []
  | .error cause => if cause.isAbsence then .ok [] else .error (.refused cause target)

def ignoreLines (d : Disk) (target : Path) : Except ReadFault (List Text) :=
  match d.ignoreFiles target with
  | .ok files => (files.mapM (d.ignoreFileLines target)).map List.flatten
  | .error fault => .error fault

def patterns (d : Disk) (target : Path) :
    Except ReadFault (Except Ignore.Fault (List Ignore.Pattern)) :=
  (d.ignoreLines target).map Ignore.Pattern.ofLines

def search (d : Disk) (target : Path) (patterns : List Ignore.Pattern) : Search where
  ignored names directory := Ignore.ignored patterns (Path.joined names) directory
  listable names := target.names ++ names ∉ d.sealed
  refusal? names := d.refusal? (target.below names)

def searchFolder (d : Disk) (target : Path) (patterns : List Ignore.Pattern) (l : Listing) :
    Except DiscoveryFailure (List Path) :=
  match (d.search target patterns).run l with
  | .ok found => .ok (found.map target.below)
  | .error halt => .error (.refused halt.cause (target.below halt.names))

def discover (d : Disk) (gitignore : Bool) (target : Path) :
    Except DiscoveryFailure (List Path) :=
  match d.ask target with
  | .error cause =>
    .error (if cause.isAbsence then .error (.notFound target) else .refused cause target)
  | .ok (.folder l) =>
    match if gitignore then d.patterns target else .ok (.ok []) with
    | .error fault => .error (.error (.ignoreFile fault))
    | .ok (.error fault) => .error (.pattern fault)
    | .ok (.ok patterns) => d.searchFolder target patterns l
  | .ok _ =>
    if Path.isSource target.name then .ok [target] else .error (.error (.notSource target))

end Disk

end CircuitDocs
