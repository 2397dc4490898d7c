import CircuitDocs.Disk.Refusal
import CircuitDocs.Text.Quoted

/-! # Paths

A path is a list of names with an anchor. Empty names and single dots are dropped when a path is
read, double dots stay. Exactly two leading slashes are an anchor of their own. Where something
cannot be done at a path, the fault says why.
-/

namespace CircuitDocs

open Text

inductive Anchor where
  | relative
  | slash
  | doubleSlash
deriving DecidableEq, Repr

def Anchor.text : Anchor → Text
  | relative => []
  | slash => "/".toList
  | doubleSlash => "//".toList

structure Path where
  anchor : Anchor
  names : List Text
deriving DecidableEq, Repr

namespace Path

def ofText (t : Text) : Path where
  anchor :=
    match (t.takeWhile (· = '/')).length with
    | 0 => .relative
    | 2 => .doubleSlash
    | _ => .slash
  names := (t.splitOn '/').filter fun name => !name.isEmpty && name ≠ ['.']

def joined (names : List Text) : Text := ['/'].intercalate names

/-- The written form of a path; the empty relative path is a dot. -/
def text (p : Path) : Text :=
  if p = ⟨.relative, []⟩ then ['.'] else p.anchor.text ++ joined p.names

def absolute (names : List Text) : Path := ⟨.slash, names⟩

/-- The names from the root on of a path that is read in the directory `here`. -/
def namesFrom (p : Path) (here : List Text) : List Text :=
  if p.anchor = .relative then here ++ p.names else p.names

def hasNull (p : Path) : Bool := p.names.any ('\x00' ∈ ·)

def isLong (p : Path) : Bool := pathLimit < (Utf8.encode p.text).length

def parent (p : Path) : Path := ⟨p.anchor, p.names.dropLast⟩

def below (p : Path) (names : List Text) : Path := ⟨p.anchor, p.names ++ names⟩

def name (p : Path) : Text := p.names.getLastD []

/-- The path as seen from `base`, if it leads through it. -/
def relativeTo? (p base : Path) : Option Path :=
  if p.anchor = base.anchor && base.names.isPrefixOf p.names then
    some ⟨.relative, p.names.drop base.names.length⟩
  else none

/-- How a file is shown in a report: as seen from `base`, or as it is when it lies elsewhere. -/
def shown (file : Text) (base : Path) : Text :=
  match (ofText file).relativeTo? base with
  | some p => p.text
  | none => file

/-- Whether a name is that of a source file: it ends in `.compact` and is longer than that. -/
def isSource (name : Text) : Bool :=
  match before? ".compact".toList name with
  | some (_ :: _) => true
  | _ => false

end Path

def Refusal.message (cause : Refusal) (p : Path) : Text :=
  "[Errno ".toList ++ Text.decimal cause.number ++ "] ".toList ++ cause.wording.toList ++
    ": ".toList ++ Quoted.ofText p.text

/-- Why something cannot be done at a path: it is refused, or it is no path at all. -/
inductive PathFault where
  | refused (cause : Refusal) (path : Path)
  | nullByte
deriving DecidableEq, Repr

def PathFault.message : PathFault → Text
  | refused cause p => cause.message p
  | nullByte => "embedded null byte".toList

inductive ReadFault where
  | refused (cause : Refusal) (path : Path)
  | encoding (fault : Utf8.Fault)
  | system (message : Text)
deriving DecidableEq, Repr

def ReadFault.message : ReadFault → Text
  | refused cause p => cause.message p
  | encoding f => f.message
  | system message => message

end CircuitDocs
