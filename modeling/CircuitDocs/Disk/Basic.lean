import CircuitDocs.Disk.Listing
import CircuitDocs.Disk.Path

/-! # Disks

A disk is the listing of its root together with the paths at which the system refuses to answer. A
path is walked name by name; double dots lead back, and links are followed.
-/

namespace CircuitDocs

def dotDot : Text := "..".toList

/-- A file system. A search cannot list a sealed directory, and nothing is told of a path that is
denied. The scan for ignore files does not see what is in a veiled directory, and fails at a faulty
one with a message. -/
structure Disk where
  root : Listing := .empty
  sealed : List (List Text) := []
  denied : List (List Text) := []
  veiled : List (List Text) := []
  faulty : List (List Text × Text) := []
deriving DecidableEq, Repr

namespace Disk

/-- Where names lead to from a directory, by names without double dots and links. -/
def walk (root : Listing) (here : List Text) : List Text → Except Refusal (List Text)
  | [] => if (root.at? here).isSome then .ok here else .error .missing
  | n :: names =>
    match root.at? here with
    | some (.folder inner) =>
      if n = dotDot then walk root here.dropLast names
      else
        match inner.follow n with
        | .ok m => walk root (here ++ [m]) names
        | .error cause => .error cause
    | some _ => .error .notDirectory
    | none => .error .missing

def locate (d : Disk) (p : Path) (here : List Text := []) : Except Refusal Node :=
  if p.hasNull then .error .missing
  else if p.isLong then .error .tooLong
  else
    match walk d.root [] (p.namesFrom here) with
    | .ok names => (d.root.at? names).elim (.error .missing) .ok
    | .error cause => .error cause

/-- What a path leads to, as far as the system tells. -/
def ask (d : Disk) (p : Path) : Except Refusal Node :=
  if d.denied.contains p.names then .error .denied else d.locate p

/-- Why it is not told whether something is at a path. -/
def refusal? (d : Disk) (p : Path) : Option Refusal :=
  match d.ask p with
  | .ok _ => none
  | .error cause => if cause.isAbsence then none else some cause

def normalize (here : List Text) : List Text → List Text
  | [] => here
  | n :: names => normalize (if n = dotDot then here.dropLast else here ++ [n]) names

/-- Names from the root on without double dots and links. Names that lead nowhere stay, and so do
all names after a chain of links that closes. -/
def resolveFrom (root : Listing) (here : List Text) : List Text → List Text
  | [] => here
  | n :: names =>
    if n = dotDot then resolveFrom root here.dropLast names
    else
      match root.at? here with
      | some (.folder inner) =>
        match inner.final n with
        | .ok m => resolveFrom root (here ++ [m]) names
        | .error m => normalize (here ++ [m]) names
      | _ => resolveFrom root (here ++ [n]) names

def resolve (d : Disk) (names : List Text) : List Text := resolveFrom d.root [] names

def bytes (d : Disk) (p : Path) : Except ReadFault (List UInt8) :=
  match d.locate p with
  | .ok (.file content) => .ok content
  | .ok _ => .error (.refused .directory p)
  | .error cause => .error (.refused cause p)

def read (d : Disk) (p : Path) : Except ReadFault Text :=
  match d.bytes p with
  | .ok content =>
    match Utf8.decode content with
    | .ok t => .ok (LineEnd.unify t)
    | .error fault => .error (.encoding fault)
  | .error fault => .error fault

end Disk

end CircuitDocs
