import CircuitDocs.Disk.Basic

/-! # Changes of a disk

An entry is made or removed in the directory that the names before the last one lead to. A path is
read in a directory `here` unless it is absolute. What was made before a change fails is kept.
-/

namespace CircuitDocs

/-- Where an entry stands or may be put: the names of its directory, the entries there, and its own
name. -/
structure Place where
  folder : List Text
  entries : Listing
  name : Text

namespace Place

def names (place : Place) : List Text := place.folder ++ [place.name]

def node? (place : Place) : Option Node := place.entries.find? place.name

end Place

namespace Disk

/-- Where the last name of a path stands. A path without names ends like one in double dots. -/
def place (d : Disk) (here : List Text) (p : Path) : Except Refusal Place :=
  if p.isLong then .error .tooLong
  else
    match walk d.root [] (p.parent.namesFrom here) with
    | .error cause => .error cause
    | .ok folder =>
      match d.root.at? folder with
      | some (.folder entries) =>
        if isLongName p.name then .error .tooLong
        else .ok ⟨folder, entries, p.names.getLastD dotDot⟩
      | _ => .error .notDirectory

def add (d : Disk) (here : List Text) (p : Path) (node : Node) : Except Refusal Disk :=
  match d.place here p with
  | .error cause => .error cause
  | .ok place =>
    if place.name = dotDot || place.node?.isSome then .error .occupied
    else .ok { d with root := d.root.putAt node place.names }

def remove (d : Disk) (here : List Text) (p : Path) : Except Refusal Disk :=
  match d.place here p with
  | .error cause => .error cause
  | .ok place =>
    if place.name = dotDot then .error .directory
    else if place.node?.isNone then .error .missing
    else .ok { d with root := d.root.eraseAt place.names }

/-- Write a file in a directory that is there, through links if there are any. -/
def put (d : Disk) (here : List Text) (p : Path) (content : List UInt8) : Except Refusal Disk :=
  match d.place here p with
  | .error cause => .error cause
  | .ok place =>
    if place.name = dotDot then .error .directory
    else
      match place.entries.follow place.name with
      | .error cause => .error cause
      | .ok name =>
        match place.entries.find? name with
        | some (.folder _) => .error .directory
        | _ => .ok { d with root := d.root.putAt (.file content) (place.folder ++ [name]) }

def isFolder (d : Disk) (here : List Text) (p : Path) : Bool :=
  match d.locate p here with
  | .ok (.folder _) => true
  | _ => false

def ensureFolder (d : Disk) (here : List Text) (p : Path) : Disk × Except PathFault Unit :=
  match d.add here p (.folder .empty) with
  | .ok d => (d, .ok ())
  | .error cause => (d, if d.isFolder here p then .ok () else .error (.refused cause p))

/-- Make a directory, and those above it that are missing. The names are given from the last one
on. -/
def makeUpwards (d : Disk) (here : List Text) (anchor : Anchor) :
    List Text → Disk × Except PathFault Unit
  | [] => (d, .ok ())
  | n :: above =>
    let p : Path := ⟨anchor, (n :: above).reverse⟩
    match d.add here p (.folder .empty) with
    | .error .missing =>
      match makeUpwards d here anchor above with
      | (d, .ok _) => d.ensureFolder here p
      | (d, .error fault) => (d, .error fault)
    | _ => d.ensureFolder here p

def makeFolders (d : Disk) (here : List Text) (p : Path) : Disk × Except PathFault Unit :=
  if p.hasNull then (d, .error .nullByte) else d.makeUpwards here p.anchor p.names.reverse

def write (d : Disk) (here : List Text) (p : Path) (content : List UInt8) :
    Disk × Except PathFault Unit :=
  match d.makeFolders here p.parent with
  | (d, .error fault) => (d, .error fault)
  | (d, .ok _) =>
    if p.hasNull then (d, .error .nullByte)
    else
      match d.put here p content with
      | .ok d => (d, .ok ())
      | .error cause => (d, .error (.refused cause p))

end Disk

end CircuitDocs
