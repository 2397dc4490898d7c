import CircuitDocs.Command.Help
import CircuitDocs.Command.Run

/-! # The command

Reads what a run needs into a disk, runs, writes what the run left, and prints its output. Only
source files and ignore files are read; links to directories are not followed.
-/

namespace CircuitDocs.Command

def systemPath (names : List Text) : String := String.ofList (Path.absolute names).text

def systemNames (path : String) : List Text := (Path.ofText path.toList).names

def isRead (name : Text) : Bool := name = ignoreFileName || Path.isSource name

def readContent (path : String) (name : Text) : IO (List UInt8) := do
  if isRead name then return (← IO.FS.readBinFile path).toList else return []

/-- A directory with everything below it, and the directories that could not be listed. -/
partial def readFolder (names : List Text) : IO (Listing × List (List Text)) := do
  let entries ← try (← IO.FS.realPath (systemPath names)).readDir
    catch _ => return (.empty, [names])
  let mut listing := Listing.empty
  let mut sealed := []
  for entry in entries do
    let name := entry.fileName.toList
    let isLink := (← entry.path.symlinkMetadata).type matches .symlink
    let isFolder ← entry.path.isDir
    if isLink && (isFolder || !(← entry.path.pathExists)) then
      listing := .link name [] listing
    else if isFolder then
      let (inner, below) ← readFolder (names ++ [name])
      listing := .folder name inner listing
      sealed := sealed ++ below
    else
      listing := .file name (← readContent entry.path.toString name) listing
  return (listing, sealed)

def readDisk (names : List Text) : IO Disk := do
  try
    let path ← IO.FS.realPath (systemPath names)
    if ← path.isDir then
      let (inner, sealed) ← readFolder names
      match names with
      | [] => return { root := inner, sealed, veiled := sealed }
      | _ => return { root := Listing.empty.putAt (.folder inner) names, sealed, veiled := sealed }
    else
      let content ← readContent path.toString (names.getLastD [])
      return { root := Listing.empty.putAt (.file content) names }
  catch _ => return {}

/-- The disk with what stands on the way to the given names. -/
def withObstacles (disk : Disk) (names : List Text) : IO Disk := do
  let mut root := disk.root
  for k in List.range names.length do
    let above := names.take (k + 1)
    if (root.at? above).isNone then
      try
        let path ← IO.FS.realPath (systemPath above)
        root := root.putAt (if ← path.isDir then .folder .empty else .file []) above
      catch _ => pure ()
  return { disk with root }

/-- Names without links and double dots, as far as they exist. -/
def realNames (names : List Text) : IO (List Text) := do
  try return systemNames (← IO.FS.realPath (systemPath names)).toString
  catch _ => return Disk.normalize [] names

def store (disk : Disk) (names : List Text) : IO Unit := do
  match disk.bytes (Path.absolute names) with
  | .ok content =>
    IO.FS.createDirAll (systemPath names.dropLast)
    IO.FS.writeBinFile (systemPath names) ⟨content.toArray⟩
  | .error _ => pure ()

def execute (a : Arguments) : IO UInt32 := do
  let here := systemNames (← IO.currentDir).toString
  let target ← realNames ((Path.ofText a.targetText).namesFrom here)
  let output := Disk.normalize [] ((Path.ofText (a.output?.getD [])).namesFrom here)
  let disk ← withObstacles (← withObstacles (← readDisk target) target.dropLast) output
  let a := { a with target := some (Path.absolute target).text }
  match runWith .wide disk here a with
  | (_, .error crash) =>
    (← IO.getStderr).putStrLn (String.ofList crash.message)
    return 1
  | (left, .ok outcome) =>
    (← IO.getStderr).putStr (String.ofList outcome.stderr)
    if left != disk then store left output
    (← IO.getStdout).putStr (String.ofList outcome.stdout)
    return outcome.status.toUInt32

end CircuitDocs.Command

open CircuitDocs.Command in
def main (args : List String) : IO UInt32 := do
  match Arguments.parse (args.map String.toList) with
  | .ok a => execute a
  | .error .help =>
    helpLines.forM IO.println
    return 0
  | .error (.usage e) =>
    IO.eprintln usageLine
    IO.eprintln ("circuit-docs: error: " ++ String.ofList e.message)
    return 2
