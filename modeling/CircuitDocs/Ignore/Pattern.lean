import CircuitDocs.Ignore.Glob
import CircuitDocs.Text.Quoted

/-! # Ignore patterns

A pattern line is cut at its slashes into segments. Each segment is a glob, or `**`, which stands
for any number of directories. A line may be negated by an exclamation mark, and means directories
only when it ends in a slash.
-/

namespace CircuitDocs.Ignore

open Text

inductive Step where
  | token (t : Glob.Token)
  | someName
  | slash
  | directoriesAbove
  | directoriesBetween
deriving DecidableEq, Repr

/-- How a pattern ends: at a directory, at a slash that need not mark one, or at a directory or the
end of the path. -/
inductive Ending where
  | directory
  | slash
  | directoryOrEnd
deriving DecidableEq, Repr

inductive Shape where
  | anything
  | anySlash (directory : Bool)
  | steps (steps : List Step) (ending : Ending)
deriving DecidableEq, Repr

/-- A pattern; what a negated one matches is not ignored. -/
structure Pattern where
  ignores : Bool
  shape : Shape
deriving DecidableEq, Repr

inductive Fault where
  | invalid (line : Text)
  | badRange
deriving DecidableEq, Repr

def Fault.message : Fault → Text
  | invalid line => "Invalid git pattern: ".toList ++ Quoted.ofText line
  | badRange => "bad character range".toList

/-- The segment that stands for any number of directories. -/
def deep : Text := "**".toList

/-- Segments so that the first is the one to start with at the root: a leading slash is taken away,
and a lone segment may stand at any depth. -/
def anchored : List Text → List Text
  | [] :: rest => rest
  | [s] => if s = deep then [s] else [deep, s]
  | [s, []] => if s = deep then [s, []] else [deep, s, []]
  | segments => segments

def merged : List Text → List Text
  | s :: t :: rest =>
    if s = deep && t = deep then merged (t :: rest) else s :: merged (t :: rest)
  | segments => segments

/-- Segments in normal form: a trailing slash means everything below. -/
def normal (segments : List Text) : List Text :=
  let s := anchored segments
  merged (if s.getLast? = some [] then s.dropLast ++ [deep] else s)

def segmentSteps (s : Text) : Except Glob.Fault (List Step) :=
  if s = ['*'] then .ok [.someName] else (Glob.tokens s).map (·.map .token)

/-- The ending of a pattern whose last segment is `**`. -/
def deepEnding (directory : Bool) : Ending := if directory then .directory else .slash

/-- The steps of the segments after the first; `slash` says whether one is due. -/
def stepsFrom (directory slash : Bool) : List Text → Except Glob.Fault (List Step × Ending)
  | [] => .ok ([], .directoryOrEnd)
  | s :: rest =>
    if s = deep then
      if rest.isEmpty then .ok ([], deepEnding directory)
      else (stepsFrom directory true rest).map fun (steps, e) => (.directoriesBetween :: steps, e)
    else
      match segmentSteps s, stepsFrom directory true rest with
      | .error fault, _ => .error fault
      | .ok _, .error fault => .error fault
      | .ok own, .ok (steps, e) => .ok ((if slash then [.slash] else []) ++ own ++ steps, e)

def shapeOf (directory : Bool) (segments : List Text) : Except Glob.Fault Shape :=
  if segments = [deep] then .ok (if directory then .anySlash true else .anything)
  else if segments = [deep, ['*']] then .ok .anything
  else if segments = [deep, ['*'], deep] then .ok (.anySlash directory)
  else
    match segments with
    | s :: rest =>
      if s = deep then
        (stepsFrom directory false rest).map fun (steps, e) =>
          .steps (.directoriesAbove :: steps) e
      else (stepsFrom directory false segments).map fun (steps, e) => .steps steps e
    | [] => .ok .anything

def Shape.ordered : Shape → Bool
  | steps ss _ => ss.all fun
    | .token t => t.ordered
    | _ => true
  | _ => true

/-- A line without the blanks at its end, unless the last one is escaped. -/
def trimmed (line : Text) : Text :=
  if "\\ ".toList.isSuffixOf line then line else trimRight line

/-- Whether a trimmed line holds no pattern: it is empty, a comment, or a lone slash. -/
def isRemark : Text → Bool
  | [] => true
  | c :: t => c = '#' || (c = '/' && t.isEmpty)

namespace Pattern

/-- The pattern after the mark of negation; the line is the one to blame. -/
def ofBody (line : Text) (ignores : Bool) (body : Text) : Except Fault (Option Pattern) :=
  let segments := normal (body.splitOn '/')
  let directory := (body.splitOn '/').getLast? = some []
  if segments.isEmpty then .error (.invalid line)
  else
    match shapeOf directory segments with
    | .error .danglingEscape => .error (.invalid line)
    | .error .openBracket => .ok none
    | .ok shape => if shape.ordered then .ok (some ⟨ignores, shape⟩) else .error .badRange

def ofLine (line : Text) : Except Fault (Option Pattern) :=
  let t := trimmed line
  if isRemark t then .ok none
  else
    match t with
    | '!' :: body => ofBody line false body
    | body => ofBody line true body

def ofLines : List Text → Except Fault (List Pattern)
  | [] => .ok []
  | line :: rest =>
    match ofLine line with
    | .error fault => .error fault
    | .ok none => ofLines rest
    | .ok (some p) => (ofLines rest).map (p :: ·)

end Pattern

/-! ## Lines of nested ignore files

A line of an ignore file in a directory below the root is written anew for the root.
-/

/-- Put a directory in front of a pattern, after the slash that anchors it. -/
def below (base : Text) : Text → Text
  | '/' :: [] => '/' :: base
  | '/' :: t => '/' :: base ++ '/' :: t
  | [] => base
  | t => base ++ '/' :: t

/-- Whether a line is kept as it is: it is empty, a comment, or begins with an escaped mark. -/
def isFixed (line : Text) : Bool :=
  line.isEmpty || "#".toList.isPrefixOf (trimLeft line) || "\\!".toList.isPrefixOf line ||
    "\\#".toList.isPrefixOf line

/-- A line of the ignore file in directory `base`, as a line for the root. -/
def rebase (base line : Text) : Text :=
  if base.isEmpty || isFixed line then line
  else
    match line with
    | '!' :: t => '!' :: below base t
    | t => below base t

end CircuitDocs.Ignore
