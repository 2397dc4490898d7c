import CircuitDocs.Ignore.Pattern

/-! # Matching paths

Every step that may take more or less of a path takes as much as it can and gives back only when
the rest would fail, so a path has at most one match with a pattern. A match that ends at a
directory is weak: it gives way to any match that ends elsewhere. Among equals the last one wins.
-/

namespace CircuitDocs.Ignore

inductive Strength where
  | weak
  | strong
deriving DecidableEq, Repr

def accepts : Glob.Token → Char → Bool
  | .exact c, d => c = d
  | .anyOne, d => d ≠ '/'
  | .anyRun, d => d ≠ '/'
  | .oneOf negated ranges, d => negated != ranges.any fun (a, b) => a ≤ d && d ≤ b

section Steps

variable (next : Text → Option Strength)

/-- Take as many characters of a class as possible, then go on. -/
def takeMost (p : Char → Bool) : Text → Option Strength
  | [] => next []
  | c :: t => if p c then (takeMost p t).or (next (c :: t)) else next (c :: t)

def takeOne (p : Char → Bool) : Text → Option Strength
  | [] => none
  | c :: t => if p c then next t else none

/-- Go on after the last possible slash. -/
def afterSlash : Text → Option Strength
  | [] => none
  | c :: t =>
    (if c = '\n' then none else afterSlash t).or (if c = '/' then next t else none)

/-- Take directories at the front, as many as possible. -/
def takeAbove : Text → Option Strength
  | [] => next []
  | c :: t => (if c = '\n' then none else afterSlash next t).or (next (c :: t))

/-- Take a slash and directories after it, as many as possible. -/
def takeBetween : Text → Option Strength
  | '/' :: c :: t =>
    (if c = '\n' then none else takeMost next (· ≠ '\n') t).or (next ('/' :: c :: t))
  | t => next t

def Step.take : Step → Text → Option Strength
  | .token .anyRun => takeMost next (accepts .anyRun)
  | .token t => takeOne next (accepts t)
  | .someName => takeOne (takeMost next (· ≠ '/')) (· ≠ '/')
  | .slash => takeOne next (· = '/')
  | .directoriesAbove => takeAbove next
  | .directoriesBetween => takeBetween next

end Steps

/-- The strength of a match that ends here. The end of the path may be before a last line feed. -/
def Ending.strength? : Ending → Text → Option Strength
  | directory, '/' :: _ => some .weak
  | slash, '/' :: _ => some .strong
  | directoryOrEnd, '/' :: _ => some .weak
  | directoryOrEnd, [] => some .strong
  | directoryOrEnd, ['\n'] => some .strong
  | _, _ => none

def strengthFrom? (ending : Ending) : List Step → Text → Option Strength
  | [] => ending.strength?
  | s :: rest => s.take (strengthFrom? ending rest)

def Shape.strength? : Shape → Text → Option Strength
  | anything, t => if t.any (· ≠ '\n') then some .strong else none
  | anySlash directory, t =>
    if '/' ∈ t then some (if directory then .weak else .strong) else none
  | steps ss ending, t => strengthFrom? ending ss t

/-- A path without one leading slash, or else without a leading dot and slash. -/
def unrooted : Text → Text
  | '/' :: t => t
  | '.' :: '/' :: t => t
  | t => t

/-- What the patterns say that match with the given strength, in order. -/
def hits (patterns : List Pattern) (strength : Strength) (t : Text) : List Bool :=
  (patterns.filter fun p => p.shape.strength? t = some strength).map (·.ignores)

/-- Whether the patterns ignore a path, written with a trailing slash if it is a directory: the last
strong match decides, or the last weak one if no match is strong. -/
def decides (patterns : List Pattern) (path : Text) : Bool :=
  let t := unrooted path
  ((hits patterns .strong t).getLast?.or (hits patterns .weak t).getLast?).getD false

def unslashed (t : Text) : Text :=
  (((t.dropWhile (· = '/')).reverse).dropWhile (· = '/')).reverse

/-- Whether a path below the root is ignored. A directory is also looked up with a slash. -/
def ignored (patterns : List Pattern) (path : Text) (directory : Bool) : Bool :=
  let t := unslashed path
  if t.isEmpty then false
  else decides patterns t || (directory && decides patterns (t ++ ['/']))

end CircuitDocs.Ignore
