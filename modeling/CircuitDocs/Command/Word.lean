import CircuitDocs.Command.Option

/-! # Words of the command line

Each word is classified on its own before any option takes effect. A long option may be shortened as
long as one option remains, and a value may be joined to it by an equals sign. After `--` every
word is an operand.
-/

namespace CircuitDocs.Command

/-- What a word is. A short option may be joined with others, a long one with a value. -/
inductive Word where
  | operand (t : Text)
  | separator
  | unknown (t : Text)
  | short (choice : Choice) (tail : Option Text)
  | long (choice : Choice) (value : Option Text)
deriving DecidableEq, Repr

namespace Word

def separatorText : Text := "--".toList

/-- Whether a text is a negative number: digits, possibly with a point before the last of them. -/
def isNegativeNumber : Text → Bool
  | '-' :: t =>
    let t := (Text.before? ['\n'] t).getD t
    match t.dropWhile isDigit with
    | [] => !t.isEmpty
    | '.' :: rest => !rest.isEmpty && rest.all isDigit
    | _ => false
  | _ => false

/-- A word that begins with a dash and names no option. -/
def stray (t : Text) : Word :=
  if isNegativeNumber t || ' ' ∈ t then .operand t else .unknown t

def ofSpelling (spelling : Text) (choice : Choice) (value : Option Text) : Word :=
  if separatorText.isPrefixOf spelling then .long choice value else .short choice value

/-- The part of a word before an equals sign, and the part after it if there is one. -/
def parts (t : Text) : Text × Option Text :=
  match t.dropWhile (· ≠ '=') with
  | _ :: value => (t.takeWhile (· ≠ '='), some value)
  | [] => (t, none)

/-- A word that begins with two dashes and is no full spelling. -/
def shortened (t : Text) : Except UsageError Word :=
  match Choice.completions (parts t).1 with
  | [] => .ok (stray t)
  | [(_, choice)] => .ok (.long choice (parts t).2)
  | candidates => .error (.ambiguous t (candidates.map (·.1)))

/-- A word that begins with one dash and is no full spelling. -/
def clustered (t : Text) : Word :=
  match Choice.ofSpelling? (t.take 2) with
  | some choice => .short choice (some (t.drop 2))
  | none => stray t

def classify (t : Text) : Except UsageError Word :=
  match t with
  | '-' :: c :: _ =>
    match Choice.ofSpelling? t, Choice.ofSpelling? (parts t).1 with
    | some choice, _ => .ok (ofSpelling t choice none)
    | none, some choice => .ok (ofSpelling (parts t).1 choice (parts t).2)
    | none, none => if c = '-' then shortened t else .ok (clustered t)
  | _ => .ok (.operand t)

def classifyAll : List Text → Except UsageError (List Word)
  | [] => .ok []
  | t :: rest =>
    if t = separatorText then .ok (.separator :: rest.map .operand)
    else
      match classify t with
      | .error e => .error e
      | .ok w => (classifyAll rest).map (w :: ·)

end Word

end CircuitDocs.Command
