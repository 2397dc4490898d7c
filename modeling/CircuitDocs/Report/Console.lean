import CircuitDocs.Text.Basic

/-! # Consoles

What is printed for a terminal is a list of headings, tables and lines. How they look is up to the
console, and so is whether a heading can be shown at all: the title of a heading may be read as
markup. One console without an edge, with tables in frames, is given here.
-/

namespace CircuitDocs

inductive Print where
  | rule (title : Text)
  | table (titles : List Text) (rows : List (List Text))
  | line (t : Text)
deriving DecidableEq, Repr

/-- The text that a console makes of what is put on it. A heading may be refused with a message. -/
structure Console where
  rule : Text → Except Text Text
  table : List Text → List (List Text) → Text
  line : Text → Text

namespace Console

def put (console : Console) : Print → Except Text Text
  | .rule title => console.rule title
  | .table titles rows => .ok (console.table titles rows)
  | .line t => .ok (console.line t)

/-- Put several things on a console, one after another, up to one that is refused. -/
def putAll (console : Console) : List Print → Except Text Text
  | [] => .ok []
  | p :: prints =>
    match console.put p with
    | .ok t => (console.putAll prints).map (t ++ ·)
    | .error message => .error message

end Console

/-! ## Markup -/

namespace Markup

/-- Markup is text with tags in brackets. A tag knows its position. -/
inductive Piece where
  | text (t : Text)
  | tag (position : Nat) (body : Text)
deriving DecidableEq, Repr

def opens (c : Char) : Bool := c.isLower || c = '#' || c = '/' || c = '@'

def tag? : Text → Option (Text × Text)
  | '[' :: c :: t =>
    let body := t.takeWhile fun d => d ≠ '[' && d ≠ ']'
    match t.drop body.length with
    | ']' :: rest => if opens c then some (c :: body, rest) else none
    | _ => none
  | _ => none

theorem length_of_tag? {t body rest : Text} (h : tag? t = some (body, rest)) :
    rest.length < t.length := by
  unfold tag? at h
  split at h
  · rename_i c t
    dsimp only at h
    split at h
    · rename_i rest' hrest
      split at h
      · simp only [Option.some.injEq, Prod.mk.injEq] at h
        have hlength := congrArg List.length hrest
        rw [← h.2, List.length_cons, List.length_cons]
        rw [List.length_drop, List.length_cons] at hlength
        omega
      · simp at h
    · simp at h
  · simp at h

/-- The pieces of a text from a position on. Of the backslashes in front of a tag each pair stands
for one, and a single one is left off together with the meaning of the tag. -/
def pieces (position : Nat) : Text → List Piece
  | [] => []
  | c :: t =>
    let escapes := ((c :: t).takeWhile (· = '\\')).length
    match h : tag? ((c :: t).drop escapes) with
    | some (body, rest) =>
      have := length_of_tag? h
      .text (List.replicate (escapes / 2) '\\') ::
        (if escapes % 2 = 1 then .text ('[' :: body ++ [']'])
          else .tag (position + escapes) body) ::
        pieces (position + escapes + body.length + 2) rest
    | none =>
      if c = '\\' && t.head? = some '[' then .text ['['] :: pieces (position + 2) t.tail
      else .text [c] :: pieces (position + 1) t
termination_by t => t.length
decreasing_by
  · rw [List.length_drop] at this
    omega
  · rw [List.length_tail, List.length_cons]
    omega
  · exact Nat.lt_add_one _

def style (name : Text) : Text := (Text.trim name).map Char.toLower

/-- The text of pieces after tags with the given styles. A closing tag must have something to
close. -/
def plainOf (stack : List Text) : List Piece → Except Text Text
  | [] => .ok []
  | .text t :: rest => (plainOf stack rest).map (t ++ ·)
  | .tag position body :: rest =>
    match body.takeWhile (· ≠ '=') with
    | '/' :: name =>
      match style name, stack with
      | [], _ :: stack => plainOf stack rest
      | [], [] =>
        .error ("closing tag '[/]' at position ".toList ++ Text.decimal position ++
          " has nothing to close".toList)
      | name, stack =>
        if stack.contains name then plainOf (stack.erase name) rest
        else
          .error ("closing tag '[".toList ++ body ++ "]' at position ".toList ++
            Text.decimal position ++ " doesn't match any open tag".toList)
    | name => plainOf (style name :: stack) rest

def plain (t : Text) : Except Text Text := plainOf [] (pieces 0 t)

end Markup

/-! ## A console without an edge -/

namespace Wide

def visible (t : Text) : Text :=
  t.filter fun c => !inRanges [(0x07, 0x08), (0x0B, 0x0D)] c.toNat

def unbroken (t : Text) : Text := t.map fun c => if c = '\n' || c = '\t' then ' ' else c

def widths (titles : List Text) (rows : List (List Text)) : List Nat :=
  rows.foldl (fun ws row => List.zipWith (fun w cell => max w cell.length) ws row)
    (titles.map List.length)

/-- A cell filled up to the width of its column. The first column is flush right. -/
def filled (width column : Nat) (cell : Text) : Text :=
  let blanks := List.replicate (width - cell.length) ' '
  if column = 0 then blanks ++ cell else cell ++ blanks

def cellLine (bar : Char) (widths : List Nat) (cells : List Text) : Text :=
  bar :: (List.zipWith (fun column cell => ' ' :: filled column.1 column.2 cell ++ [' ', bar])
    widths.zipIdx cells).flatten

/-- A line between rows, made of a left end, a stroke, a crossing and a right end. -/
def border (left stroke crossing right : Char) (widths : List Nat) : Text :=
  left :: [crossing].intercalate (widths.map fun w => List.replicate (w + 2) stroke) ++ [right]

def tableLines (titles : List Text) (rows : List (List Text)) : List Text :=
  let ws := widths titles rows
  [border '┏' '━' '┳' '┓' ws, cellLine '┃' ws titles, border '┡' '━' '╇' '┩' ws] ++
    rows.map (cellLine '│' ws) ++ [border '└' '─' '┴' '┘' ws]

end Wide

open Wide in
/-- A console whose lines are as long as they need to be. Of the styles in markup only the names
count. -/
def Console.wide : Console where
  rule title := (Markup.plain title).map fun t =>
    "---- ".toList ++ unbroken (visible t) ++ " ----\n".toList
  table titles rows := (tableLines titles (rows.map (·.map visible))).flatMap (· ++ ['\n'])
  line t := t ++ ['\n']

end CircuitDocs
