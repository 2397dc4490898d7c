import CircuitDocs.Text.Quoted

/-! # JSON

Values and their written form: two spaces of indentation per level, one item or field per line, and
nothing but ASCII. Code points beyond the basic plane are written as two escapes.
-/

namespace CircuitDocs

inductive Json where
  | bool (b : Bool)
  | int (n : Int)
  | str (t : Text)
  | arr (items : List Json)
  | obj (fields : List (Text × Json))

namespace Json

/-- An escape of one sixteen-bit unit. -/
def unit (n : Nat) : Text := "\\u".toList ++ Quoted.hex 4 n

def escape (c : Char) : Text :=
  if c = '\x22' then "\\\x22".toList
  else if c = '\\' then "\\\\".toList
  else if c = '\n' then "\\n".toList
  else if c = '\r' then "\\r".toList
  else if c = '\t' then "\\t".toList
  else if c = '\x08' then "\\b".toList
  else if c = '\x0c' then "\\f".toList
  else if 0x20 ≤ c.toNat && c.toNat < 0x7F then [c]
  else if c.toNat < 0x10000 then unit c.toNat
  else
    let n := c.toNat - 0x10000
    unit (0xD800 + n / 0x400) ++ unit (0xDC00 + n % 0x400)

def quoted (t : Text) : Text := '\x22' :: t.flatMap escape ++ ['\x22']

def newline (level : Nat) : Text := '\n' :: List.replicate (2 * level) ' '

/-- Written items between brackets, each on a line of the level. -/
def enclosed (left right : Char) (level : Nat) : List Text → Text
  | [] => [left, right]
  | items =>
    left :: newline (level + 1) ++ (',' :: newline (level + 1)).intercalate items ++
      newline level ++ [right]

mutual

def renderAt (level : Nat) : Json → Text
  | bool b => (if b then "true" else "false").toList
  | int n => Text.decimal n
  | str t => quoted t
  | arr items => enclosed '[' ']' level (renderItems (level + 1) items)
  | obj fields => enclosed '\x7b' '\x7d' level (renderFields (level + 1) fields)

def renderItems (level : Nat) : List Json → List Text
  | [] => []
  | item :: items => renderAt level item :: renderItems level items

def renderFields (level : Nat) : List (Text × Json) → List Text
  | [] => []
  | (key, value) :: fields =>
    (quoted key ++ ": ".toList ++ renderAt level value) :: renderFields level fields

end

def render (j : Json) : Text := renderAt 0 j

end Json

end CircuitDocs
