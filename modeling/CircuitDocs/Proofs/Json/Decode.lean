import CircuitDocs.Proofs.Json.Grammar

/-! # Decoding

A decoder for JSON documents, which does not know how they are rendered. Each reader takes what it
reads from the front of a text and passes on the rest. Readers of nested values are given a bound on
their steps, which the length of the text always meets.
-/

namespace CircuitDocs.Json

open Text

def skip (t : Text) : Text := t.dropWhile isSpace

def digits? (t : Text) : Option (Text × Text) :=
  match t.takeWhile Char.isDigit with
  | [] => none
  | ds => some (ds, t.dropWhile Char.isDigit)

def whole? (t : Text) : Option (Text × Text) :=
  (digits? t).filter fun (ds, _) => ds.head? ≠ some '0' || ds = ['0']

def fraction? : Text → Option (Text × Text)
  | '.' :: t => digits? t
  | t => some ([], t)

def signed? : Text → Option (ℤ × Text)
  | '+' :: t => (digits? t).map fun (ds, r) => ((Nat.ofDigitChars 10 ds 0 : ℤ), r)
  | '-' :: t => (digits? t).map fun (ds, r) => (-(Nat.ofDigitChars 10 ds 0 : ℤ), r)
  | t => (digits? t).map fun (ds, r) => ((Nat.ofDigitChars 10 ds 0 : ℤ), r)

def exponent? : Text → Option (ℤ × Text)
  | c :: t => if c ∈ ['e', 'E'] then signed? t else some (0, c :: t)
  | [] => some (0, [])

def magnitude? (t : Text) : Option (ℚ × Text) := do
  let (whole, t) ← whole? t
  let (fraction, t) ← fraction? t
  let (e, t) ← exponent? t
  return (magnitude whole fraction e, t)

def number? : Text → Option (ℚ × Text)
  | '-' :: t => (magnitude? t).map fun (q, r) => (-q, r)
  | t => magnitude? t

def unit? : Text → Option (Nat × Text)
  | a :: b :: c :: d :: t => do
    let i ← hexValue? a
    let j ← hexValue? b
    let k ← hexValue? c
    let l ← hexValue? d
    return (((i * 16 + j) * 16 + k) * 16 + l, t)
  | _ => none

/-- The character of a unit, or of a pair of which it is the first one. -/
def unitChar? (n : Nat) (t : Text) : Option (Char × Text) :=
  if isHigh n then do
    let t ← after? ['\\', 'u'] t
    let (low, t) ← unit? t
    if isLow low then return (Char.ofNat (paired n low), t) else none
  else if isLow n then none
  else some (Char.ofNat n, t)

def char? : Text → Option (Char × Text)
  | '\\' :: 'u' :: t => (unit? t).bind fun (n, t) => unitChar? n t
  | '\\' :: l :: t => (letters.lookup l).map (·, t)
  | c :: t => if c.toNat < 0x20 || c = '\x22' || c = '\\' then none else some (c, t)
  | [] => none

def string? : Nat → Text → Option (Text × Text)
  | _, '\x22' :: r => some ([], r)
  | n + 1, t => do
    let (c, t) ← char? t
    let (s, r) ← string? n t
    return (c :: s, r)
  | 0, _ => none

def items? {α : Type} (read : Text → Option (α × Text)) (close : Char) :
    Nat → Text → Option (List α × Text)
  | 0, _ => none
  | n + 1, t => do
    let (a, t) ← read t
    match skip t with
    | c :: t =>
      if c = close then return ([a], t)
      else if c = ',' then (items? read close n t).map (Prod.map (a :: ·) id)
      else none
    | [] => none

def listed? {α : Type} (read : Text → Option (α × Text)) (close : Char) (n : Nat) (t : Text) :
    Option (List α × Text) :=
  match skip t with
  | c :: r => if c = close then some ([], r) else items? read close n t
  | [] => none

def keyed? (n : Nat) (read : Text → Option (Value × Text)) (t : Text) :
    Option ((Text × Value) × Text) := do
  let t ← after? ['\x22'] (skip t)
  let (key, t) ← string? n t
  let t ← after? [':'] (skip t)
  let (v, r) ← read t
  return ((key, v), r)

def scalar? (t : Text) : Option (Value × Text) :=
  (literals.findSome? fun entry => (after? entry.1 t).map (entry.2, ·)).or
    ((number? t).map fun (q, r) => (.number q, r))

/-- A value, with white space in front. -/
def value? : Nat → Text → Option (Value × Text)
  | 0, _ => none
  | n + 1, t =>
    match skip t with
    | '\x22' :: t => (string? n t).map fun (s, r) => (.str s, r)
    | '[' :: t => (listed? (value? n) ']' n t).map fun (vs, r) => (.arr vs, r)
    | '\x7b' :: t => (listed? (keyed? n (value? n)) '\x7d' n t).map fun (fs, r) => (.obj fs, r)
    | t => scalar? t

def decode (t : Text) : Option Value :=
  (value? t.length t).bind fun (v, r) => if (skip r).isEmpty then some v else none

end CircuitDocs.Json
