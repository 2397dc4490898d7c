import CircuitDocs.Text.Basic

/-! # UTF-8

Decoding of bytes, with the first fault reported: where it is, which bytes it spans and what is
wrong. A fault spans the longest valid beginning of the sequence that fails.
-/

namespace CircuitDocs.Utf8

inductive Reason where
  | startByte
  | continuationByte
  | endOfData
deriving DecidableEq, Repr

structure Fault where
  reason : Reason
  position : Nat
  bytes : List UInt8
deriving DecidableEq, Repr

/-- A character of which some bytes are still to come. The next byte has to lie between `low` and
`high`, and after it `more` further ones follow. -/
structure Pending where
  position : Nat
  bytes : List UInt8
  code : Nat
  low : UInt8
  high : UInt8
  more : Nat

def lead? (position : Nat) (b : UInt8) : Option Pending :=
  if b < 0xC2 then none
  else if b < 0xE0 then some ⟨position, [b], b.toNat - 0xC0, 0x80, 0xBF, 0⟩
  else if b < 0xF0 then
    some ⟨position, [b], b.toNat - 0xE0, if b = 0xE0 then 0xA0 else 0x80,
      if b = 0xED then 0x9F else 0xBF, 1⟩
  else if b < 0xF5 then
    some ⟨position, [b], b.toNat - 0xF0, if b = 0xF0 then 0x90 else 0x80,
      if b = 0xF4 then 0x8F else 0xBF, 2⟩
  else none

def Pending.extend (p : Pending) (b : UInt8) : Nat := p.code * 64 + (b.toNat - 0x80)

/-- Decode the bytes from a position on, with the character that is being read, if any. -/
def decodeFrom : Nat → Option Pending → List UInt8 → Except Fault Text
  | _, none, [] => .ok []
  | _, some p, [] => .error ⟨.endOfData, p.position, p.bytes⟩
  | n, none, b :: rest =>
    if b < 0x80 then (decodeFrom (n + 1) none rest).map (Char.ofNat b.toNat :: ·)
    else
      match lead? n b with
      | some p => decodeFrom (n + 1) (some p) rest
      | none => .error ⟨.startByte, n, [b]⟩
  | n, some p, b :: rest =>
    if p.low ≤ b && b ≤ p.high then
      match p.more with
      | 0 => (decodeFrom (n + 1) none rest).map (Char.ofNat (p.extend b) :: ·)
      | more + 1 =>
        decodeFrom (n + 1) (some ⟨p.position, p.bytes ++ [b], p.extend b, 0x80, 0xBF, more⟩) rest
    else .error ⟨.continuationByte, p.position, p.bytes⟩

def decode (bytes : List UInt8) : Except Fault Text := decodeFrom 0 none bytes

def encode (t : Text) : List UInt8 := t.flatMap String.utf8EncodeChar

def Reason.message : Reason → Text
  | startByte => "invalid start byte".toList
  | continuationByte => "invalid continuation byte".toList
  | endOfData => "unexpected end of data".toList

/-- The wording of a fault: a single byte is named, a longer span is given by its ends. -/
def Fault.message (f : Fault) : Text :=
  let place := match f.bytes with
    | [b] => "byte 0x".toList ++ Nat.toDigits 16 b.toNat ++ " in position ".toList ++
        Text.decimal f.position
    | bytes => "bytes in position ".toList ++ Text.decimal f.position ++ '-' ::
        Text.decimal (f.position + bytes.length - 1)
  "'utf-8' codec can't decode ".toList ++ place ++ ": ".toList ++ f.reason.message

end CircuitDocs.Utf8
