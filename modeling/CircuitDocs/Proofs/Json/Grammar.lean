import CircuitDocs.Json.Basic
import Mathlib.Algebra.Field.Rat

/-! # JSON documents

The standard grammar of JSON as relations between values and texts: white space between tokens,
numbers with fractions and exponents, strings with all their escapes, nested arrays and objects.
Nothing here knows how documents are rendered.
-/

namespace CircuitDocs.Json

/-- A value as a reader of JSON sees it. Fields stand in the order in which they are written. -/
inductive Value where
  | null
  | bool (b : Bool)
  | number (q : ℚ)
  | str (t : Text)
  | arr (items : List Value)
  | obj (fields : List (Text × Value))

/-! ## White space -/

def isSpace (c : Char) : Bool := c = ' ' || c = '\t' || c = '\n' || c = '\r'

def IsSpace (t : Text) : Prop := ∀ c ∈ t, isSpace c = true

/-! ## Numbers -/

structure Digits (t : Text) : Prop where
  ne_nil : t ≠ []
  all : ∀ c ∈ t, c.isDigit = true

/-- Digits of a whole number, without zeros in front. -/
structure Whole (t : Text) : Prop extends Digits t where
  unpadded : t.head? = some '0' → t = ['0']

inductive Fraction : Text → Text → Prop where
  | absent : Fraction [] []
  | present {ds : Text} : Digits ds → Fraction ds ('.' :: ds)

inductive Signed : ℤ → Text → Prop where
  | bare {ds : Text} : Digits ds → Signed (Nat.ofDigitChars 10 ds 0) ds
  | plus {ds : Text} : Digits ds → Signed (Nat.ofDigitChars 10 ds 0) ('+' :: ds)
  | minus {ds : Text} : Digits ds → Signed (-Nat.ofDigitChars 10 ds 0) ('-' :: ds)

inductive Exponent : ℤ → Text → Prop where
  | absent : Exponent 0 []
  | present {c : Char} {e : ℤ} {t : Text} : c ∈ ['e', 'E'] → Signed e t → Exponent e (c :: t)

def magnitude (whole fraction : Text) (e : ℤ) : ℚ :=
  Nat.ofDigitChars 10 (whole ++ fraction) 0 * 10 ^ (e - fraction.length)

inductive Number : ℚ → Text → Prop where
  | plus {whole fraction f x : Text} {e : ℤ} : Whole whole → Fraction fraction f →
      Exponent e x → Number (magnitude whole fraction e) (whole ++ (f ++ x))
  | minus {whole fraction f x : Text} {e : ℤ} : Whole whole → Fraction fraction f →
      Exponent e x → Number (-magnitude whole fraction e) ('-' :: (whole ++ (f ++ x)))

/-! ## Strings -/

def hexValue? (c : Char) : Option Nat :=
  if c.isDigit then some (c.toNat - '0'.toNat)
  else if 'a' ≤ c ∧ c ≤ 'f' then some (c.toNat - 'a'.toNat + 10)
  else if 'A' ≤ c ∧ c ≤ 'F' then some (c.toNat - 'A'.toNat + 10)
  else none

def letters : List (Char × Char) :=
  [('\x22', '\x22'), ('\\', '\\'), ('/', '/'), ('b', '\x08'), ('f', '\x0c'), ('n', '\n'),
    ('r', '\r'), ('t', '\t')]

inductive Hex4 : Nat → Text → Prop where
  | mk {a b c d : Char} {i j k l : Nat} : hexValue? a = some i → hexValue? b = some j →
      hexValue? c = some k → hexValue? d = some l →
      Hex4 (((i * 16 + j) * 16 + k) * 16 + l) [a, b, c, d]

def isHigh (n : Nat) : Bool := 0xD800 ≤ n && n < 0xDC00

def isLow (n : Nat) : Bool := 0xDC00 ≤ n && n < 0xE000

def paired (high low : Nat) : Nat := 0x10000 + (high - 0xD800) * 0x400 + (low - 0xDC00)

/-- A character of a string. A unit that belongs in a pair stands for no character by itself. -/
inductive Spelled : Char → Text → Prop where
  | plain {c : Char} : 0x20 ≤ c.toNat → c ≠ '\x22' → c ≠ '\\' → Spelled c [c]
  | letter {l c : Char} : (l, c) ∈ letters → Spelled c ['\\', l]
  | unit {n : Nat} {t : Text} : Hex4 n t → isHigh n = false → isLow n = false →
      Spelled (Char.ofNat n) ('\\' :: 'u' :: t)
  | pair {high low : Nat} {t u : Text} : Hex4 high t → Hex4 low u → isHigh high = true →
      isLow low = true →
      Spelled (Char.ofNat (paired high low)) ('\\' :: 'u' :: (t ++ '\\' :: 'u' :: u))

inductive Spells : Text → Text → Prop where
  | nil : Spells [] []
  | cons {c : Char} {s t u : Text} : Spelled c t → Spells s u → Spells (c :: s) (t ++ u)

/-! ## Values -/

def literals : List (Text × Value) :=
  [("null".toList, .null), ("true".toList, .bool true), ("false".toList, .bool false)]

/-- Texts with commas between them, and white space around each. -/
inductive Listed {α : Type} (P : α → Text → Prop) : List α → Text → Prop where
  | nil {w : Text} : IsSpace w → Listed P [] w
  | last {a : α} {l u r : Text} : IsSpace l → P a u → IsSpace r → Listed P [a] (l ++ (u ++ r))
  | cons {a b : α} {as : List α} {l u r t : Text} : IsSpace l → P a u → IsSpace r →
      Listed P (b :: as) t → Listed P (a :: b :: as) (l ++ (u ++ (r ++ ',' :: t)))

inductive Keyed (P : Value → Text → Prop) : Text × Value → Text → Prop where
  | mk {key k l r u : Text} {v : Value} : Spells key k → IsSpace l → IsSpace r → P v u →
      Keyed P (key, v) ('\x22' :: (k ++ '\x22' :: (l ++ ':' :: (r ++ u))))

inductive Written : Value → Text → Prop where
  | literal {v : Value} {t : Text} : (t, v) ∈ literals → Written v t
  | number {q : ℚ} {t : Text} : Number q t → Written (.number q) t
  | str {s t : Text} : Spells s t → Written (.str s) ('\x22' :: (t ++ ['\x22']))
  | arr {vs : List Value} {t : Text} : Listed Written vs t → Written (.arr vs) ('[' :: (t ++ [']']))
  | obj {fs : List (Text × Value)} {t : Text} : Listed (Keyed Written) fs t →
      Written (.obj fs) ('\x7b' :: (t ++ ['\x7d']))

/-- A document: a value with white space around it. -/
inductive Document : Value → Text → Prop where
  | mk {v : Value} {l u r : Text} : IsSpace l → Written v u → IsSpace r →
      Document v (l ++ (u ++ r))

end CircuitDocs.Json
