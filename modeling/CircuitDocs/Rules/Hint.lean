import CircuitDocs.Text.Basic

/-! # Hints for misnamed parameters

A documented name that no parameter has may be a misspelling of a parameter that is not documented.
The most similar one is offered as a hint, if it is similar enough.
-/

namespace CircuitDocs

/-! ## Rounding to 53 bits

Ratios and thresholds are numbers with 53 significant bits and no bit below `2 ^ (-1074)`. They are
kept as exact rationals, and a rational is brought to this form by rounding to the nearest such
number, halves to the even neighbour.
-/

namespace Nearest

/-- The whole number nearest to `num / den`, halves to the even neighbour. -/
def roundDiv (num den : Nat) : Nat :=
  let q := num / den
  let r := num % den
  if 2 * r < den then q
  else if den < 2 * r then q + 1
  else if q % 2 = 0 then q else q + 1

/-- The binary magnitude of `num / den`: the greatest `k` with `2 ^ k ≤ num / den`. -/
def magnitude (num den : Nat) : Int :=
  let k : Int := (num.log2 : Int) - den.log2
  if den <<< k.toNat ≤ num <<< (-k).toNat then k else k - 1

/-- The exponent of the last bit that `num / den` may have. -/
def lastBit (num den : Nat) : Int := max (magnitude num den - 52) (-1074)

def round (x : Rat) : Rat :=
  if x = 0 then 0
  else
    let e := lastBit x.num.natAbs x.den
    let m := roundDiv (x.num.natAbs <<< (-e).toNat) (x.den <<< e.toNat)
    mkRat (x.num.sign * (m <<< e.toNat : Nat)) (1 <<< (-e).toNat)

end Nearest

/-! ## Similarity of names

Two names are as similar as the share of characters that lie in a longest common subsequence.
The lengths of longest common subsequences are tabulated row by row.
-/

namespace Similarity

/-- From the row for `a`, the row for `x :: a`. A row has one number for `b` and for each text left
of `b` when characters are dropped at its front. -/
def extend (x : Char) : Text → List Nat → List Nat
  | y :: b, p :: row =>
    let next := extend x b row
    (if x = y then row.headD 0 + 1 else max p (next.headD 0)) :: next
  | _, _ => [0]

/-- The lengths of longest common subsequences of `a` with `b` and with each text left of `b`. -/
def row : Text → Text → List Nat
  | [], b => List.replicate (b.length + 1) 0
  | x :: a, b => extend x b (row a b)

def common (a b : Text) : Nat := (row a b).headD 0

/-- The similarity of two texts, between zero and one: what is left of one after the share of
characters outside a longest common subsequence. Both the share and the result are rounded. -/
def ratio (a b : Text) : Rat :=
  let n := a.length + b.length
  if n = 0 then 1
  else Nearest.round (1 - Nearest.round (mkRat (n - 2 * common a b : Nat) n))

end Similarity

/-! ## Thresholds -/

/-- When a name is offered as a hint: from a similarity on, or never. -/
inductive Threshold where
  | reach (value : Rat) (nonneg : 0 ≤ value) (le_one : value ≤ 1)
  | never

namespace Threshold

inductive Error where
  | outOfRange
deriving DecidableEq, Repr

def Error.message : Error → Text
  | .outOfRange => "suggestion_threshold must be between 0.0 and 1.0.".toList

/-- The threshold of a number, rounded to 53 bits first. -/
def ofRat (x : Rat) : Except Error Threshold :=
  if h : 0 ≤ Nearest.round x ∧ Nearest.round x ≤ 1 then .ok (.reach (Nearest.round x) h.1 h.2)
  else .error .outOfRange

def usual : Threshold :=
  .reach (3602879701896397 / 4503599627370496) (by decide +kernel) (by decide +kernel)

def metBy : Threshold → Rat → Bool
  | reach value _ _, s => value ≤ s
  | never, _ => false

end Threshold

namespace Hint

/-- The best of a name so far and the candidates still to come. A candidate has to reach the
threshold and to be strictly more similar than the best so far. -/
def bestFrom (threshold : Threshold) (name : Text) : Option Text → Rat → List Text → Option Text
  | best, _, [] => best
  | best, r, candidate :: rest =>
    let s := Similarity.ratio name candidate
    if threshold.metBy s ∧ r < s then bestFrom threshold name (some candidate) s rest
    else bestFrom threshold name best r rest

/-- The first of the most similar candidates that reach the threshold. -/
def best? (threshold : Threshold) (name : Text) (candidates : List Text) : Option Text :=
  bestFrom threshold name none 0 candidates

end Hint

end CircuitDocs
