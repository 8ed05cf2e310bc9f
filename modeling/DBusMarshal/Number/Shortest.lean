import DBusMarshal.Number.Binary64

/-!
The shortest decimal text of a double-precision number.

The digits are the fewest that read back as the same number; of the decimals with that many digits
the nearest one is taken, and on a tie the one with an even last digit. Every test is done in whole
numbers. `Binary64.text` writes the digits out, positionally when the first digit stands between the
fourth place after the point and the sixteenth before it.
-/

set_option autoImplicit false

namespace DBusMarshal

/-- A whole number scaled by a power of ten. -/
structure Decimal where
  digits : Nat
  exponent : Int
deriving DecidableEq, Repr

/-! ### Fractions and the decimals near them -/

/-- A positive fraction with the interval around it that rounds to one number, over a common
denominator. -/
structure RoundingInterval where
  low : Nat
  value : Nat
  high : Nat
  denominator : Nat
  /-- The ends of the interval belong to it. -/
  closed : Bool

namespace RoundingInterval

/-- The power of ten of the first digit of the value. -/
def leadingExponent (r : RoundingInterval) : Int :=
  if r.denominator ≤ r.value then
    ((Nat.toDigits 10 (r.value / r.denominator)).length : Int) - 1
  else -((Nat.toDigits 10 ((r.denominator - 1) / r.value)).length : Int)

/-- The interval measured in units of a power of ten. -/
def inUnits (r : RoundingInterval) (exponent : Int) : RoundingInterval :=
  let up := Nat.pow 10 (-exponent).toNat
  { r with
    low := r.low * up
    value := r.value * up
    high := r.high * up
    denominator := r.denominator * Nat.pow 10 exponent.toNat }

/-- A whole number of units lies in the interval. -/
def holds (r : RoundingInterval) (units : Nat) : Bool :=
  let point := units * r.denominator
  (r.low < point && point < r.high) || (r.closed && (point = r.low || point = r.high))

/-- Of the two whole numbers next to the value, the nearer one that lies in the interval; an even
one on a tie. -/
def nearest (r : RoundingInterval) : Option Nat :=
  let below := r.value / r.denominator
  let excess := 2 * (r.value % r.denominator)
  match r.holds below, r.holds (below + 1) with
  | false, false => none
  | true, false => some below
  | false, true => some (below + 1)
  | true, true =>
    if excess < r.denominator || (excess = r.denominator && below % 2 = 0) then some below
    else some (below + 1)

/-- The decimal with the fewest digits in the interval, tried from `digits` upward. -/
def shortest (r : RoundingInterval) : (tries : Nat) → (digits : Nat) → Decimal
  | 0, digits =>
    let exponent := r.leadingExponent - digits + 1
    let units := r.inUnits exponent
    ⟨units.value / units.denominator, exponent⟩
  | tries + 1, digits =>
    let exponent := r.leadingExponent - digits + 1
    match (r.inUnits exponent).nearest with
    | some units => ⟨units, exponent⟩
    | none => shortest r tries (digits + 1)

end RoundingInterval

namespace Binary64

/-- The interval that rounds to the magnitude of a finite number other than zero. Its lower half is
half as wide where the next smaller number has the next smaller exponent. -/
def roundingInterval (x : Binary64) : RoundingInterval :=
  let narrow := x.fractionBits = 0 ∧ 1 < x.exponentBits
  let up := Nat.pow 2 (x.scale - 2).toNat
  { low := (4 * x.mantissa - if narrow then 1 else 2) * up
    value := 4 * x.mantissa * up
    high := (4 * x.mantissa + 2) * up
    denominator := Nat.pow 2 (2 - x.scale).toNat
    closed := x.mantissa % 2 = 0 }

/-- The shortest decimal of the magnitude of a finite number; seventeen digits always suffice. -/
def shortest (x : Binary64) : Decimal :=
  if x.mantissa = 0 then ⟨0, 0⟩ else x.roundingInterval.shortest 17 1

end Binary64

/-! ### Writing the digits out -/

def zeros (count : Nat) : String := .ofList (List.replicate count '0')

/-- A decimal exponent with its sign and at least two digits. -/
def exponentText (exponent : Int) : String :=
  let digits := toString exponent.natAbs
  (if exponent < 0 then "e-" else "e+") ++ (if digits.length < 2 then "0" else "") ++ digits

/-- A decimal written out: positionally when the point stands at most three places before the
digits and at most sixteen places after the first one, and with an exponent otherwise. -/
def Decimal.text (d : Decimal) : String :=
  let written := (toString d.digits).toList
  let point := written.length + d.exponent
  let significant := if d.digits = 0 then ['0'] else (written.reverse.dropWhile (· = '0')).reverse
  let count := significant.length
  if point ≤ -4 ∨ 16 < point then
    let fraction := significant.drop 1
    .ofList (significant.take 1) ++ (if fraction = [] then "" else "." ++ .ofList fraction)
      ++ exponentText (point - 1)
  else if point ≤ 0 then "0." ++ zeros (-point).toNat ++ .ofList significant
  else if count ≤ point.toNat then .ofList significant ++ zeros (point.toNat - count) ++ ".0"
  else .ofList (significant.take point.toNat) ++ "." ++ .ofList (significant.drop point.toNat)

/-- The text of a number: the shortest digits that read back, or the name of a value without
digits. -/
def Binary64.text (x : Binary64) : String :=
  if x.isNaN then "nan"
  else
    (if x.isNegative then "-" else "") ++ if x.isInfinite then "inf" else x.shortest.text

/-! ### Examples -/

example : (⟨0x3fb999999999999a⟩ : Binary64).text = "0.1" := by decide +kernel

example : (⟨1⟩ : Binary64).shortest = ⟨5, -324⟩ := by decide +kernel

example : (Decimal.text ⟨1, -4⟩, Decimal.text ⟨1, -5⟩) = ("0.0001", "1e-05") := by decide +kernel

example : (Decimal.text ⟨1, 15⟩, Decimal.text ⟨1, 16⟩) = ("1000000000000000.0", "1e+16") := by
  decide +kernel

end DBusMarshal
