/-!
Double-precision numbers, held as their sixty-four bits, and their exact comparison with
integers.

A number is compared through its exact value, a fraction or one of the three values that are no
fraction, so that no rounding takes part in a comparison.
-/

set_option autoImplicit false

namespace DBusMarshal

/-! ### Exact values -/

/-- The value of a number: a fraction, an infinity, or no value at all. -/
inductive Exact where
  | undefined
  | negativeInfinity
  | fraction (numerator : Int) (denominator : Nat)
  | positiveInfinity
deriving DecidableEq, Repr

namespace Exact

def ofInt (value : Int) : Exact := .fraction value 1

/-- Two values are equal; the undefined value equals nothing. -/
def equals : Exact → Exact → Bool
  | .fraction a b, .fraction c d => a * d = c * b
  | .negativeInfinity, .negativeInfinity => true
  | .positiveInfinity, .positiveInfinity => true
  | _, _ => false

/-- One value is less than another; the undefined value is neither less nor greater. -/
def less : Exact → Exact → Bool
  | .undefined, _ => false
  | _, .undefined => false
  | .fraction a b, .fraction c d => a * d < c * b
  | .negativeInfinity, .negativeInfinity => false
  | .negativeInfinity, _ => true
  | .fraction _ _, .positiveInfinity => true
  | _, _ => false

@[simp]
theorem equals_ofInt (left right : Int) :
    (ofInt left).equals (ofInt right) = decide (left = right) := by
  simp [ofInt, equals]

@[simp]
theorem less_ofInt (left right : Int) :
    (ofInt left).less (ofInt right) = decide (left < right) := by
  simp [ofInt, less]

end Exact

/-! ### Double-precision numbers -/

/-- A double-precision number: a sign bit, eleven exponent bits and fifty-two fraction bits. -/
structure Binary64 where
  bits : UInt64
deriving DecidableEq, Repr

namespace Binary64

/-- The weight of the sign bit, two to the power of sixty-three. -/
def signWeight : Nat := 0x8000000000000000

/-- The weight of the lowest exponent bit, two to the power of fifty-two. -/
def exponentWeight : Nat := 0x10000000000000

def isNegative (x : Binary64) : Bool := x.bits.toNat / signWeight = 1

def exponentBits (x : Binary64) : Nat := x.bits.toNat / exponentWeight % 2048

def fractionBits (x : Binary64) : Nat := x.bits.toNat % exponentWeight

/-- All exponent bits set and some fraction bit: no number. -/
def isNaN (x : Binary64) : Bool := x.exponentBits = 2047 && x.fractionBits ≠ 0

/-- All exponent bits set and no fraction bit: infinite. -/
def isInfinite (x : Binary64) : Bool := x.exponentBits = 2047 && x.fractionBits = 0

/-- The whole number that a power of two scales to the magnitude. -/
def mantissa (x : Binary64) : Nat :=
  if x.exponentBits = 0 then x.fractionBits else x.fractionBits + exponentWeight

def scale (x : Binary64) : Int := (max x.exponentBits 1 : Nat) - 1075

def exact (x : Binary64) : Exact :=
  if x.isNaN then .undefined
  else if x.isInfinite then if x.isNegative then .negativeInfinity else .positiveInfinity
  else
    let magnitude : Nat := x.mantissa * Nat.pow 2 x.scale.toNat
    .fraction (if x.isNegative then -magnitude else magnitude) (Nat.pow 2 (-x.scale).toNat)

/-- The sum with one, rounded to the nearest number; what is no number stays so, marked quiet. -/
def increment (x : Binary64) : Binary64 :=
  if x.isNaN then ⟨x.bits ||| 0x0008000000000000⟩ else ⟨(Float.ofBits x.bits + 1.0).toBits⟩

end Binary64

end DBusMarshal
