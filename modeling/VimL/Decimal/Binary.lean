namespace VimL.Decimal

/-!
# Binary floating point as exact fractions

A finite Float is a sign and an integer times a power of two. The conversions here work on that
form, so that every rounding is the rounding of an exact fraction.
-/

/-- The value `significand * 2 ^ exponent`, negated if `negative`. -/
structure Dyadic where
  negative : Bool
  significand : Nat
  exponent : Int

inductive Reading where
  | nan
  | infinite (negative : Bool)
  | finite (value : Dyadic)

def implicitBit : Nat := 4503599627370496

def Reading.ofFloat (x : Float) : Reading :=
  let bits := x.toBits.toNat
  let negative := decide (9223372036854775808 ≤ bits)
  let fraction := bits % implicitBit
  let field := bits / implicitBit % 2048
  if field = 2047 then if fraction = 0 then .infinite negative else .nan
  else if field = 0 then .finite ⟨negative, fraction, -1074⟩
  else .finite ⟨negative, implicitBit + fraction, (field : Int) - 1075⟩

/-- A natural number times an integer power of a base, as a fraction. -/
def scale (n : Nat) (base : Nat) (exponent : Int) : Nat × Nat :=
  if exponent < 0 then (n, Nat.pow base exponent.natAbs) else (n * Nat.pow base exponent.natAbs, 1)

namespace Dyadic

/-- The integer part. -/
def truncate (d : Dyadic) : Int :=
  let (n, den) := scale d.significand 2 d.exponent
  let magnitude : Int := (n / den : Nat)
  if d.negative then -magnitude else magnitude

end Dyadic

/-- The integer nearest to a fraction; a half goes to the even neighbour. -/
def roundHalfEven (n den : Nat) : Nat :=
  let q := n / den
  let r := n % den
  if 2 * r > den ∨ (2 * r = den ∧ q % 2 = 1) then q + 1 else q

/-- The bits of the Float nearest to a positive fraction. -/
def nearestBits (n den : Nat) : Nat :=
  if n = 0 then 0 else
  let estimate : Int := (n.log2 : Int) - den.log2 - 53
  let quotient (q : Int) : Nat × Nat :=
    if q < 0 then (n * Nat.pow 2 q.natAbs, den) else (n, den * Nat.pow 2 q.natAbs)
  let (a, b) := quotient estimate
  let exponent := max (if a / b ≥ 2 * implicitBit then estimate + 1 else estimate) (-1074)
  let (a, b) := quotient exponent
  let bits := (exponent + 1074).toNat * implicitBit + roundHalfEven a b
  min bits 9218868437227405312

/-- The Float nearest to a fraction. -/
def nearest (negative : Bool) (n den : Nat) : Float :=
  let bits := nearestBits n den
  Float.ofBits (UInt64.ofNat (if negative then bits + 9223372036854775808 else bits))

/-- The Float nearest to an integer. -/
def ofInt (n : Int) : Float := nearest (n < 0) n.natAbs 1

/-- The Float nearest to `coefficient * 10 ^ exponent`. Exponents far outside the range of Floats
are cut to ones that give the same infinity or zero. -/
def ofDecimal (negative : Bool) (coefficient : Nat) (exponent : Int) : Float :=
  let digits : Int := (Nat.toDigits 10 coefficient).length
  let (n, den) := scale coefficient 10 (min (max exponent (-400 - digits)) 400)
  nearest negative n den

end VimL.Decimal
