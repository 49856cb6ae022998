import VimL.Decimal.Binary

namespace VimL.Decimal

/-!
# Decimal digits of a Float

Two ways to choose them: a fixed number of significant digits, and the fewest digits that are
still nearer to this Float than to any other.
-/

/-- The digits `d₁ d₂ … ` stand for `d₁.d₂… * 10 ^ exponent`. -/
structure Scientific where
  digits : List Char
  exponent : Int

/-- Digits of `coefficient * 10 ^ exponent` without zeros at the end. -/
def Scientific.ofCoefficient (coefficient : Nat) (exponent : Int) : Scientific :=
  let digits := Nat.toDigits 10 coefficient
  let kept := (digits.reverse.dropWhile (· == '0')).reverse
  if kept.isEmpty then ⟨['0'], 0⟩ else ⟨kept, exponent + digits.length - 1⟩

namespace Dyadic

/-- The power of ten of the first digit of a positive value: the digits of the integer part of
`10 ^ 400` times the value are counted. -/
def magnitude (d : Dyadic) : Int :=
  let (n, den) := scale d.significand 2 d.exponent
  ((Nat.toDigits 10 (n * Nat.pow 10 400 / den)).length : Int) - 401

/-- `n * 2 ^ exponent / 10 ^ power` as a fraction. -/
def onGrid (n : Nat) (exponent power : Int) : Nat × Nat :=
  let (a, b) := scale n 2 exponent
  let (c, e) := scale 1 10 power
  (a * e, b * c)

/-- The value rounded to `places` significant digits. -/
def significant (places : Nat) (d : Dyadic) : Scientific :=
  if d.significand = 0 then ⟨['0'], 0⟩ else
  let power := d.magnitude - places + 1
  let (n, den) := onGrid d.significand d.exponent power
  .ofCoefficient (roundHalfEven n den) power

/-- The multiple of `10 ^ power` that reads back as the value, if there is one: of the two next
to the value the nearer, and the even one when both are equally near. -/
def readsBack? (d : Dyadic) (power : Int) : Option Nat :=
  let m := d.significand
  let (a, b) := onGrid 1 (d.exponent - 2) power
  let low := if m = implicitBit ∧ d.exponent > -1074 then 4 * m - 1 else 4 * m - 2
  let high := 4 * m + 2
  let inside (c : Nat) : Bool :=
    if m % 2 = 0 then decide (low * a ≤ c * b) && decide (c * b ≤ high * a)
    else decide (low * a < c * b) && decide (c * b < high * a)
  let below := 4 * m * a / b
  let rest := 4 * m * a % b
  if rest = 0 then some below
  else if inside below then
    if inside (below + 1) ∧ (2 * rest > b ∨ (2 * rest = b ∧ below % 2 = 1)) then some (below + 1)
    else some below
  else if inside (below + 1) then some (below + 1)
  else none

/-- The first grid, from the coarsest, that holds a value that reads back. -/
def shortestFrom (d : Dyadic) (power : Int) : Nat → Scientific
  | 0 => ⟨['0'], 0⟩
  | fuel + 1 =>
    match d.readsBack? power with
    | some coefficient => .ofCoefficient coefficient power
    | none => shortestFrom d (power - 1) fuel

/-- The fewest digits that read back as the value; seventeen always do. -/
def shortest (d : Dyadic) : Scientific :=
  if d.significand = 0 then ⟨['0'], 0⟩ else d.shortestFrom d.magnitude 17

end Dyadic

end VimL.Decimal
