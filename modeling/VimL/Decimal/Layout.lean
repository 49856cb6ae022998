import VimL.Decimal.Digits

namespace VimL.Decimal

/-!
# Layout of decimal digits

A layout says which exponents are written positionally, how an exponent looks, and how the values
without digits are spelled.
-/

structure Layout where
  /-- Exponents from `least` up to, and not including, `below` are written positionally. -/
  least : Int
  below : Int
  /-- With an exponent, a single digit still gets a fraction. -/
  fractionBeforeExponent : Bool
  /-- Exponents have a sign and at least two digits. -/
  wideExponent : Bool
  nan : String
  infinity : String

namespace Layout

/-- A whole number is followed by a point and a zero. -/
def withFraction (whole fraction : List Char) : List Char :=
  if fraction.isEmpty then whole ++ ['.', '0'] else whole ++ '.' :: fraction

def positional (digits : List Char) (exponent : Int) : List Char :=
  if exponent < 0 then
    withFraction ['0'] (List.replicate (exponent.natAbs - 1) '0' ++ digits)
  else
    let whole := exponent.natAbs + 1
    withFraction (digits.take whole ++ List.replicate (whole - digits.length) '0')
      (digits.drop whole)

def exponentText (l : Layout) (exponent : Int) : List Char :=
  let digits := Nat.toDigits 10 exponent.natAbs
  if l.wideExponent then
    (if exponent < 0 then '-' else '+') :: (List.replicate (2 - digits.length) '0' ++ digits)
  else if exponent < 0 then '-' :: digits
  else digits

def scientific (l : Layout) (s : Scientific) : List Char :=
  let mantissa :=
    if s.digits.length ≤ 1 ∧ ¬ l.fractionBeforeExponent then s.digits
    else withFraction (s.digits.take 1) (s.digits.drop 1)
  mantissa ++ 'e' :: l.exponentText s.exponent

def unsigned (l : Layout) (s : Scientific) : List Char :=
  if l.least ≤ s.exponent ∧ s.exponent < l.below then positional s.digits s.exponent
  else l.scientific s

/-- The text of a Float whose digits are chosen by `digits`. -/
def render (l : Layout) (digits : Dyadic → Scientific) (x : Float) : String :=
  match Reading.ofFloat x with
  | .nan => l.nan
  | .infinite negative => if negative then "-" ++ l.infinity else l.infinity
  | .finite d =>
    let text := l.unsigned (digits d)
    String.ofList (if d.negative then '-' :: text else text)

end Layout

/-- Script output: six digits, positional for exponents from -4 to 5, and always a fraction. -/
def scriptLayout : Layout := ⟨-4, 6, true, false, "nan", "inf"⟩

/-- Data exchange: positional for exponents from -4 to 15, names as in JavaScript. -/
def exchangeLayout : Layout := ⟨-4, 16, false, true, "NaN", "Infinity"⟩

/-- Diagnostics lay digits out as data exchange does, with other names. -/
def diagnosticLayout : Layout := { exchangeLayout with nan := "nan", infinity := "inf" }

def scriptText (x : Float) : String := scriptLayout.render (Dyadic.significant 6) x

def exchangeText (x : Float) : String := exchangeLayout.render Dyadic.shortest x

def diagnosticText (x : Float) : String := diagnosticLayout.render Dyadic.shortest x

end VimL.Decimal
