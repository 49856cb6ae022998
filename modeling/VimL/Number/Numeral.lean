import VimL.Number.Basic
import VimL.Text.Digit

namespace VimL

/-!
# Numerals at the start of a text

A String stands for the Number whose numeral begins it, and for zero if there is none. A numeral
is a sign, if any, and hexadecimal digits after `0x`, binary digits after `0b`, or decimal digits;
decimal digits after a zero are read as octal when none of them is above seven.
-/

/-- A sign and the digits of one base. -/
structure Numeral where
  negative : Bool
  base : Nat
  digits : List Nat

namespace Numeral

open Text

def value (n : Numeral) : Int :=
  let magnitude : Int := ofDigits n.base n.digits
  if n.negative then -magnitude else magnitude

/-- Decimal digits are refused beyond this length; the other bases have no limit. -/
def maxDecimalDigits : Nat := 4300

def Readable (n : Numeral) : Prop := n.base = 10 → n.digits.length ≤ maxDecimalDigits

instance (n : Numeral) : Decidable n.Readable := by unfold Readable; infer_instance

/-- The value, unless the numeral has too many digits to be read. -/
def read? (n : Numeral) : Option Int := if n.Readable then some n.value else none

/-- The values of the characters at the start that are digits. -/
def digitsWhile (value? : Char → Option Nat) : List Char → List Nat
  | [] => []
  | c :: rest =>
    match value? c with
    | some d => d :: digitsWhile value? rest
    | none => []

def octalValue? (c : Char) : Option Nat :=
  if '0' ≤ c ∧ c ≤ '7' then some (c.toNat - '0'.toNat) else none

def binaryValue? (c : Char) : Option Nat :=
  if c = '0' then some 0 else if c = '1' then some 1 else none

/-- The base and the digits of an unsigned numeral. -/
def scanUnsigned (text : List Char) : Option (Nat × List Nat) :=
  match text with
  | '0' :: 'x' :: rest | '0' :: 'X' :: rest => prefixed 16 (digitsWhile hexValue? rest)
  | '0' :: 'b' :: rest | '0' :: 'B' :: rest => prefixed 2 (digitsWhile binaryValue? rest)
  | _ => decimal (digitsWhile digitValue? text)
where
  /-- Without a digit after it, the letter is no part of the numeral. -/
  prefixed (base : Nat) (digits : List Nat) : Option (Nat × List Nat) :=
    if digits.isEmpty then some (10, [0]) else some (base, digits)
  decimal (digits : List Nat) : Option (Nat × List Nat) :=
    if digits.isEmpty then none
    else if octal (text.take digits.length) then some (8, digits)
    else some (10, digits)
  octal : List Char → Bool
    | '0' :: rest => !rest.isEmpty && rest.all fun c => (octalValue? c).isSome
    | _ => false

def scan (text : List Char) : Option Numeral :=
  match text with
  | '-' :: rest => (scanUnsigned rest).map fun (base, digits) => ⟨true, base, digits⟩
  | '+' :: rest => (scanUnsigned rest).map fun (base, digits) => ⟨false, base, digits⟩
  | _ => (scanUnsigned text).map fun (base, digits) => ⟨false, base, digits⟩

end Numeral

namespace Number

/-- The Number that a text stands for, unless its numeral is too long to be read. -/
def ofText? (text : String) : Option Int :=
  match Numeral.scan text.toList with
  | none => some 0
  | some numeral => numeral.read?.map wrap

/-- The decimal text of a Number. -/
def toText (n : Int) : String :=
  if n < 0 then String.ofList ('-' :: (Nat.toDigits 10 n.natAbs))
  else String.ofList (Nat.toDigits 10 n.natAbs)

end Number

end VimL
