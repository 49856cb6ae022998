import VimL.Decimal.Binary
import VimL.Stop
import VimL.Value

namespace VimL

/-!
# Conversions between kinds

Numbers and Strings stand for each other, a Float stands for a Number but not for a String, and
containers and Funcrefs stand for neither.
-/

namespace Number

/-- The Number of a Float: rounded toward zero and wrapped, or the bound that is nearest. -/
def ofFloat (x : Float) : Int :=
  match Decimal.Reading.ofFloat x with
  | .nan => 0
  | .infinite negative => if negative then minimum else maximum
  | .finite d => wrap d.truncate

end Number

namespace Value

def toText : Value → Except Stop String
  | .number n => .ok (Number.toText n)
  | .string s => .ok s
  | v => .error (.ofCause (.notAString v.kind))

def toNumber : Value → Except Stop Int
  | .number n => .ok n
  | .float x => .ok (Number.ofFloat x)
  | .string s =>
    match Number.ofText? s with
    | some n => .ok n
    | none => .error (.internal .tooManyDigits)
  | v => .error (.ofCause (.notANumber v.kind))

def toFloat : Value → Except Stop Float
  | .float x => .ok x
  | v => v.toNumber.map Decimal.ofInt

/-- Zero is false, and so is a text that stands for zero. -/
def toBool : Value → Except Stop Bool
  | .float x => .ok (x != 0.0)
  | v => v.toNumber.map (· != 0)

/-- Positions in Lists and Blobs are read from the text of the index. -/
def toIndex (v : Value) : Except Stop Int :=
  match v.toText with
  | .error stop => .error stop
  | .ok text =>
    match Number.ofText? text with
    | some n => .ok n
    | none => .error (.internal .tooManyDigits)

end Value

end VimL
