import VimL.Equality
import VimL.Pattern.Matcher
import VimL.Surroundings

namespace VimL

/-!
# Operators

Operators on values. A Float on either side makes arithmetic floating; otherwise both sides are
read as Numbers.
-/

namespace Number

def apply (op : Arithmetic) (a b : Int) : Int :=
  match op with
  | .add => wrap (a + b)
  | .subtract => wrap (a - b)
  | .multiply => wrap (a * b)
  | .divide => divide a b
  | .modulo => modulo a b

end Number

def isNegativeFloat (x : Float) : Bool := decide (9223372036854775808 ≤ x.toBits.toNat)

/-- Division by zero gives an infinity with the sign of both operands, or no number. -/
def divideFloats (a b : Float) : Float :=
  if b == 0.0 then
    if a == 0.0 || a.isNaN then 0.0 / 0.0
    else if isNegativeFloat a != isNegativeFloat b then -1.0 / 0.0
    else 1.0 / 0.0
  else a / b

/-- There is no remainder of Floats. -/
def applyFloats? (op : Arithmetic) (a b : Float) : Option Float :=
  match op with
  | .add => some (a + b)
  | .subtract => some (a - b)
  | .multiply => some (a * b)
  | .divide => some (divideFloats a b)
  | .modulo => none

/-- A comparison of size, once the two sides are compared. -/
def Comparison.holds (op : Comparison) (less equal greater : Bool) : Bool :=
  match op with
  | .less => less
  | .lessEqual => less || equal
  | .greater => greater
  | .greaterEqual => greater || equal
  | _ => false

namespace Value

/-- Kinds that have no order. -/
def checkOrdered (v : Value) : Except Stop Unit :=
  match v with
  | .list _ | .dictionary _ | .funcref _ | .blob _ => .error (.ofCause (.unordered v.kind))
  | _ => .ok ()

/-- Texts are ordered by code points; other scalars by value. -/
def ordered (op : Comparison) (ignoreCase : Bool) (x y : Value) : Except Stop Bool := do
  x.checkOrdered
  y.checkOrdered
  match x, y with
  | .string s, .string t =>
    let s := if ignoreCase then Text.lower s else s
    let t := if ignoreCase then Text.lower t else t
    return op.holds (decide (s < t)) (s == t) (decide (t < s))
  | _, _ =>
    if x.kind = .float ∨ y.kind = .float then
      let a ← x.toFloat
      let b ← y.toFloat
      return op.holds (decide (a < b)) (a == b) (decide (b < a))
    else
      let a ← x.toNumber
      let b ← y.toNumber
      return op.holds (decide (a < b)) (a == b) (decide (b < a))

end Value

namespace Run

/-- Read a pattern for a search in script text. -/
def pattern (ignoreCase : Bool) (text : String) : Run Pattern :=
  match Pattern.ofMagic ignoreCase text with
  | .ok p => pure p
  | .error .malformed => raise (.badPattern text)
  | .error .boundTooLarge => internal (.boundTooLarge text)

def occurs (ignoreCase : Bool) (wanted subject : String) : Run Bool := do
  return (← pattern ignoreCase wanted).occursIn subject

def arithmetic (op : Arithmetic) (left right : Ref) : Run Ref := do
  let x ← value left
  let y ← value right
  match op, x, y with
  | .add, .list xs, .list ys => newSharing (.list (xs ++ ys))
  | .add, .blob xs, .blob ys => new (.blob (xs ++ ys))
  | _, _, _ =>
    if x.kind = .float ∨ y.kind = .float then
      if op = .modulo then raise .moduloOfFloat
      let a ← settle x.toFloat
      let b ← settle y.toFloat
      new (.float ((applyFloats? op a b).getD 0.0))
    else
      let a ← settle x.toNumber
      let b ← settle y.toNumber
      new (.number (Number.apply op a b))

def concat (left right : Ref) : Run Ref := do
  let s ← text left
  let t ← text right
  newText (s ++ t)

def compare (op : Comparison) (ignoreCase : Bool) (left right : Ref) : Run Bool := do
  match op with
  | .equal => settle ((← get).heap.equalConverted ignoreCase left right)
  | .unequal => return !(← settle ((← get).heap.equalConverted ignoreCase left right))
  | .same => return (← get).heap.same ignoreCase left right
  | .notSame => return !(← get).heap.same ignoreCase left right
  | .matching =>
    let wanted ← text right
    occurs ignoreCase wanted (← text left)
  | .notMatching =>
    let wanted ← text right
    return !(← occurs ignoreCase wanted (← text left))
  | _ =>
    let x ← value left
    settle (x.ordered op ignoreCase (← value right))

/-- Identity takes case into account unless it is marked otherwise; the other comparisons ask the
option. -/
def caseFor (op : Comparison) (mark : Option Bool) : Run Bool :=
  match mark with
  | some ignoreCase => pure ignoreCase
  | none => if op = .same ∨ op = .notSame then pure false else ignoresCase

/-- Operators that evaluate both sides. -/
def binary (op : BinaryOperator) (left right : Ref) : Run Ref := do
  match op with
  | .arithmetic op => arithmetic op left right
  | .concat _ => concat left right
  | .compare op mark =>
    let ignoreCase ← caseFor op mark
    newBool (← compare op ignoreCase left right)
  | .and | .or | .unknown _ => internal (.unknownOperator op.text)

def unary (op : UnaryOperator) (operand : Ref) : Run Ref := do
  match op with
  | .not => newBool (!(← bool operand))
  | .negate =>
    match ← value operand with
    | .float x => new (.float (-x))
    | v => newInt (-(← settle v.toNumber))
  | .plus =>
    match ← value operand with
    | .float _ => return operand
    | v => newInt (← settle v.toNumber)
  | .unknown text => internal (.unknownOperator text)

end Run

end VimL
