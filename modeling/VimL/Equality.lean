import VimL.Coercion
import VimL.Text.CaseMap

namespace VimL

/-!
# Equality and identity

Nested values are equal if their unfoldings cannot be told apart. A pair that was met before is
taken to be equal, so that cyclic containers can be compared. At the top of a comparison Numbers,
Strings and Floats are converted to each other first.
-/

abbrev Pairs := List (Ref × Ref)

/-- Texts are equal, but for case if that is ignored. -/
def equalTexts (ignoreCase : Bool) (a b : String) : Bool :=
  if ignoreCase then Text.lower a == Text.lower b else a == b

/-- Compare item by item, until two differ. -/
def equalPairwise (compare : Pairs → Ref → Ref → Option (Bool × Pairs)) (seen : Pairs) :
    List (Ref × Ref) → Option (Bool × Pairs)
  | [] => some (true, seen)
  | (a, b) :: rest =>
    match compare seen a b with
    | some (true, seen) => equalPairwise compare seen rest
    | ended => ended

/-- The values under the same keys, in the order of the first table, if the keys are the same. -/
def pairEntries (a b : Table Ref) : Option (List (Ref × Ref)) :=
  if a.size = b.size then a.entries.mapM fun (key, x) => (b.find? key).map fun y => (x, y)
  else none

namespace Value

/-- Values without parts are compared at once. -/
def equalScalars? (ignoreCase : Bool) : Value → Value → Option Bool
  | .number m, .number n => some (m == n)
  | .float x, .float y => some (x == y)
  | .string s, .string t => some (equalTexts ignoreCase s t)
  | .blob x, .blob y => some (x == y)
  | _, _ => none

/-- The parts that two containers have to agree on, unless they differ themselves. -/
def pairParts : Value → Value → Option (List (Ref × Ref))
  | .list xs, .list ys => if xs.length = ys.length then some (xs.zip ys) else none
  | .dictionary xs, .dictionary ys => pairEntries xs ys
  | .funcref f, .funcref g =>
    if f.name = g.name ∧ f.receiver = g.receiver ∧ f.arguments.length = g.arguments.length then
      some (f.arguments.zip g.arguments)
    else none
  | _, _ => none

end Value

namespace Heap

/-- The answer and the pairs that were met, unless the fuel is used up. Each round of recursion
adds a pair of containers, so fuel above the number of pairs of objects is enough. -/
def equalFrom (h : Heap) (ignoreCase : Bool) : Nat → Pairs → Ref → Ref → Option (Bool × Pairs)
  | 0, _, _, _ => none
  | fuel + 1, seen, a, b =>
    if (h.value a).kind ≠ (h.value b).kind then some (false, seen)
    else
      match (h.value a).equalScalars? ignoreCase (h.value b) with
      | some answer => some (answer, seen)
      | none =>
        if a = b ∨ (a, b) ∈ seen then some (true, seen)
        else
          match (h.value a).pairParts (h.value b) with
          | some pairs => equalPairwise (equalFrom h ignoreCase fuel) ((a, b) :: seen) pairs
          | none => some (false, (a, b) :: seen)

/-- Equality of nested values: no conversions, and kinds have to agree. -/
def equal (h : Heap) (ignoreCase : Bool) (a b : Ref) : Bool :=
  (h.equalFrom ignoreCase (h.size * h.size + 1) [] a b).any (·.1)

/-- Equality at the top of a comparison. -/
def equalConverted (h : Heap) (ignoreCase : Bool) (a b : Ref) : Except Stop Bool :=
  let x := h.value a
  let y := h.value b
  let differs (kind : Kind) : Bool := decide (x.kind = kind) != decide (y.kind = kind)
  if differs .list then .error (.ofCause (.incomparable .list))
  else if differs .dictionary then .error (.ofCause (.incomparable .dictionary))
  else if differs .blob then .error (.ofCause (.incomparable .blob))
  else if differs .funcref then .ok false
  else if x.kind = .float ∨ y.kind = .float then
    match x.toFloat, y.toFloat with
    | .ok p, .ok q => .ok (p == q)
    | .error stop, _ => .error stop
    | _, .error stop => .error stop
  else if x.kind = .number ∨ y.kind = .number then
    match x.toNumber, y.toNumber with
    | .ok m, .ok n => .ok (m == n)
    | .error stop, _ => .error stop
    | _, .error stop => .error stop
  else .ok (h.equal ignoreCase a b)

/-- Identity for containers, equality within one kind for all other values. -/
def same (h : Heap) (ignoreCase : Bool) (a b : Ref) : Bool :=
  match h.value a with
  | .list _ | .dictionary _ | .blob _ => a == b
  | _ => h.equal ignoreCase a b

end Heap

end VimL
