import VimL.Library.Containers

namespace VimL.Library

/-!
# Native functions on numbers
-/

open Run

def float2nr (r : Ref) : Run Ref := do newInt (← number r)

/-- A Float keeps its kind; anything else is read as a Number. -/
def abs (r : Ref) : Run Ref := do
  match ← value r with
  | .float x => new (.float x.abs)
  | v => newInt (← settle v.toNumber).natAbs

def numbersIn : List Ref → Run (List Int)
  | [] => pure []
  | r :: rest => do
    let n ← number r
    return n :: (← numbersIn rest)

/-- The items of a List or the values of a Dictionary, read as Numbers. -/
def numbersOf (r : Ref) : Run (List Int) := do
  match ← value r with
  | .list items => numbersIn items
  | .dictionary entries => numbersIn entries.values
  | _ => raise (.needsListOrDictionary "max")

/-- Nothing at all has zero as its greatest and least Number. -/
def greatest (r : Ref) : Run Ref := do newInt ((← numbersOf r).max?.getD 0)

def least (r : Ref) : Run Ref := do newInt ((← numbersOf r).min?.getD 0)

/-! ## Ranges -/

/-- How many steps from `first` stay on this side of `last`, the first one counted. -/
def stepCount (first last stride : Int) : Nat := ((last - first).fdiv stride + 1).toNat

def newInts (first stride : Int) : Nat → Run (List Ref)
  | 0 => pure []
  | count + 1 => do
    let r ← newInt first
    return r :: (← newInts (first + stride) stride count)

/-- The Numbers from the first to the last, in steps; or those below the only argument. A range
may be empty, but its ends may not be the wrong way round by more than one. -/
def range (start : Ref) (last stride : Option Ref) : Run Ref := do
  let step ← match stride with
    | some r => number r
    | none => pure 1
  if step = 0 then raise .zeroStride
  let (first, final) ← match last with
    | some r => do
      let a ← number start
      pure (a, ← number r)
    | none => do pure (0, (← number start) - 1)
  if (0 < step ∧ final < first - 1) ∨ (step < 0 ∧ first + 1 < final) then raise .startPastEnd
  new (.list (← newInts first step (stepCount first final step)))

end VimL.Library
