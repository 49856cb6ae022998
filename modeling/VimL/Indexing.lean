import VimL.Functions

namespace VimL

/-!
# Elements and ranges as values

Negative positions count from the end. An element has to exist, a range is cut to what exists.
-/

/-- The place of an element, counted from the front. -/
def position? (size : Nat) (n : Int) : Option Nat :=
  let i := if n < 0 then n + size else n
  if 0 ≤ i ∧ i < size then some i.toNat else none

/-- The elements from `first` to `last`, both included, that exist. The bounds are those of a
sequence of `size` elements. -/
def rangeOf {α : Type} (size : Nat) (items : List α) (first last : Int) : List α :=
  let start := if first < 0 then max (first + size) 0 else first
  let stop := min (if last < 0 then last + size else last) (size - 1)
  if start ≤ stop then (items.drop start.toNat).take (stop - start + 1).toNat else []

namespace Engine

/-- The function needs a receiver. -/
def isDictFunction (e : Engine) (f : Funcref) : Bool :=
  match f.handler with
  | .defined id _ => (e.function? id).any (·.definition.dict)
  | _ => false

end Engine

namespace Run

/-- A function that needs a receiver, and was not given a fixed one, is bound to the Dictionary
that it is an entry of. -/
def bindTo (dictionary entry : Ref) : Run Ref := do
  match ← value entry with
  | .funcref f =>
    if !f.fixed && f.receiver != some dictionary && (← get).isDictFunction f then
      newSharing (.funcref { f with receiver := some dictionary })
    else return entry
  | _ => return entry

/-- One element of a value. -/
def element (container key : Ref) : Run Ref := do
  match ← value container with
  | .list items =>
    let n ← index key
    match (position? items.length n).bind (items[·]?) with
    | some r => return r
    | none => raise (.listIndex n)
  | .dictionary entries =>
    let k ← text key
    match entries.find? k with
    | some r => bindTo container r
    | none => raise (.missingKey k)
  | .blob bytes =>
    let n ← index key
    match (position? bytes.length n).bind (bytes[·]?) with
    | some b => newInt b.toNat
    | none => raise (.blobIndex n)
  | .float _ => raise (.notAString .float)
  | .funcref _ => raise .cannotIndexFuncref
  | v =>
    let s ← settle v.toText
    let n ← index key
    if n < 0 then newText ""
    else newText (String.ofList (s.toList[n.toNat]?).toList)

/-- The number of elements that can be sliced. A Dictionary and a Funcref have none; any value
that is no sequence is sliced as its text. -/
def sliceableSize (container : Ref) : Run Nat := do
  match ← value container with
  | .dictionary _ => raise .cannotSliceDictionary
  | .funcref _ => raise .cannotIndexFuncref
  | .list items => return items.length
  | .blob bytes => return bytes.length
  | v => return (← settle v.toText).length

/-- A new value with the elements of a range. The items of a List are not copied. -/
def newRange (container : Ref) (size : Nat) (first last : Int) : Run Ref := do
  match ← value container with
  | .list items => newSharing (.list (rangeOf size items first last))
  | .blob bytes => new (.blob (rangeOf size bytes first last))
  | v => newText (String.ofList (rangeOf size (← settle v.toText).toList first last))

end Run

end VimL
