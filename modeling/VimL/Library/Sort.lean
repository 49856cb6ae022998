import VimL.Interp
import VimL.Library.Containers
import VimL.Render

namespace VimL.Library

/-!
# Sorting

Items are sorted by a key or by a function that compares two of them. Equal items keep their
order. Keys are taken while the List is empty, so that a List inside itself shows no items.
-/

open Run

/-! ## Keys -/

/-- The values of a key for all items, with the items. -/
def withKeys {α : Type} (key : Ref → Except Stop α) : List Ref → Except Stop (List (α × Ref))
  | [] => .ok []
  | r :: rest =>
    match key r with
    | .error stop => .error stop
    | .ok k =>
      match withKeys key rest with
      | .error stop => .error stop
      | .ok keyed => .ok ((k, r) :: keyed)

/-- Sort by keys, given which of two comes first. -/
def sortKeyed {α : Type} (less : α → α → Bool) (keyed : List (α × Ref)) : List Ref :=
  (keyed.mergeSort fun a b => !less b.1 a.1).map (·.2)

/-! ### Insertion

Where some keys have no place in the order, the result hangs on which of them are compared. The
first run, turned round if it descends, is sorted; each further item is put in by bisection. -/

/-- The length of the run that goes on from `previous`. -/
def runLength {α : Type} (goesOn : α → α → Bool) (previous : α) : List α → Nat
  | [] => 0
  | x :: rest => if goesOn previous x then runLength goesOn x rest + 1 else 0

/-- The first run and the rest. -/
def firstRun {α : Type} (less : α → α → Bool) (items : List α) : List α × List α :=
  match items with
  | x :: y :: rest =>
    let descends := less y x
    let goesOn (a b : α) : Bool := less b a == descends
    let length := runLength goesOn y rest + 2
    let run := items.take length
    (if descends then run.reverse else run, items.drop length)
  | short => (short, [])

/-- The place for an item between `low` and `high`, after those that it is not less than. -/
def bisect {α : Type} (less : α → α → Bool) (sorted : Array α) (x : α) :
    Nat → Nat → Nat → Nat
  | 0, low, _ => low
  | fuel + 1, low, high =>
    if low < high then
      let middle := (low + high) / 2
      match sorted[middle]? with
      | some y =>
        if less x y then bisect less sorted x fuel low middle
        else bisect less sorted x fuel (middle + 1) high
      | none => low
    else low

def insertionSort {α : Type} (less : α → α → Bool) (items : List α) : List α :=
  let (run, rest) := firstRun less items
  rest.foldl (fun sorted x =>
    insertAt sorted (bisect less sorted.toArray x (sorted.length + 1) 0 sorted.length) [x]) run

/-- Floats are ordered unless one of them is no number. -/
def sortFloats (keyed : List (Float × Ref)) : List Ref :=
  let less (a b : Float) : Bool := decide (a < b)
  if keyed.any (·.1.isNaN) then (insertionSort (fun a b => less a.1 b.1) keyed).map (·.2)
  else sortKeyed less keyed

/-! ## Comparisons -/

/-- Merge two sorted rows. An item of the second comes first only if it has to. -/
def mergeBy (before : Ref → Ref → Run Bool) : List Ref → List Ref → Run (List Ref)
  | [], rs => pure rs
  | ls, [] => pure ls
  | l :: ls, r :: rs => do
    if ← before r l then return r :: (← mergeBy before (l :: ls) rs)
    else return l :: (← mergeBy before ls (r :: rs))

/-- Sort both halves and merge them. Fuel of the length is enough. -/
def sortBy (before : Ref → Ref → Run Bool) : Nat → List Ref → Run (List Ref)
  | 0, items => pure items
  | fuel + 1, items =>
    if items.length ≤ 1 then pure items
    else do
      let middle := items.length / 2
      let left ← sortBy before fuel (items.take middle)
      let right ← sortBy before fuel (items.drop middle)
      mergeBy before left right

/-- One item comes before another if the function gives a negative Number for them. -/
def comesBefore (env : NativeEnv) (f : Funcref) (a b : Ref) : Run Bool := do
  return (← number (← callFuncref env.call f [a, b] none)) < 0

/-- The items that are left when those of the other row are taken out, each one once. -/
def without (items others : List Ref) : List Ref := others.foldl List.erase items

/-- The function may have taken items out of the List, which come back into it. -/
def sortByFunction (env : NativeEnv) (list : Ref) (items : List Ref) (f : Funcref) :
    Run Ref := do
  let sorted ← sortBy (comesBefore env f) items.length items
  handOn (without sorted (← value list).parts)
  setValue list (.list sorted)
  return list

/-! ## The function -/

/-- How a List is sorted without a function. -/
inductive SortKey where
  | text (ignoreCase : Bool)
  /-- Numbers by value, after everything else. -/
  | numbersLast
  | number
  | float

/-- Sort by a key. -/
def sortItems (heap : Heap) (depth : Nat) (key : SortKey) (items : List Ref) :
    Except Stop (List Ref) :=
  match key with
  | .text ignoreCase =>
    let keyOf (r : Ref) : Except Stop String :=
      let s := heap.plainText depth r
      .ok (if ignoreCase then Text.lower s else s)
    (withKeys keyOf items).map (sortKeyed fun s t => decide (s < t))
  | .numbersLast =>
    let keyOf (r : Ref) : Except Stop (Option Int) :=
      match heap.value r with
      | .number n => .ok (some n)
      | _ => .ok none
    let less : Option Int → Option Int → Bool
      | none, some _ => true
      | some m, some n => decide (m < n)
      | _, none => false
    (withKeys keyOf items).map (sortKeyed less)
  | .number =>
    (withKeys (fun r => (heap.value r).toNumber) items).map
      (sortKeyed fun m n => decide (m < n))
  | .float => (withKeys (fun r => (heap.value r).toFloat) items).map sortFloats

def sortByKey (list : Ref) (items : List Ref) (key : SortKey) : Run Ref := do
  let e ← MonadState.get
  let emptied := e.heap.setValue list (.list [])
  setValue list (.list (← settle (sortItems emptied e.config.renderDepth key items)))
  return list

/-- The key that the second argument asks for, unless it is a function or its name. -/
def sortKeyOf? : Value → Option SortKey
  | .string "" | .string "0" | .number 0 => some (.text false)
  | .string "i" | .string "1" | .number 1 => some (.text true)
  | .string "n" => some .numbersLast
  | .string "N" => some .number
  | .string "f" => some .float
  | _ => none

def sort (env : NativeEnv) (list : Ref) (how : Option Ref) : Run Ref := do
  match ← value list with
  | .list items =>
    checkArgument list "sort"
    match how with
    | none => sortByKey list items (.text false)
    | some how =>
      match ← value how with
      | .funcref f => sortByFunction env list items f
      | v =>
        match sortKeyOf? v with
        | some key => sortByKey list items key
        | none =>
          let h ← env.handler none (← settle v.toText)
          sortByFunction env list items (.ofHandler h)
  | _ => raise .sortNeedsList

end VimL.Library
