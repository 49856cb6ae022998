import VimL.Library.Containers

namespace VimL.Library

/-!
# Native functions that look for values
-/

open Run

def flag (r : Option Ref) : Run Bool :=
  match r with
  | some r => bool r
  | none => pure false

/-- Occurrences that do not overlap, found from the left; `skip` characters belong to the last. -/
def countText (needle : List Char) (skip : Nat) : List Char → Nat
  | [] => 0
  | c :: rest =>
    if skip > 0 then countText needle (skip - 1) rest
    else if needle.isPrefixOf (c :: rest) then countText needle (needle.length - 1) rest + 1
    else countText needle 0 rest

def count (container wanted : Ref) (ignoreCase start : Option Ref) : Run Ref := do
  let ignoreCase ← flag ignoreCase
  let countEqual (items : List Ref) : Run Ref := do
    let heap := (← MonadState.get).heap
    newInt (items.filter fun r => heap.equal ignoreCase r wanted).length
  match ← value container with
  | .string s =>
    let t ← text wanted
    let s := if ignoreCase then Text.lower s else s
    let t := if ignoreCase then Text.lower t else t
    newInt (if t.isEmpty then 0 else countText t.toList 0 s.toList)
  | .list items =>
    match start with
    | none => countEqual items
    | some r => countEqual (items.drop (← listPosition (← number r) items.length false))
  | .dictionary entries => countEqual entries.values
  | _ => raise (.needsListOrDictionary "count")

/-- The position of the first element that fits, or -1. -/
def firstPosition {α : Type} (fits : α → Bool) (start : Int) (items : List α) : Int :=
  match items.findIdx? fits with
  | some i => start + i
  | none => -1

/-- Bytes before the first one are those at the end, under negative positions. -/
def indexInBlob (bytes : List UInt8) (byte start : Int) : Run Int :=
  let fits (b : UInt8) : Bool := (b.toNat : Int) == byte
  if start < -(bytes.length : Int) then internal (.beforeBlob start)
  else if start < 0 then
    pure (firstPosition fits start (bytes.drop (start + bytes.length).toNat ++ bytes))
  else pure (firstPosition fits start (bytes.drop start.toNat))

def indexOf (container wanted : Ref) (start ignoreCase : Option Ref) : Run Ref := do
  let ignoreCase ← flag ignoreCase
  match ← value container with
  | .list items =>
    let n ← match start with
      | some r => number r
      | none => pure 0
    let first := if n < 0 then max (n + items.length) 0 else n
    let heap := (← MonadState.get).heap
    newInt (firstPosition (fun r => heap.equal ignoreCase r wanted) first
      (items.drop first.toNat))
  | .blob bytes =>
    let byte ← number wanted
    let n ← match start with
      | some r => number r
      | none => pure 0
    newInt (← indexInBlob bytes byte n)
  | _ => raise .addNeedsSequence

end VimL.Library
