import VimL.Targets

namespace VimL.Library

/-!
# Native functions on containers

Functions that change their first argument refuse a locked one before anything else, and give it
back.
-/

open Run

def checkArgument (r : Ref) (function : String) : Run Unit :=
  checkUnlocked r (function ++ "() argument")

/-- A position counted from the front, which may be just past the end if that is allowed. -/
def listPosition (n : Int) (size : Nat) (allowEnd : Bool) : Run Nat :=
  let i := fromEnd size n
  if 0 ≤ i ∧ i < size + (if allowEnd then 1 else 0) then pure i.toNat
  else raise (.listIndex n)

/-- The lowest eight bits. -/
def lowByte (n : Int) : UInt8 := UInt8.ofNat (n % 256).toNat

def insertAt {α : Type} (items : List α) (i : Nat) (added : List α) : List α :=
  items.take i ++ added ++ items.drop i

/-! ## Size and content -/

def len (r : Ref) : Run Ref := do
  match ← value r with
  | .list items => newInt items.length
  | .dictionary entries => newInt entries.size
  | .blob bytes => newInt bytes.length
  | .float _ | .funcref _ => raise .noLength
  | v => newInt (← settle v.toText).length

def empty (r : Ref) : Run Ref := do
  match ← value r with
  | .list items => newBool items.isEmpty
  | .dictionary entries => newBool entries.entries.isEmpty
  | .blob bytes => newBool bytes.isEmpty
  | .string s => newBool s.isEmpty
  | .number n => newBool (n == 0)
  | .float x => newBool (x == 0.0)
  | .funcref _ => newBool false

def get (container key : Ref) (fallback : Option Ref) : Run Ref := do
  let missing : Run Ref := match fallback with
    | some r => pure r
    | none => newInt 0
  match ← value container with
  | .list items =>
    match (position? items.length (← index key)).bind (items[·]?) with
    | some r => return r
    | none => missing
  | .dictionary entries =>
    match entries.find? (← text key) with
    | some r => return r
    | none => missing
  | .blob bytes =>
    match (position? bytes.length (← index key)).bind (bytes[·]?) with
    | some b => newInt b.toNat
    | none => missing
  | .funcref f =>
    match ← text key, f.receiver with
    | "name", _ => newText f.name
    | "args", _ => newSharing (.list f.arguments)
    | "dict", some d => return d
    | _, _ => missing
  | _ => raise (.needsContainer "get")

/-- The entries of a Dictionary. -/
def entriesOf (r : Ref) : Run (Table Ref) := do
  match ← value r with
  | .dictionary entries => return entries
  | _ => raise .dictionaryRequired

def hasKey (dictionary key : Ref) : Run Ref := do
  let entries ← entriesOf dictionary
  newBool (entries.contains (← text key))

def newTexts : List String → Run (List Ref)
  | [] => pure []
  | s :: rest => do
    let r ← newText s
    return r :: (← newTexts rest)

def keys (dictionary : Ref) : Run Ref := do
  new (.list (← newTexts (← entriesOf dictionary).keys))

def values (dictionary : Ref) : Run Ref := do
  newSharing (.list (← entriesOf dictionary).values)

def newItems : List (String × Ref) → Run (List Ref)
  | [] => pure []
  | (key, v) :: rest => do
    let k ← newText key
    handOn [v]
    let r ← new (.list [k, v])
    return r :: (← newItems rest)

def items (dictionary : Ref) : Run Ref := do
  new (.list (← newItems (← entriesOf dictionary).entries))

/-! ## Copies -/

def copy (r : Ref) : Run Ref := do
  match ← value r with
  | .list items => new (.list (← storedAll items))
  | .dictionary entries =>
    let copies ← storedAll entries.values
    new (.dictionary (entries.withValues copies))
  | .blob bytes => new (.blob bytes)
  | _ => stored r

def deepcopy (r : Ref) : Run Ref := modifyGet fun e =>
  let (c, heap) := e.heap.deepCopy r
  (c, { e with heap := heap })

/-- The items, again and again. -/
def repeatItems (items : List Ref) : Nat → Run (List Ref)
  | 0 => pure []
  | count + 1 => do
    let copies ← storedAll items
    return copies ++ (← repeatItems items count)

def repeated (r count : Ref) : Run Ref := do
  let n := (← number count).toNat
  match ← value r with
  | .list items => new (.list (← repeatItems items n))
  | .blob bytes => new (.blob (List.replicate n bytes).flatten)
  | v =>
    let s ← settle v.toText
    newText (String.ofList (List.replicate n s.toList).flatten)

/-! ## Changes -/

def add (container item : Ref) : Run Ref := do
  checkArgument container "add"
  match ← value container with
  | .list _ =>
    extendList container [item]
    return container
  | .blob bytes =>
    setValue container (.blob (bytes ++ [lowByte (← number item)]))
    return container
  | _ => raise .addNeedsSequence

def insert (container item : Ref) (position : Option Ref) : Run Ref := do
  checkArgument container "insert"
  let n ← match position with
    | some r => number r
    | none => pure 0
  match ← value container with
  | .list items =>
    let i ← listPosition n items.length true
    setValue container (.list (insertAt items i [← stored item]))
    return container
  | .blob bytes =>
    let i ← listPosition n bytes.length true
    setValue container (.blob (insertAt bytes i [lowByte (← number item)]))
    return container
  | _ => raise .insertNeedsSequence

/-- The last position of a range that begins at `start`. -/
def lastPosition (start : Nat) (last : Ref) (size : Nat) : Run Nat := do
  let stop ← listPosition (← number last) size false
  if stop < start then raise .invalidRange
  return stop

def removeFromList (list : Ref) (items : List Ref) (first : Ref) (last : Option Ref) :
    Run Ref := do
  let start ← listPosition (← number first) items.length false
  match last with
  | none =>
    match items[start]? with
    | some r =>
      setValue list (.list (items.eraseIdx start))
      return r
    | none => internal .positionGone
  | some last =>
    let stop ← lastPosition start last items.length
    let (before, removed, after) := cutAt items start (stop + 1)
    setValue list (.list (before ++ after))
    new (.list removed)

def removeFromBlob (blob : Ref) (bytes : List UInt8) (first : Ref) (last : Option Ref) :
    Run Ref := do
  let start ← listPosition (← number first) bytes.length false
  match last with
  | none =>
    match bytes[start]? with
    | some b =>
      setValue blob (.blob (bytes.eraseIdx start))
      newInt b.toNat
    | none => internal .positionGone
  | some last =>
    let stop ← lastPosition start last bytes.length
    let (before, removed, after) := cutAt bytes start (stop + 1)
    setValue blob (.blob (before ++ after))
    new (.blob removed)

def remove (container first : Ref) (last : Option Ref) : Run Ref := do
  checkArgument container "remove"
  match ← value container with
  | .dictionary entries =>
    let key ← text first
    match entries.find? key with
    | none => raise (.missingKey key)
    | some r =>
      checkArgument r "remove"
      setValue container (.dictionary (entries.erase key))
      return r
  | .list items => removeFromList container items first last
  | .blob bytes => removeFromBlob container bytes first last
  | _ => raise (.needsContainer "remove")

/-- What happens to a key that both Dictionaries have. -/
inductive Clash where
  | force
  | keep
  | error

def clashOf? (text : String) : Option Clash :=
  match text with
  | "force" => some .force
  | "keep" => some .keep
  | "error" => some .error
  | _ => none

/-- Add entries one by one. -/
def extendEntries (dictionary : Ref) (clash : Clash) : List (String × Ref) → Run Unit
  | [] => pure ()
  | (key, v) :: rest => do
    match ← entry? dictionary key, clash with
    | some _, .keep => extendEntries dictionary clash rest
    | some _, .error => raise (.existingKey key)
    | _, _ =>
      setEntry dictionary key (← stored v)
      extendEntries dictionary clash rest

def extend (target source : Ref) (third : Option Ref) : Run Ref := do
  checkArgument target "extend"
  match ← value target, ← value source with
  | .list items, .list added =>
    let i ← match third with
      | some r => do listPosition (← number r) items.length true
      | none => pure items.length
    setValue target (.list (insertAt items i (← storedAll added)))
    return target
  | .dictionary _, .dictionary added =>
    let mode ← match third with
      | some r => text r
      | none => pure "force"
    match clashOf? mode with
    | none => raise (.invalidArgument mode)
    | some clash =>
      extendEntries target clash added.entries
      return target
  | _, _ => raise (.needsListOrDictionary "extend")

def reverse (r : Ref) : Run Ref := do
  match ← value r with
  | .list items =>
    checkArgument r "reverse"
    setValue r (.list items.reverse)
    return r
  | .blob bytes =>
    checkArgument r "reverse"
    setValue r (.blob bytes.reverse)
    return r
  | .string s => newText (String.ofList s.toList.reverse)
  | _ => newInt 0

end VimL.Library
