import VimL.Diagnostics
import VimL.Indexing
import VimL.Lock
import VimL.Operators

namespace VimL

/-!
# Targets of assignment, removal and locking

A target names a variable, an element, a range, an option, a register or an environment variable.
The parts of a target are evaluated before the new value, and checked before it as well; the new
value is then stored at the place that was fixed.
-/

/-- A place for a bound, with a bound below zero counted from the end of `size` elements. -/
def fromEnd (size : Nat) (n : Int) : Int := if n < 0 then n + size else n

/-- The elements in front of, in and after the half-open range from `start` to `stop`. A stop
below zero counts from the end, and one before the start makes the range empty. -/
def cutAt {α : Type} (items : List α) (start : Nat) (stop : Int) : List α × List α × List α :=
  let stop := max start (fromEnd items.length stop).toNat
  (items.take start, (items.drop start).take (stop - start), items.drop stop)

/-- The text of a position in a message. -/
def positionText (n : Int) : String := "[" ++ Number.toText n ++ "]"

def rangeText (first last : Int) : String :=
  "[" ++ Number.toText first ++ ":" ++ Number.toText last ++ "]"

/-- Options, registers and environment variables know these operators only. -/
def AssignOperator.isForText : AssignOperator → Bool
  | .set | .concat | .arithmetic .add | .arithmetic .subtract => true
  | _ => false

/-- Registers that can be written: the quote, digits and letters. -/
def isWritableRegister (name : String) : Bool :=
  match name.toList with
  | [c] => c == '"' || c.isAlphanum
  | _ => false

namespace Run

variable (eval : Expr → Run Ref)

def checkUnlocked (r : Ref) (name : String) : Run Unit := do
  if ← isLocked r then raise (.locked name)

def checkAllUnlocked (items : List Ref) (name : String) : Run Unit := do
  let heap := (← get).heap
  if items.any heap.isLocked then raise (.locked name)

/-- Add to the end of a List in place. -/
def extendList (list : Ref) (added : List Ref) : Run Unit := do
  let copies ← storedAll added
  match ← value list with
  | .list items => setValue list (.list (items ++ copies))
  | _ => return ()

/-- The value to store: the new one, or what the operator makes of the current one and it. Adding
to a List or Blob extends it in place, for every variable that shares it. -/
def combine (op : AssignOperator) (current : Option Ref) (right : Ref) (name : String) :
    Run Ref := do
  match op, current with
  | .set, _ => return right
  | _, none => raise (.undefinedVariable name)
  | .concat, some current => concat current right
  | .arithmetic op, some current =>
    match op, ← value current, ← value right with
    | .add, .list _, .list added =>
      checkUnlocked current name
      extendList current added
      return current
    | .add, .blob bytes, .blob added =>
      checkUnlocked current name
      setValue current (.blob (bytes ++ added))
      return current
    | _, _, _ => arithmetic op current right

/-! ## Assignment -/

def assignVariable (c : Context) (v : Variable) (op : AssignOperator) (e : Expr) :
    Run Unit := do
  settle ((← get).checkWritable c v)
  let current ← resolve c v.scope v.name
  if op ≠ .set ∧ current.isNone then raise (.undefinedVariable v.text)
  let right ← eval e
  store c v (← combine op current right v.text)

/-- A function that needs a receiver is bound to the Dictionary that it is stored in. -/
def boundOnStore (dictionary r : Ref) : Run Ref := do
  match ← value r with
  | .funcref f =>
    if !f.fixed && (← get).isDictFunction f then
      newSharing (.funcref { f with receiver := some dictionary })
    else return r
  | _ => return r

def setEntry (dictionary : Ref) (key : String) (r : Ref) : Run Unit := do
  match ← value dictionary with
  | .dictionary entries => setValue dictionary (.dictionary (entries.insert key r))
  | _ => return ()

def entry? (dictionary : Ref) (key : String) : Run (Option Ref) := do
  match ← value dictionary with
  | .dictionary entries => return entries.find? key
  | _ => return none

def assignEntry (dictionary key : Ref) (op : AssignOperator) (e : Expr) : Run Unit := do
  let k ← text key
  if op ≠ .set ∧ (← entry? dictionary k).isNone then raise (.missingKey k)
  let right ← eval e
  let combined ← match ← entry? dictionary k with
    | some current => do
      checkUnlocked current k
      combine op (some current) right k
    | none => do
      checkUnlocked dictionary k
      pure right
  let bound ← boundOnStore dictionary combined
  setEntry dictionary k (← stored bound)

/-- Replace an item that still exists. -/
def setItem (list : Ref) (i : Nat) (r : Ref) : Run Unit := do
  match ← value list with
  | .list items =>
    if i < items.length then setValue list (.list (items.set i r)) else internal .itemGone
  | _ => internal .itemGone

def assignItem (list : Ref) (items : List Ref) (key : Ref) (op : AssignOperator) (e : Expr) :
    Run Unit := do
  let n ← index key
  match position? items.length n with
  | none => raise (.listIndex n)
  | some i =>
    match items[i]? with
    | none => raise (.listIndex n)
    | some current =>
      checkUnlocked current (positionText n)
      let right ← eval e
      let combined ← combine op (some current) right (positionText n)
      setItem list i (← stored combined)

/-- The bytes of a Blob. -/
def bytes (r : Ref) : Run (List UInt8) := do
  match ← value r with
  | .blob bytes => return bytes
  | _ => internal .byteGone

/-- A byte that still exists. -/
def byteAt (blob : Ref) (i : Nat) : Run UInt8 := do
  match (← bytes blob)[i]? with
  | some b => return b
  | none => internal .byteGone

def assignByte (blob : Ref) (size : Nat) (key : Ref) (op : AssignOperator) (e : Expr) :
    Run Unit := do
  let n ← index key
  match position? size n with
  | none => raise (.blobIndex n)
  | some i =>
    checkUnlocked blob (positionText n)
    let right ← eval e
    let current ← newInt (← byteAt blob i).toNat
    let byte ← number (← combine op (some current) right (positionText n))
    if byte < 0 ∨ 255 < byte then raise (.byteOutOfRange byte)
    setValue blob (.blob ((← bytes blob).set i (UInt8.ofNat byte.toNat)))

def assignElement (container key : Expr) (op : AssignOperator) (e : Expr) : Run Unit := do
  let target ← eval container
  let k ← eval key
  match ← value target with
  | .dictionary _ => assignEntry eval target k op e
  | .list items => assignItem eval target items k op e
  | .blob bytes => assignByte eval target bytes.length k op e
  | _ => raise .cannotIndex

/-- The size of a List or Blob that is the target of a range. -/
def rangeTargetSize (r : Ref) : Run Nat := do
  match ← value r with
  | .list items => return items.length
  | .blob bytes => return bytes.length
  | .dictionary _ => raise .cannotSliceDictionary
  | _ => raise .cannotIndex

/-- A bound that was written, or its default. -/
def bound (e : Option Expr) (default : Int) : Run Int :=
  match e with
  | some e => do index (← eval e)
  | none => pure default

/-- The number of new elements has to be that of the range, or at least that if it is open. -/
def checkCount (available : Nat) (count : Int) (isOpen : Bool) (few many : Cause) : Run Unit := do
  if available < count then raise few
  if !isOpen ∧ count < available then raise many

/-- Store a range once its bounds are known; `last` is past the end if the range is open. -/
def replaceRange (target source : Ref) (size : Nat) (first last : Int) (isOpen : Bool) :
    Run Unit := do
  let start := fromEnd size first
  let final := fromEnd size last
  let stop := if isOpen then (size : Int) else final + 1
  match ← value target, ← value source with
  | .list items, .list added =>
    checkCount added.length (final - start + 1) isOpen .tooFewItems .tooManyItems
    checkAllUnlocked (cutAt items start.toNat (final + 1)).2.1 (rangeText first last)
    let copies ← storedAll added
    let (before, _, after) := cutAt items start.toNat stop
    setValue target (.list (before ++ copies ++ after))
  | .blob bytes, .blob added =>
    checkCount added.length (final - start + 1) isOpen .wrongByteCount .wrongByteCount
    let (before, _, after) := cutAt bytes start.toNat stop
    setValue target (.blob (before ++ added ++ after))
  | _, _ => raise .sliceNeedsSequence

def assignRange (container : Expr) (first last : Option Expr) (op : AssignOperator) (e : Expr) :
    Run Unit := do
  let target ← eval container
  let size ← rangeTargetSize target
  if op ≠ .set then raise (.wrongOperator op.text)
  let a ← bound eval first 0
  let b ← bound eval last ((size : Int) - 1)
  if fromEnd size a < 0 ∨ (size : Int) < fromEnd size a then raise (.listIndex a)
  if last.isSome ∧ (size : Int) ≤ fromEnd size b then raise (.listIndex b)
  checkUnlocked target (rangeText a b)
  replaceRange target (← eval e) size a b last.isNone

def assignOption (scope : Option Scope) (name : String) (op : AssignOperator) (e : Expr) :
    Run Unit := do
  let shown := "&" ++ scopeText scope ++ name
  if !op.isForText then raise (.wrongOperator op.text)
  if scope ≠ none ∧ scope ≠ some .globals ∧ scope ≠ some .locals then raise (.illegalName shown)
  let current ← option scope name
  let right ← eval e
  setOption scope name (← combine op (some current) right shown)

def assignRegister (name : String) (op : AssignOperator) (e : Expr) : Run Unit := do
  if !isWritableRegister name then raise (.badRegister name)
  if !op.isForText then raise (.wrongOperator op.text)
  let small := Text.lower name
  let right ← eval e
  let current ← newText (← register small)
  -- A capital letter appends to the register of the small one.
  let op := if Text.isAllCapital name.toList ∧ op = .set then .concat else op
  setRegister small (← text (← combine op (some current) right ("@" ++ name)))

def assignEnvironment (name : String) (op : AssignOperator) (e : Expr) : Run Unit := do
  if !op.isForText then raise (.wrongOperator op.text)
  let right ← eval e
  let current ← newText ((← variableOfEnvironment? name).getD "")
  setEnvironment name (← text (← combine op (some current) right ("$" ++ name)))

def assign (c : Context) (target : Expr) (op : AssignOperator) (e : Expr) : Run Unit := do
  match target with
  | .var v => assignVariable eval c v op e
  | .index container key => assignElement eval container key op e
  | .slice container first last => assignRange eval container first last op e
  | .option scope name => assignOption eval scope name op e
  | .register name => assignRegister eval name op e
  | .environment name => assignEnvironment eval name op e
  | other => raise (.undefinedVariable (other.treeText (← get).heap))

/-! ## Removal -/

/-- Remove a variable. With `force`, one that does not exist is no error. -/
def unletVariable (c : Context) (v : Variable) (force : Bool) : Run Unit := do
  match ← outcome (unbind c v) with
  | .ok () => return ()
  | .error (.error e) =>
    if force ∧ e.errorClass = .name then return () else throw (.error e)
  | .error stop => throw stop

def removeElement (container key : Expr) (force : Bool) : Run Unit := do
  let target ← eval container
  let k ← eval key
  match ← value target with
  | .dictionary entries =>
    let name ← text k
    match entries.find? name with
    | none => if force then return () else raise (.missingKey name)
    | some r =>
      checkUnlocked target name
      checkUnlocked r name
      setValue target (.dictionary (entries.erase name))
  | .list items =>
    let n ← index k
    match position? items.length n with
    | none => raise (.listIndex n)
    | some i =>
      checkUnlocked target (positionText n)
      checkAllUnlocked (items[i]?).toList (positionText n)
      setValue target (.list (items.eraseIdx i))
  | .blob bytes =>
    let n ← index k
    match position? bytes.length n with
    | none => raise (.blobIndex n)
    | some i =>
      checkUnlocked target (positionText n)
      setValue target (.blob (bytes.eraseIdx i))
  | _ => raise .cannotIndex

def removeRange (container : Expr) (first last : Option Expr) : Run Unit := do
  let target ← eval container
  let size ← rangeTargetSize target
  let a ← bound eval first 0
  let b ← bound eval last ((size : Int) - 1)
  let start := fromEnd size a
  let final := fromEnd size b
  if start < 0 ∨ (size : Int) ≤ start then raise (.listIndex a)
  if (size : Int) ≤ final then raise (.listIndex b)
  checkUnlocked target (rangeText a b)
  match ← value target with
  | .list items =>
    let (before, removed, after) := cutAt items start.toNat (final + 1)
    checkAllUnlocked removed (rangeText a b)
    setValue target (.list (before ++ after))
  | .blob bytes =>
    let (before, _, after) := cutAt bytes start.toNat (final + 1)
    setValue target (.blob (before ++ after))
  | _ => return ()

def unlet (c : Context) (force : Bool) (target : Expr) : Run Unit := do
  match target with
  | .var v => unletVariable c v force
  | .index container key => removeElement eval container key force
  | .slice container first last => removeRange eval container first last
  | .environment name => unsetEnvironment name
  | other => raise (.invalidArgument (other.treeText (← get).heap))

/-! ## Locks -/

/-- The variable that a value is locked for, if the target is one. -/
def lockOwner? (e : Engine) (c : Context) (target : Expr) (r : Ref) : Option Binding :=
  match target with
  | .var v => e.binding? c v r
  | _ => none

/-- Lock a value, in the name of the variable if the target is one. -/
def lock (c : Context) (depth : Int) (target : Expr) : Run Unit := do
  let r ← eval target
  modify fun e => { e with heap := e.heap.lock depth (lockOwner? e c target r) r }

def unlock (depth : Int) (target : Expr) : Run Unit := do
  let r ← eval target
  modify fun e => { e with heap := e.heap.unlock depth r }

end Run

end VimL
