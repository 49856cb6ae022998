import VimL.Interp
import VimL.Surroundings

namespace VimL.Library

/-!
# Native functions on names and references

Names are written as in a script, with the prefix of a scope in front.
-/

open Run

/-! ## Function references -/

/-- The bound arguments and the receiver. A Dictionary in the place of the arguments is the
receiver if no other is given. -/
def bindings (second third : Option Ref) : Run (Option Ref × Option Ref) := do
  match second, third with
  | some r, none =>
    match ← value r with
    | .dictionary _ => return (none, some r)
    | _ => return (some r, none)
  | _, _ => return (second, third)

def boundArguments (r : Option Ref) : Run (List Ref) := do
  match r with
  | none => return []
  | some r =>
    match ← value r with
    | .list items => return items
    | _ => raise .badArgumentList

/-- A receiver that is given has to be a Dictionary. -/
def checkReceiver (r : Option Ref) (cause : Cause) : Run Unit := do
  match r with
  | none => return ()
  | some r =>
    match ← value r with
    | .dictionary _ => return ()
    | _ => raise cause

/-- The function of a name, as a reference that is bound to nothing. -/
def referenceTo (env : NativeEnv) (name : String) : Run Funcref := do
  let (scope, bare) := Scope.split name
  match ← env.handler? scope bare with
  | some h => return .ofHandler h
  | none => raise (.unknownFunctionName name)

/-- A new reference to a function that is given by name or by a reference. Arguments are added
after those that it is bound to, and a receiver is fixed. -/
def function (env : NativeEnv) (name : Ref) (second third : Option Ref) : Run Ref := do
  let (arguments, receiver) ← bindings second third
  let extra ← boundArguments arguments
  checkReceiver receiver .badReceiver
  let f ← match ← value name with
    | .funcref f => pure f
    | v => referenceTo env (← settle v.toText)
  let f := { f with arguments := f.arguments ++ extra }
  match receiver with
  | some d => newSharing (.funcref { f with receiver := some d, fixed := true })
  | none => newSharing (.funcref f)

/-- Call a function with the items of a List. A receiver replaces the one that is bound. -/
def call (env : NativeEnv) (callee arguments : Ref) (receiver : Option Ref) : Run Ref := do
  match ← value arguments with
  | .list items =>
    checkReceiver receiver .dictionaryRequired
    let f ← match ← value callee with
      | .funcref f => pure f
      | v =>
        let (scope, bare) := Scope.split (← settle v.toText)
        pure (.ofHandler (← env.handler scope bare))
    callFuncref env.call { f with receiver := receiver.or f.receiver } items none
  | _ => raise .listRequired

/-! ## Names -/

/-- Follow keys through Dictionaries. -/
def follow (h : Heap) : Option Ref → List String → Option Ref
  | r, [] => r
  | none, _ => none
  | some r, key :: rest =>
    match h.value r with
    | .dictionary entries => follow h (entries.find? key) rest
    | _ => none

/-- The value of a variable, or of an entry that keys after dots lead to. -/
def atPath? (c : Context) (path : String) : Run (Option Ref) := do
  match path.splitOn "." with
  | [] => return none
  | head :: keys =>
    let (scope, name) := Scope.split head
    let r ← resolve c scope name
    return follow (← MonadState.get).heap r keys

/-- Is there an option, an environment variable, a function or a variable of this name? -/
def isDefined (env : NativeEnv) (text : String) : Run Bool := do
  match text.toList with
  | '&' :: rest =>
    let (scope, name) := Scope.split (String.ofList rest)
    return ((← MonadState.get).options.find? scope name).isSome
  | '$' :: rest => return (← variableOfEnvironment? (String.ofList rest)).isSome
  | '*' :: rest =>
    let (scope, name) := Scope.split (String.ofList rest)
    return (← env.handler? scope name).isSome
  | _ => return (← atPath? env.context text).isSome

/-- What cannot be looked up does not exist. -/
def exist (env : NativeEnv) (r : Ref) : Run Ref := do
  match ← outcome (isDefined env (← text r)) with
  | .ok found => newBool found
  | .error (.error _) => newBool false
  | .error stop => throw stop

def islocked (env : NativeEnv) (r : Ref) : Run Ref := do
  let path ← text r
  match ← atPath? env.context path with
  | some found => newBool (← isLocked found)
  | none => raise (.undefinedVariable path)

end VimL.Library
