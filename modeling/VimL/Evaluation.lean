import VimL.Invocation
import VimL.Render
import VimL.Targets

namespace VimL

/-!
# Expressions
-/

namespace Run

variable (host : Host) (i : Interp) (c : Context)

def evalAll : List Expr → Run (List Ref)
  | [] => pure []
  | e :: rest => do
    let r ← i.eval c e
    return r :: (← evalAll rest)

/-- The items of a List: scalars are copied. -/
def evalItems : List Expr → Run (List Ref)
  | [] => pure []
  | e :: rest => do
    let r ← stored (← i.eval c e)
    return r :: (← evalItems rest)

/-- The entries of a Dictionary: scalars are copied, and later entries overwrite earlier ones. -/
def evalEntries (entries : Table Ref) : List (Expr × Expr) → Run (Table Ref)
  | [] => pure entries
  | (key, e) :: rest => do
    let k ← text (← i.eval c key)
    let r ← stored (← i.eval c e)
    evalEntries (entries.insert k r) rest

/-- The right side is evaluated only if the left does not decide. -/
def evalAnd (left right : Expr) : Run Ref := do
  if ← bool (← i.eval c left) then newBool (← bool (← i.eval c right)) else newBool false

def evalOr (left right : Expr) : Run Ref := do
  if ← bool (← i.eval c left) then newBool true else newBool (← bool (← i.eval c right))

def evalBinary (op : BinaryOperator) (left right : Expr) : Run Ref := do
  let x ← i.eval c left
  binary op x (← i.eval c right)

def evalElement (container key : Expr) : Run Ref := do
  let r ← i.eval c container
  element r (← i.eval c key)

def evalRange (container : Expr) (first last : Option Expr) : Run Ref := do
  let r ← i.eval c container
  let size ← sliceableSize r
  let a ← bound (i.eval c) first 0
  let b ← bound (i.eval c) last ((size : Int) - 1)
  newRange r size a b

/-! ## Calls -/

/-- Call a function by name, or the function that a variable of this name holds. -/
def evalCall (scope : Option Scope) (name : String) (arguments : List Expr) : Run Ref := do
  let rs ← evalAll i c arguments
  match ← handler? host.native? c scope name with
  | some h => i.call c h rs none
  | none =>
    match ← resolve c scope name with
    | none => raise (.unknownFunction (scopeText scope ++ name))
    | some r =>
      match ← value r with
      | .funcref f => callFuncref (i.call c) f rs none
      | _ => raise (.unknownFunction (scopeText scope ++ name))

/-- What a call expression calls. An entry of a Dictionary is called with that Dictionary. -/
def evalCallee (callee : Expr) : Run (Ref × Option Ref) := do
  match callee with
  | .index container key =>
    let r ← i.eval c container
    let f ← element r (← i.eval c key)
    match ← value r with
    | .dictionary _ => return (f, some r)
    | _ => return (f, none)
  | e => return (← i.eval c e, none)

/-- The function that a value stands for: a reference, or the name of a function. -/
def funcrefOf (r : Ref) : Run Funcref := do
  match ← value r with
  | .funcref f => return f
  | .string name => return .ofHandler (← handler host.native? c none name)
  | _ =>
    let e ← get
    raise (.notCallable (e.heap.textAt e.config.renderDepth [] r))

def evalCallValue (callee : Expr) (arguments : List Expr) : Run Ref := do
  let (r, receiver) ← evalCallee i c callee
  let f ← funcrefOf host c r
  callFuncref (i.call c) f (← evalAll i c arguments) receiver

/-- A new function of one expression. Lambdas are numbered. -/
def newLambda (parameters : List String) (body : Expr) : Run Ref := do
  let n : Nat ← modifyGet fun e => (e.lambdas + 1, { e with lambdas := e.lambdas + 1 })
  let name := "<lambda>" ++ Number.toText n
  let id ← newFunction (.lambda name parameters body c)
  new (.funcref (.ofHandler (.defined id name)))

/-! ## All expressions -/

/-- Evaluate an expression, given an interpreter for its parts. -/
def evaluate (e : Expr) : Run Ref :=
  match e with
  | .const r => pure r
  | .var v => lookup c v
  | .option scope name => option scope name
  | .register name => do newText (← register name)
  | .environment name => do newText ((← variableOfEnvironment? name).getD "")
  | .list items => do new (.list (← evalItems i c items))
  | .dict entries => do new (.dictionary (← evalEntries i c .empty entries))
  | .index container key => evalElement i c container key
  | .slice container first last => evalRange i c container first last
  | .binary .and left right => evalAnd i c left right
  | .binary .or left right => evalOr i c left right
  | .binary op left right => evalBinary i c op left right
  | .unary op operand => do unary op (← i.eval c operand)
  | .ternary condition yes no => do
    if ← bool (← i.eval c condition) then i.eval c yes else i.eval c no
  | .call scope name arguments => evalCall host i c scope name arguments
  | .callValue callee arguments => evalCallValue host i c callee arguments
  | .lambda parameters body => newLambda c parameters body

end Run

end VimL
