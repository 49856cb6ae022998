import VimL.Coercion
import VimL.Config
import VimL.Copy

namespace VimL

/-!
# The engine

All that a script can change, and the monad of runs over it. A run that stops short keeps what it
has changed.
-/

structure Function where
  name : String
  /-- Where the function is declared. -/
  scope : Scope
  definition : Procedure Stmt
  defaults : Table Expr
  script : Option ScriptId
  closure : Option FrameId
  isLambda : Bool
  deleted : Bool
  /-- The parameters of a lambda have no defaults. -/
  plain : isLambda = true → defaults = .empty
  /-- A lambda needs no receiver. -/
  free : isLambda = true → definition.dict = false

/-- The bindings of one invocation. A closure goes on to the frame its function was defined in. -/
structure Frame where
  function : FunctionId
  arguments : Table Ref
  locals : Table Ref
  closure : Option FrameId

structure Script where
  name : String
  bindings : Table Ref
  functions : Table FunctionId

/-- Options that exist have a global value; a local one comes before it. -/
structure Options where
  globals : Table Ref
  locals : Table Ref

inductive CallEntry where
  | native (name : String)
  | defined (name : String)
  deriving DecidableEq

/-- A message, and whether it reports a failure. -/
inductive Effect where
  | output (text : String)
  | report (text : String)
  | internalReport

/-- The lexical position of a statement. Without script and frame it is the command line. -/
structure Context where
  script : Option ScriptId
  frame : Option FrameId
  deriving DecidableEq

namespace Context

def commandLine : Context := ⟨none, none⟩

end Context

/-- What happens in a run, for the history. -/
inductive Event where
  /-- A statement starts. -/
  | began (c : Context) (s : Stmt)
  /-- A cancellation is requested; these are the effects so far. -/
  | cancelled (effects : Array Effect)
  /-- A final block has run, with the history of its own, the latest first. -/
  | final (c : Context) (body : List Stmt) (events : List Event)

/-- What is done to the tables of variables, for the namings. -/
inductive Naming where
  /-- A context binds a variable. -/
  | bound (c : Context) (b : Binding)
  /-- A context takes a variable out of its table. -/
  | unbound (c : Context) (b : Binding)
  /-- An invocation begins with these locals. -/
  | entered (frame : FrameId) (locals : Table Ref)
  /-- All arguments of an invocation are bound. -/
  | called (frame : FrameId) (arguments : Table Ref)
  /-- The variables of the editor show an exception from now on. -/
  | shown (err : ScriptError)
  /-- They show what they showed before. -/
  | hidden

structure Engine where
  config : Config
  heap : Heap
  frames : Array Frame
  scripts : Array Script
  functions : Array Function
  globals : Table Ref
  vim : Table Ref
  globalFunctions : Table FunctionId
  options : Options
  registers : Table String
  environment : Table String
  callStack : List CallEntry
  callDepth : Nat
  /-- A cancellation is pending. -/
  interrupted : Bool
  effects : Array Effect
  numberedFunctions : Nat
  lambdas : Nat
  /-- What has happened, the latest first. Nothing reads it: it is there to speak about runs. -/
  history : List Event
  /-- What has become a part of another value without being copied. Nothing reads it either. -/
  handedOn : List Ref
  /-- What has been done to variables, the latest first. Nothing reads it either. -/
  namings : List Naming

namespace Engine

def record (e : Engine) (event : Event) : Engine := { e with history := event :: e.history }

def note (e : Engine) (n : Naming) : Engine := { e with namings := n :: e.namings }

def requestCancel (e : Engine) : Engine :=
  { e with interrupted := true, history := .cancelled e.effects :: e.history }

end Engine

abbrev Run := EStateM Stop Engine

namespace Run

def raise {α : Type} (cause : Cause) : Run α := throw (.ofCause cause)

def internal {α : Type} (failure : Failure) : Run α := throw (.internal failure)

/-- A computation that needs no engine. -/
def settle {α : Type} (x : Except Stop α) : Run α :=
  match x with
  | .ok a => pure a
  | .error stop => throw stop

/-- Run to the end, however it comes, and hand the outcome on. -/
def outcome {α : Type} (m : Run α) : Run (Except Stop α) := fun e =>
  match m e with
  | .ok a e => .ok (.ok a) e
  | .error stop e => .ok (.error stop) e

/-- Change the engine once the run is over, however it ends. -/
def afterwards {α : Type} (m : Run α) (change : Engine → Engine) : Run α := fun e =>
  match m e with
  | .ok a e => .ok a (change e)
  | .error stop e => .error stop (change e)

/-! ## Objects -/

def value (r : Ref) : Run Value := do return (← get).heap.value r

def isLocked (r : Ref) : Run Bool := do return (← get).heap.isLocked r

def new (v : Value) : Run Ref := modifyGet fun e =>
  let (r, heap) := e.heap.new v
  (r, { e with heap := heap })

def newInt (n : Int) : Run Ref := new (.ofInt n)

def newBool (b : Bool) : Run Ref := new (.ofBool b)

def newText (s : String) : Run Ref := new (.string s)

/-- Note that these objects become parts of another value as they are. -/
def handOn (rs : List Ref) : Run Unit := modify fun e => { e with handedOn := rs ++ e.handedOn }

/-- A new value with parts that other values may hold as well. -/
def newSharing (v : Value) : Run Ref := do
  handOn v.parts
  new v

def setValue (r : Ref) (v : Value) : Run Unit :=
  modify fun e => { e with heap := e.heap.setValue r v }

/-- The object that is stored for a value: a copy of a scalar, anything else itself. -/
def stored (r : Ref) : Run Ref := modifyGet fun e =>
  let (r, heap) := e.heap.stored r
  (r, { e with heap := heap })

def storedAll : List Ref → Run (List Ref)
  | [] => pure []
  | r :: rest => do
    let s ← stored r
    return s :: (← storedAll rest)

def text (r : Ref) : Run String := do settle (← value r).toText

def number (r : Ref) : Run Int := do settle (← value r).toNumber

def float (r : Ref) : Run Float := do settle (← value r).toFloat

def bool (r : Ref) : Run Bool := do settle (← value r).toBool

def index (r : Ref) : Run Int := do settle (← value r).toIndex

def isInterrupted : Run Bool := do return (← get).interrupted

def record (event : Event) : Run Unit := modify (·.record event)

end Run

namespace Engine

def function? (e : Engine) (id : FunctionId) : Option Function := e.functions[id.index]?

def frame? (e : Engine) (id : FrameId) : Option Frame := e.frames[id.index]?

def script? (e : Engine) (id : ScriptId) : Option Script := e.scripts[id.index]?

/-- Scripts are numbered from one, in the order in which they were made. -/
def scriptNumber (id : ScriptId) : Nat := id.index + 1

end Engine

namespace Function

/-- The name that a function shows: one of a script carries the number of the script. -/
def displayName (f : Function) : String :=
  match f.scope, f.script with
  | .script, some id =>
    "<SNR>" ++ Number.toText (Engine.scriptNumber id) ++ "_" ++ f.name
  | _, _ => f.name

/-- Parameters without a default come first, so this many arguments are needed. -/
def requiredCount (f : Function) : Int :=
  (f.definition.parameters.length : Int) - f.defaults.size

end Function

end VimL
