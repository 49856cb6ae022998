import VimL.HostData
import VimL.Functions

namespace VimL

/-!
# What a step of a run may call upon

Expressions, statements and calls are given by steps that are not recursive themselves: each takes
an interpreter for the parts, which has less fuel. The host brings functions of its own.
-/

/-- How a statement ends. -/
inductive Signal where
  | normal
  | loopBreak
  | loopContinue
  | finish
  | result (r : Ref)

/-- Where a native function is called from. -/
structure Caller where
  script : Option String
  function : Option String

/-- The host may cancel the run, and it gives data back unless it fails. -/
structure HostReply where
  cancels : Bool
  result : Option HostData

structure HostFunction where
  name : String
  arity : Arity
  /-- Arguments are handed over as data of the host, not as script values. -/
  copies : Bool
  run : Caller → List HostData → HostReply

structure Host where
  functions : List HostFunction

namespace Host

def function? (host : Host) (name : String) : Option HostFunction :=
  host.functions.find? (·.name == name)

/-- The native function of a name; those of the host come first. -/
def native? (host : Host) (name : String) : Option Handler :=
  match host.function? name with
  | some f => some (.host f.name)
  | none => (Builtin.ofName? name).map .builtin

end Host

/-- An interpreter with some fuel. Loops run at most `fuel` rounds. -/
structure Interp where
  fuel : Nat
  eval : Context → Expr → Run Ref
  exec : Context → Stmt → Run Signal
  call : Context → Handler → List Ref → Option Ref → Run Ref

/-- What a native function may call upon. -/
structure NativeEnv where
  host : Host
  context : Context
  call : Handler → List Ref → Option Ref → Run Ref

namespace NativeEnv

def handler? (env : NativeEnv) (scope : Option Scope) (name : String) : Run (Option Handler) :=
  Run.handler? env.host.native? env.context scope name

def handler (env : NativeEnv) (scope : Option Scope) (name : String) : Run Handler :=
  Run.handler env.host.native? env.context scope name

end NativeEnv

namespace Run

/-- The function was taken out of its table by command. -/
def checkAlive (h : Handler) : Run Unit := do
  match h with
  | .defined id name =>
    if ((← get).function? id).any (·.deleted) then raise (.deletedFunction name)
  | _ => return ()

/-- Call a function reference: its own arguments come first, and its own receiver is preferred. -/
def callFuncref (call : Handler → List Ref → Option Ref → Run Ref) (f : Funcref)
    (arguments : List Ref) (receiver : Option Ref) : Run Ref := do
  checkAlive f.handler
  call f.handler (f.arguments ++ arguments) (f.receiver.or receiver)

end Run

end VimL
