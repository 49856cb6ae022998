import VimL.Blocks
import VimL.Library.Native

namespace VimL

/-!
# Calls

A call is on the call stack while it runs. Calls of defined functions are counted, and their
number is limited.
-/

namespace Engine

/-- Begin a call. -/
def enter (e : Engine) (entry : CallEntry) : Engine :=
  match entry with
  | .native _ => { e with callStack := entry :: e.callStack }
  | .defined _ => { e with callStack := entry :: e.callStack, callDepth := e.callDepth + 1 }

/-- End a call that began in another engine. -/
def leave (before e : Engine) : Engine :=
  { e with callStack := before.callStack, callDepth := before.callDepth }

/-- A new frame, for an invocation that begins. -/
def invoke (e : Engine) (f : Frame) : Engine :=
  { e with frames := e.frames.push f }.note (.entered ⟨e.frames.size⟩ f.locals)

/-- All arguments are bound. -/
def noteCall (e : Engine) (frame : FrameId) : Engine :=
  e.note (.called frame (e.tableAt (.arguments frame)))

end Engine

namespace Run

/-- Run as a part of a call. The call ends, however the run does. -/
def within {α : Type} (entry : CallEntry) (m : Run α) : Run α := do
  let before ← get
  modify (·.enter entry)
  afterwards m before.leave

/-- The locals that an invocation begins with: a function that needs a receiver, which is a
Dictionary, finds it there. -/
def firstLocals (h : Heap) (f : Function) (receiver : Option Ref) : Table Ref :=
  match receiver with
  | none => .empty
  | some d =>
    match h.value d with
    | .dictionary _ => if f.definition.dict then Table.empty.insert "self" d else .empty
    | _ => .empty

/-- The frame of a new invocation. -/
def newFrame (id : FunctionId) (f : Function) (receiver : Option Ref) : Run FrameId :=
  modifyGet fun e =>
    (⟨e.frames.size⟩, e.invoke ⟨id, .empty, firstLocals e.heap f receiver, f.closure⟩)

def bindArgument (frame : FrameId) (name : String) (r : Ref) : Run Unit :=
  modify fun e => e.changeTable (·.insert name r) (.arguments frame)

/-- Bind a parameter. A lambda finds its parameters in its locals as well. -/
def bindParameter (frame : FrameId) (isLambda : Bool) (name : String) (r : Ref) : Run Unit := do
  bindArgument frame name r
  if isLambda then modify fun e => e.changeTable (·.insert name r) (.locals frame)

/-- Bind parameters from left to right. Where arguments run out, defaults are evaluated, which see
the parameters bound before them. -/
def bindParameters (eval : Context → Expr → Run Ref) (f : Function) (frame : FrameId) :
    List String → List Ref → Run Unit
  | [], _ => pure ()
  | p :: rest, arguments => do
    let given ← match arguments.head?, f.defaults.find? p with
      | some r, _ => pure r
      | none, some e => eval ⟨f.script, some frame⟩ e
      | none, none => internal (.missingDefault p)
    bindParameter frame f.isLambda p (← stored given)
    bindParameters eval f frame rest arguments.tail

/-- Bind further arguments by their positions, counted from one. -/
def bindExtras (frame : FrameId) (position : Nat) : List Ref → Run Unit
  | [] => pure ()
  | r :: rest => do
    bindArgument frame (Number.toText position) r
    bindExtras frame (position + 1) rest

/-- All arguments of an invocation. Further arguments are also bound as a number and a List. -/
def bindArguments (eval : Context → Expr → Run Ref) (f : Function) (frame : FrameId)
    (arguments : List Ref) : Run Unit := do
  let parameters := f.definition.parameters
  bindParameters eval f frame parameters arguments
  if f.definition.variadic then
    let extras ← storedAll (arguments.drop parameters.length)
    bindArgument frame "0" (← newInt extras.length)
    bindArgument frame "000" (← new (.list extras))
    bindExtras frame 1 extras

/-- May the function be called now with so many arguments? -/
def checkCall (f : Function) (count : Nat) (hasReceiver : Bool) : Run Unit := do
  let e ← get
  let name := f.displayName
  if e.config.callDepth ≤ e.callDepth then raise .callDepth
  if f.definition.dict && !hasReceiver then raise (.withoutDictionary name)
  if (count : Int) < f.requiredCount then raise (.notEnoughArguments name)
  if f.definition.parameters.length < count && !f.definition.variadic then
    raise (.tooManyArguments name)

/-- What a call gives back for the way its body ended. -/
def resultOf (signal : Signal) : Run Ref :=
  match signal with
  | .normal => newInt 0
  | .result r => pure r
  | .finish => throw .finished
  | .loopBreak => throw (strayError .strayBreak "break")
  | .loopContinue => throw (strayError .strayContinue "continue")

def callDefined (i : Interp) (id : FunctionId) (arguments : List Ref) (receiver : Option Ref) :
    Run Ref := do
  match (← get).function? id with
  | none => internal .missingFunction
  | some f =>
    checkCall f arguments.length receiver.isSome
    let frame ← newFrame id f receiver
    let signal ← within (.defined f.displayName) do
      bindArguments i.eval f frame arguments
      modify (·.noteCall frame)
      block i.exec ⟨f.script, some frame⟩ f.definition.body
    resultOf signal

def callNative (name : String) (arity : Arity) (count : Nat) (body : Run Ref) : Run Ref := do
  Library.checkCount name arity count
  within (.native name) body

/-- Call what a reference points at. -/
def callHandler (host : Host) (i : Interp) (c : Context) (h : Handler) (arguments : List Ref)
    (receiver : Option Ref) : Run Ref :=
  let env : NativeEnv := ⟨host, c, i.call c⟩
  match h with
  | .defined id _ => callDefined i id arguments receiver
  | .builtin b =>
    callNative b.name b.arity arguments.length (Library.runBuiltin env b arguments)
  | .host name =>
    match host.function? name with
    | some f => callNative f.name f.arity arguments.length (Library.runHosted env f arguments)
    | none => internal .missingFunction

end Run

end VimL
