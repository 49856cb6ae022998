import VimL.Interpreter
import VimL.Settings

namespace VimL

/-!
# Sessions

A host runs blocks and evaluates expressions one after the other in one engine. Before each run
the effects of the last one are dropped. A cancellation that is pending when a block ends is over.
-/

/-- What the host learns of a run: how it ended, with the value of an expression; whether a
cancellation ended it; and its effects in order. -/
structure Report where
  outcome : Except Stop (Option Ref)
  interrupted : Bool
  effects : Array Effect

namespace Session

/-! ## The first engine -/

def standardOptions : List (String × HostData) :=
  [("ignorecase", .int 0), ("smartcase", .int 0), ("incsearch", .int 0), ("hlsearch", .int 0),
    ("wrapscan", .int 1), ("scrolloff", .int 0), ("tabstop", .int 8), ("shiftwidth", .int 8),
    ("history", .int 50), ("clipboard", .text ""),
    ("matchpairs", .text "(:),\x7b:\x7d,[:]")]

/-- The variables of the editor. -/
def editorVariables : List (String × HostData) :=
  [("true", .int 1), ("false", .int 0), ("exception", .text ""), ("throwpoint", .text ""),
    ("version", .int 900)]

def blank (config : Config) : Engine where
  config := config
  heap := .empty
  frames := #[]
  scripts := #[]
  functions := #[]
  globals := .empty
  vim := .empty
  globalFunctions := .empty
  options := ⟨.empty, .empty⟩
  registers := .empty
  environment := .empty
  callStack := []
  callDepth := 0
  interrupted := false
  effects := #[]
  numberedFunctions := 0
  lambdas := 0
  history := []
  handedOn := []
  namings := []

/-- New objects for named data. -/
def objects : List (String × HostData) → Run (List (String × Ref))
  | [] => pure []
  | (name, d) :: rest => do
    let r ← d.toValue
    return (name, r) :: (← objects rest)

/-- The variables and options that a script finds, and its surroundings. -/
def furnish (options : List (String × HostData)) (registers environment : List (String × String)) :
    Run Unit := do
  let vim ← objects editorVariables
  let globals ← objects options
  modify fun e => { e with
    vim := .ofList vim
    options := ⟨.ofList globals, .empty⟩
    registers := .ofList registers
    environment := .ofList environment }

/-- An engine in which nothing has run. -/
def start (config : Config) (options : List (String × HostData))
    (registers environment : List (String × String)) : Except Stop Engine :=
  match furnish options registers environment (blank config) with
  | .ok () e => .ok e
  | .error stop _ => .error stop

/-! ## Scripts -/

def newScript (name : String) (e : Engine) : ScriptId × Engine :=
  (⟨e.scripts.size⟩, { e with scripts := e.scripts.push ⟨name, .empty, .empty⟩ })

/-- The script that was made last under a name. -/
def scriptNamed? (name : String) (e : Engine) : Option ScriptId :=
  ((List.range e.scripts.size).reverse.find? fun n =>
    (e.scripts[n]?).any (·.name == name)).map ScriptId.mk

def scriptContext (id : ScriptId) : Context := ⟨some id, none⟩

/-! ## Runs -/

def prepare (e : Engine) : Engine := { e with effects := #[], callStack := [], history := [] }

/-- A block as a whole: a request to finish ends it normally, and no loop is around it. -/
def unit (i : Interp) (c : Context) (body : List Stmt) : Run Unit := do
  match ← Run.outcome (Run.block i.exec c body) with
  | .ok .loopBreak => throw (Run.strayError .strayBreak "break")
  | .ok .loopContinue => throw (Run.strayError .strayContinue "continue")
  | .ok _ | .error .finished => return ()
  | .error stop => throw stop

/-- The effect that reports a failure. -/
def failureEffect : Stop → Effect
  | .error e => .report e.report
  | _ => .internalReport

/-- A failed run ends with its report. -/
def failed (stop : Stop) (e : Engine) : Report × Engine :=
  let e := { e with effects := e.effects.push (failureEffect stop) }
  (⟨.error stop, false, e.effects⟩, e)

def run (i : Interp) (c : Context) (body : List Stmt) (e : Engine) : Report × Engine :=
  match unit i c body (prepare e) with
  | .ok () e => (⟨.ok none, e.interrupted, e.effects⟩, { e with interrupted := false })
  | .error stop e => failed stop { e with interrupted := false }

/-- Run a block as a new script. -/
def source (i : Interp) (name : String) (body : List Stmt) (e : Engine) : Report × Engine :=
  let (id, e) := newScript name e
  run i (scriptContext id) body e

/-- Evaluate an expression. There is no script unit around it that could end early. -/
def evaluate (i : Interp) (c : Context) (x : Expr) (e : Engine) : Report × Engine :=
  match i.eval c x (prepare e) with
  | .ok r e => (⟨.ok (some r), false, e.effects⟩, e)
  | .error .finished e => failed (.internal .noScriptUnit) e
  | .error stop e => failed stop e

/-! ## Variables and cancellation -/

def setVariable (c : Context) (v : Variable) (d : HostData) : Run Unit := do
  Run.store c v (← d.toValue)

def cancel (e : Engine) : Engine := { e with interrupted := true }

end Session

end VimL
