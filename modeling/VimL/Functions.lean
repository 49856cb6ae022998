import VimL.Variables

namespace VimL

/-!
# Function tables

Named functions live in the global table or in the table of their script. References keep a
function alive after it has left its table; one that was taken out by command is marked.
-/

/-- A table of functions. -/
inductive FunctionTable where
  | globals
  | script (id : ScriptId)
  deriving DecidableEq

namespace Engine

def functionsAt (e : Engine) : FunctionTable → Table FunctionId
  | .globals => e.globalFunctions
  | .script id => ((e.script? id).map (·.functions)).getD .empty

def changeFunctions (e : Engine) (change : Table FunctionId → Table FunctionId) :
    FunctionTable → Engine
  | .globals => { e with globalFunctions := change e.globalFunctions }
  | .script id =>
    { e with scripts := e.scripts.modify id.index fun s =>
        { s with functions := change s.functions } }

/-- The defined function of a name. Without a prefix, the global table comes before the table of
the script. -/
def definedFunction? (e : Engine) (c : Context) (scope : Option Scope) (name : String) :
    Except Stop (Option FunctionId) :=
  match scope with
  | some .globals => .ok (e.globalFunctions.find? name)
  | some .script =>
    match c.script with
    | some id => .ok ((e.functionsAt (.script id)).find? name)
    | none => .error (.ofCause (.noScriptForFunction name))
  | none =>
    match e.globalFunctions.find? name with
    | some id => .ok (some id)
    | none => .ok (c.script.bind fun id => (e.functionsAt (.script id)).find? name)
  | some _ => .ok none

/-- What a reference to a defined function holds. -/
def handlerOf (e : Engine) (id : FunctionId) : Handler :=
  .defined id (((e.function? id).map (·.displayName)).getD "")

end Engine

namespace Run

/-- The handler of a name. Without a prefix, native functions come first; `natives` knows the
handlers of their names. -/
def handler? (natives : String → Option Handler) (c : Context) (scope : Option Scope)
    (name : String) : Run (Option Handler) := do
  match (if scope.isNone then natives name else none) with
  | some h => return some h
  | none =>
    let e ← get
    match ← settle (e.definedFunction? c scope name) with
    | some id => return some (e.handlerOf id)
    | none => return none

/-- The handler of a name that has to exist. -/
def handler (natives : String → Option Handler) (c : Context) (scope : Option Scope)
    (name : String) : Run Handler := do
  match ← handler? natives c scope name with
  | some h => return h
  | none => raise (.unknownFunction (scopeText scope ++ name))

end Run

/-- The first parameter without a default that follows one with a default. -/
def misplacedParameter? (defaults : Table Expr) : Bool → List String → Option String
  | _, [] => none
  | seen, p :: rest =>
    if defaults.contains p then misplacedParameter? defaults true rest
    else if seen then some p
    else misplacedParameter? defaults false rest

namespace Function

/-- Defaults that are given twice keep the last expression. -/
def make (name : String) (scope : Scope) (definition : Procedure Stmt) (script : Option ScriptId)
    (closure : Option FrameId) : Except Stop Function :=
  let defaults := Table.ofList definition.defaults
  match misplacedParameter? defaults false definition.parameters with
  | some p => .error (.ofCause (.defaultBeforePlain p))
  | none => .ok ⟨name, scope, definition, defaults, script, closure, false, false, nofun, nofun⟩

def lambda (name : String) (parameters : List String) (body : Expr) (c : Context) : Function :=
  ⟨name, .globals, ⟨parameters, [], [.giveBack (some body)], false, false, true, false⟩, .empty,
    c.script, c.frame, true, false, fun _ => rfl, fun _ => rfl⟩

/-- Names have no colon, and a global one starts with a capital or has a `#`. -/
def checkName (scope : Scope) (name : String) : Except Stop Unit :=
  if name.toList.contains ':' then .error (.ofCause (.colonInFunctionName name))
  else if scope ≠ .globals ∧ scope ≠ .script then
    .error (.ofCause (.colonInFunctionName (scope.prefixText ++ name)))
  else if scope = .globals ∧ ¬ Text.startsCapital name ∧ ¬ name.toList.contains '#' then
    .error (.ofCause (.smallFunctionName name))
  else .ok ()

/-- The table that a function is declared in. -/
def table (scope : Scope) (name : String) (c : Context) : Except Stop FunctionTable :=
  if scope = .script then
    match c.script with
    | some id => .ok (.script id)
    | none => .error (.ofCause (.noScriptForFunction name))
  else .ok .globals

end Function

namespace Run

/-- Keep a function and give it an identity. -/
def newFunction (f : Function) : Run FunctionId := modifyGet fun e =>
  (⟨e.functions.size⟩, { e with functions := e.functions.push f })

/-- The definition of a named function. -/
def defineFunction (c : Context) (scope : Option Scope) (name : String)
    (definition : Procedure Stmt) : Run Unit := do
  let home := scope.getD .globals
  if definition.closure && c.frame.isNone then raise (.topLevelClosure name)
  let f ← settle
    (Function.make name home definition c.script (if definition.closure then c.frame else none))
  settle (Function.checkName home name)
  let table ← settle (Function.table home name c)
  if ((← get).functionsAt table).contains name && !definition.replaces then
    raise (.functionExists name)
  let id ← newFunction f
  modify fun e => e.changeFunctions (·.insert name id) table

/-- Where a function is kept by its own account. -/
def homeOf (f : Function) : FunctionTable :=
  match f.scope, f.script with
  | .script, some id => .script id
  | _, _ => .globals

/-- Take a function out of its table and mark it. With `force`, it need not exist. -/
def deleteFunction (c : Context) (scope : Option Scope) (name : String) (force : Bool) :
    Run Unit := do
  if scope ≠ some .script ∧ Text.startsSmall name then raise (.smallFunctionName name)
  if scope = some .script ∧ c.script.isNone then raise (.noScriptForFunction name)
  let e ← get
  match ← settle (e.definedFunction? c scope name) with
  | none => if force then return () else raise (.unknownFunctionToDelete (scopeText scope ++ name))
  | some id =>
    modify fun e => { e with functions := e.functions.modify id.index fun f =>
      { f with deleted := true } }
    match e.function? id with
    | some f => modify fun e => e.changeFunctions (·.erase name) (homeOf f)
    | none => return ()

end Run

end VimL
