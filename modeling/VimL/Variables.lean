import VimL.Engine
import VimL.Text.LetterCase

namespace VimL

/-!
# Variables

A name is looked up in one table, which its scope and the context choose. Local names and
arguments are also looked up in the frames that a closure goes on to, from the inside out, and a
local that such a frame binds is written there.
-/

namespace Engine

def tableAt (e : Engine) : Place → Table Ref
  | .globals => e.globals
  | .vim => e.vim
  | .script id => ((e.script? id).map (·.bindings)).getD .empty
  | .locals id => ((e.frame? id).map (·.locals)).getD .empty
  | .arguments id => ((e.frame? id).map (·.arguments)).getD .empty

def changeTable (e : Engine) (change : Table Ref → Table Ref) : Place → Engine
  | .globals => { e with globals := change e.globals }
  | .vim => { e with vim := change e.vim }
  | .script id =>
    { e with scripts := e.scripts.modify id.index fun s =>
        { s with bindings := change s.bindings } }
  | .locals id =>
    { e with frames := e.frames.modify id.index fun f => { f with locals := change f.locals } }
  | .arguments id =>
    { e with frames := e.frames.modify id.index fun f =>
        { f with arguments := change f.arguments } }

/-- A frame and those that it goes on to. Frames are older than the frames that go on to them, so
fuel above the number of the frame is never used up. -/
def chainFrom (e : Engine) : Nat → FrameId → List FrameId
  | 0, _ => []
  | fuel + 1, id =>
    id :: match (e.frame? id).bind (·.closure) with
      | some outer => chainFrom e fuel outer
      | none => []

def chain (e : Engine) (id : FrameId) : List FrameId := e.chainFrom (id.index + 1) id

/-- The function that a context runs needs a receiver. -/
def inDictFunction (e : Engine) (c : Context) : Bool :=
  ((c.frame.bind e.frame?).bind fun f => e.function? f.function).any (·.definition.dict)

end Engine

namespace Context

/-- Without a prefix, a name is local in a function, a script variable in a script, and global on
the command line. -/
def effectiveScope (c : Context) (scope : Option Scope) : Scope :=
  match scope with
  | some s => s
  | none => if c.frame.isSome then .locals else if c.script.isSome then .script else .globals

/-- The name with its scope, under which a variable owns locks. -/
def canonicalName (c : Context) (v : Variable) : String :=
  (c.effectiveScope v.scope).prefixText ++ v.name

/-- The table of a scope itself, or why there is none here. -/
def place (c : Context) (scope : Scope) (name : String) (writing : Bool) : Except Stop Place :=
  match scope with
  | .globals => .ok .globals
  | .vim => .ok .vim
  | .script =>
    match c.script with
    | some id => .ok (.script id)
    | none =>
      if writing then .error (.ofCause (.illegalName ("s:" ++ name)))
      else .error (.ofCause (.noScriptForVariable name))
  | .locals =>
    match c.frame with
    | some id => .ok (.locals id)
    | none => .error (.ofCause (.illegalName ("l:" ++ name)))
  | .arguments =>
    match c.frame with
    | some id => .ok (.arguments id)
    | none => .error (.ofCause (.illegalName ("a:" ++ name)))

end Context

namespace Engine

/-- The innermost of the frames of a closure that binds a name. -/
def binder? (e : Engine) (c : Context) (scope : Scope) (name : String) : Option Place :=
  match c.frame with
  | none => none
  | some id =>
    let placeOf (f : FrameId) : Place := if scope = .arguments then .arguments f else .locals f
    ((e.chain id).map placeOf).find? fun p => (e.tableAt p).contains name

/-- The table that a name is looked up in, if there is one in which it may be bound. -/
def placeOf? (e : Engine) (c : Context) (scope : Option Scope) (name : String) :
    Except Stop (Option Place) :=
  let effective := c.effectiveScope scope
  if (effective = .locals ∨ effective = .arguments) ∧ c.frame.isSome then
    .ok (e.binder? c effective name)
  else (c.place effective name false).map some

/-- The object that a name is bound to. -/
def resolve (e : Engine) (c : Context) (scope : Option Scope) (name : String) :
    Except Stop (Option Ref) :=
  (e.placeOf? c scope name).map fun found => found.bind fun p => (e.tableAt p).find? name

/-- The variable that this is the object of. -/
def binding? (e : Engine) (c : Context) (v : Variable) (r : Ref) : Option Binding :=
  match e.placeOf? c v.scope v.name with
  | .ok (some p) => if (e.tableAt p).find? v.name = some r then some ⟨p, v.name⟩ else none
  | _ => none

/-- Arguments, the variables of the editor and the receiver cannot be bound anew. -/
def isReadOnly (e : Engine) (c : Context) (v : Variable) : Bool :=
  v.scope = some .arguments || v.scope = some .vim ||
    (v.name == "self" && (v.scope = none || v.scope = some .locals) && e.inDictFunction c)

/-- The object is locked in the name of this variable. -/
def isLockedAs (e : Engine) (c : Context) (v : Variable) (r : Ref) : Bool :=
  e.heap.isLocked r && e.heap.owner r == some (c.canonicalName v)

/-- May the variable be bound anew? -/
def checkWritable (e : Engine) (c : Context) (v : Variable) : Except Stop Unit :=
  if v.scope = some .script ∧ c.script.isNone then .error (.ofCause (.illegalName v.text))
  else if (v.scope = some .arguments ∨ v.scope = some .locals) ∧ c.frame.isNone then
    .error (.ofCause (.illegalName v.text))
  else if e.isReadOnly c v then .error (.ofCause (.readOnly v.text))
  else
    match e.resolve c v.scope v.name with
    | .error stop => .error stop
    | .ok (some r) =>
      if e.isLockedAs c v r then .error (.ofCause (.locked v.text)) else .ok ()
    | .ok none => .ok ()

/-- The table that a variable is written to. -/
def writePlace (e : Engine) (c : Context) (v : Variable) : Except Stop Place :=
  let effective := c.effectiveScope v.scope
  match (if effective = .locals then e.binder? c effective v.name else none) with
  | some p => .ok p
  | none => c.place effective v.name true

def isFuncref (e : Engine) (r : Ref) : Bool :=
  match e.heap.value r with
  | .funcref _ => true
  | _ => false

end Engine

namespace Run

def resolve (c : Context) (scope : Option Scope) (name : String) : Run (Option Ref) := do
  settle ((← get).resolve c scope name)

/-- The object of a variable that has to exist. -/
def lookup (c : Context) (v : Variable) : Run Ref := do
  match ← resolve c v.scope v.name with
  | some r => return r
  | none => raise (.undefinedVariable v.text)

/-- Bind a variable to a copy of a scalar or to any other value itself. -/
def store (c : Context) (v : Variable) (r : Ref) : Run Unit := do
  let e ← get
  settle (e.checkWritable c v)
  if e.isFuncref r && c.effectiveScope v.scope = .globals && Text.startsSmall v.name then
    raise (.smallFuncrefName v.text)
  let p ← settle (e.writePlace c v)
  let s ← stored r
  modify fun e => (e.changeTable (·.insert v.name s) p).note (.bound c ⟨p, v.name⟩)

/-- Take a variable out of the table of its scope. -/
def unbind (c : Context) (v : Variable) : Run Unit := do
  if v.scope = some .arguments ∨ v.scope = some .vim then raise (.cannotDelete v.text)
  let p ← settle (c.place (c.effectiveScope v.scope) v.name true)
  let e ← get
  match (e.tableAt p).find? v.name with
  | none => raise (.noSuchVariable v.text)
  | some r =>
    if e.isLockedAs c v r then raise (.locked v.text)
    modify fun e => (e.changeTable (·.erase v.name) p).note (.unbound c ⟨p, v.name⟩)

end Run

end VimL
