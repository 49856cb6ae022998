import VimL.Kind
import VimL.Library.Builtin
import VimL.Syntax
import VimL.Number.Basic

namespace VimL

/-!
# Values and the heap

Every value is an object with an identity, scalars included: a lock is kept on the object, with
the name of the variable whose lock it is. Containers hold references to their items.
-/

structure FunctionId where
  index : Nat
  deriving DecidableEq

structure FrameId where
  index : Nat
  deriving DecidableEq

structure ScriptId where
  index : Nat
  deriving DecidableEq

/-- What a function reference points at. -/
inductive Handler where
  | builtin (b : Builtin)
  /-- A function that the host has registered under this name. -/
  | host (name : String)
  /-- A function that a script has defined, and the name it shows. -/
  | defined (id : FunctionId) (name : String)
  deriving DecidableEq

namespace Handler

def name : Handler → String
  | .builtin b => b.name
  | .host name => name
  | .defined _ name => name

end Handler

/-- A function, with the arguments and the receiver that it is bound to. A receiver is fixed when
it was given explicitly; otherwise an entry of a Dictionary takes that Dictionary. -/
structure Funcref where
  handler : Handler
  arguments : List Ref
  receiver : Option Ref
  fixed : Bool
  deriving DecidableEq

namespace Funcref

def ofHandler (handler : Handler) : Funcref := ⟨handler, [], none, false⟩

def name (f : Funcref) : String := f.handler.name

end Funcref

inductive Value where
  | number (n : Int)
  | float (x : Float)
  | string (s : String)
  | list (items : List Ref)
  | dictionary (entries : Table Ref)
  | blob (bytes : List UInt8)
  | funcref (f : Funcref)

namespace Value

instance : Inhabited Value := ⟨.number 0⟩

def kind : Value → Kind
  | .number _ => .number
  | .float _ => .float
  | .string _ => .string
  | .list _ => .list
  | .dictionary _ => .dictionary
  | .blob _ => .blob
  | .funcref _ => .funcref

/-- Scalars are copied when they are stored; all other values are shared. -/
def isScalar : Value → Bool
  | .number _ | .float _ | .string _ => true
  | _ => false

/-- The values that a lock of depth two or more goes on to. -/
def children : Value → List Ref
  | .list items => items
  | .dictionary entries => entries.values
  | _ => []

/-- The values that a value holds: items and entries, and what a function is bound to. -/
def parts : Value → List Ref
  | .list items => items
  | .dictionary entries => entries.values
  | .funcref f => f.arguments ++ f.receiver.toList
  | _ => []

def ofInt (n : Int) : Value := .number (Number.wrap n)

def ofBool (b : Bool) : Value := .number (if b then 1 else 0)

end Value

/-! ## Variables -/

/-- A table of variables. -/
inductive Place where
  | globals
  | vim
  | script (id : ScriptId)
  | locals (id : FrameId)
  | arguments (id : FrameId)
  deriving DecidableEq

def Place.scope : Place → Scope
  | .globals => .globals
  | .vim => .vim
  | .script _ => .script
  | .locals _ => .locals
  | .arguments _ => .arguments

/-- A name in a table of variables. -/
structure Binding where
  place : Place
  name : String
  deriving DecidableEq

/-- The name with its scope, under which a variable owns locks. It shows neither the script nor the
frame. -/
def Binding.canonicalName (b : Binding) : String := b.place.scope.prefixText ++ b.name

/-! ## Objects -/

/-- What a command has done to the lock of an object. -/
inductive Note where
  /-- A lock has come to it, in the name of the variable that was locked if it was one. -/
  | locked (owner : Option Binding)
  /-- This variable was locked, and the object was its own. -/
  | named (b : Binding)
  | unlocked
  deriving DecidableEq

/-- An object: its value, and its lock. -/
structure Cell where
  value : Value
  locked : Bool
  owner : Option String
  /-- What has happened to the lock, the latest first. Nothing reads it: it is there to speak about
  runs. -/
  notes : List Note

namespace Cell

def fresh (value : Value) : Cell := ⟨value, false, none, []⟩

instance : Inhabited Cell := ⟨fresh default⟩

end Cell

/-- All objects that were ever made, by identity. -/
structure Heap where
  cells : Array Cell

namespace Heap

def empty : Heap := ⟨#[]⟩

def size (h : Heap) : Nat := h.cells.size

def cell (h : Heap) (r : Ref) : Cell := h.cells.getD r.index default

def value (h : Heap) (r : Ref) : Value := (h.cell r).value

def isLocked (h : Heap) (r : Ref) : Bool := (h.cell r).locked

def owner (h : Heap) (r : Ref) : Option String := (h.cell r).owner

def notes (h : Heap) (r : Ref) : List Note := (h.cell r).notes

/-- A new object; its identity is the number of objects before it. -/
def new (h : Heap) (value : Value) : Ref × Heap := (⟨h.size⟩, ⟨h.cells.push (.fresh value)⟩)

def modifyCell (h : Heap) (r : Ref) (f : Cell → Cell) : Heap := ⟨h.cells.modify r.index f⟩

def setValue (h : Heap) (r : Ref) (value : Value) : Heap :=
  h.modifyCell r fun c => { c with value := value }

end Heap

end VimL
