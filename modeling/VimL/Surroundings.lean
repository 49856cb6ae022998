import VimL.Engine
import VimL.Text.CaseMap
import VimL.Text.LetterCase

namespace VimL

/-!
# Options, registers and the environment

Options keep the kind of their default. Registers and environment variables hold text.
-/

namespace Options

/-- The value of an option that exists: the local one, unless the global one is asked for. -/
def find? (o : Options) (scope : Option Scope) (name : String) : Option Ref :=
  match o.globals.find? name with
  | none => none
  | some r => if scope = some .globals then some r else some ((o.locals.find? name).getD r)

/-- Set an option that exists. Without a scope, the local value is dropped. -/
def set (o : Options) (scope : Option Scope) (name : String) (r : Ref) : Options :=
  match scope with
  | some .locals => { o with locals := o.locals.insert name r }
  | some _ => { o with globals := o.globals.insert name r }
  | none => ⟨o.globals.insert name r, o.locals.erase name⟩

end Options

namespace Run

def option (scope : Option Scope) (name : String) : Run Ref := do
  match (← get).options.find? scope name with
  | some r => return r
  | none => raise (.unknownOption name)

/-- Options whose default is a Number take Numbers, all others take texts. -/
def setOption (scope : Option Scope) (name : String) (r : Ref) : Run Unit := do
  match (← get).options.globals.find? name with
  | none => raise (.unknownOptionToSet name)
  | some current =>
    let kept ← match ← value current with
      | .number _ => newInt (← number r)
      | _ => newText (← text r)
    modify fun e => { e with options := e.options.set scope name kept }

/-- Comparisons without a mark ask this option. -/
def ignoresCase : Run Bool := do
  let e ← get
  match e.config.ignoreCaseOption.bind (e.options.find? none) with
  | some r => bool r
  | none => return false

def register? (name : String) : Run (Option String) := do return (← get).registers.find? name

/-- The text of a register; one that was never written is empty. -/
def register (name : String) : Run String := do return (← register? name).getD ""

def setRegister (name text : String) : Run Unit :=
  modify fun e => { e with registers := e.registers.insert name text }

def variableOfEnvironment? (name : String) : Run (Option String) := do
  return (← get).environment.find? name

/-- The system accepts no empty name, no equals sign in a name, and no character zero. -/
def isEnvironmentEntry (name text : String) : Bool :=
  let zero := Char.ofNat 0
  !name.isEmpty && !name.toList.contains '=' && !name.toList.contains zero &&
    !text.toList.contains zero

def setEnvironment (name text : String) : Run Unit := do
  if isEnvironmentEntry name text then
    modify fun e => { e with environment := e.environment.insert name text }
  else internal (.refusedVariable name text)

def unsetEnvironment (name : String) : Run Unit :=
  modify fun e => { e with environment := e.environment.erase name }

end Run

end VimL
