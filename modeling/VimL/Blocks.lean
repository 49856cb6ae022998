import VimL.Interp
import VimL.Pattern.Matcher

namespace VimL

/-!
# Rows of statements

A row ends with the first statement that does not end normally. A pending cancellation ends it
before the next statement. An error is marked by the innermost statement that it leaves.
-/

namespace Engine

/-- The names of the defined functions that are running, outermost first. -/
def runningFunctions (e : Engine) : List String :=
  e.callStack.reverse.filterMap fun
    | .defined name => some name
    | .native _ => none

def throwpoint (e : Engine) : String :=
  match e.runningFunctions with
  | [] => ""
  | names => "function " ++ String.intercalate ".." names

end Engine

namespace Run

/-- Mark the errors that leave a statement with its command and the running functions. -/
def marked {α : Type} (command : String) (m : Run α) : Run α := fun e =>
  match m e with
  | .ok a e => .ok a e
  | .error stop e => .error (stop.mark command e.throwpoint) e

/-- Statements one after the other. -/
def block (exec : Context → Stmt → Run Signal) (c : Context) : List Stmt → Run Signal
  | [] => pure .normal
  | s :: rest => do
    if ← isInterrupted then return .finish
    match ← exec c s with
    | .normal => block exec c rest
    | signal => return signal

/-- A break or continue that no loop takes is an error of the command itself. -/
def strayError (cause : Cause) (command : String) : Stop := .error ⟨cause, some command, ""⟩

end Run

end VimL
