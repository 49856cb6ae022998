import VimL.Error

namespace VimL

/-!
# Ways to stop short

Besides script errors, which a script can catch, a run can end its script unit early, fail in a
way that no script sees, or use up its fuel.
-/

/-- Why the engine itself fails. -/
inductive Failure where
  -- trees that no parser makes
  | unknownOperator (text : String)
  | noEntryTarget
  | missingDefault (parameter : String)
  -- calls
  | missingFunction
  | wrongCount
  | hostFailed
  | unconvertible
  -- the surroundings
  | tooManyDigits
  | refusedVariable (name text : String)
  -- operations that do not check what they are given
  | boundTooLarge (pattern : String)
  | unreadableSeparator (pattern : String)
  | beforeBlob (start : Int)
  | foreignLetter
  | itemGone
  | byteGone
  | positionGone
  /-- An expression was evaluated on its own, and asked to end a script unit. -/
  | noScriptUnit
  deriving DecidableEq

inductive Stop where
  | error (e : ScriptError)
  /-- The whole script unit ends, by request or by a cancellation inside a function. -/
  | finished
  /-- The engine itself fails. No catch and no finally block runs. -/
  | internal (failure : Failure)
  | exhausted

namespace Stop

def ofCause (cause : Cause) : Stop := .error (.ofCause cause)

/-- Mark a script error; the other ways to stop short carry no mark. -/
def mark (command throwpoint : String) : Stop → Stop
  | .error e => .error (e.mark command throwpoint)
  | stop => stop

end Stop

end VimL
