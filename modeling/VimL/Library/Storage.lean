import VimL.Json.Exchange
import VimL.Surroundings

namespace VimL.Library

/-!
# Native functions on stored and exchanged texts
-/

open Run

def jsonEncode (r : Ref) : Run Ref := do newText (← encodeJson r)

def jsonDecode (r : Ref) : Run Ref := do decodeJson (← text r)

/-! ## Registers -/

/-- The quote names the register that is used without a name. -/
def registerName (name : String) : String := if name.isEmpty then "\"" else name

def getreg (r : Option Ref) : Run Ref := do
  let name ← match r with
    | some r => text r
    | none => pure ""
  newText (← register (registerName (Text.lower name)))

def textsOf : List Ref → Run (List String)
  | [] => pure []
  | r :: rest => do
    let s ← text r
    return s :: (← textsOf rest)

/-- The items of a List are lines. -/
def linesOf (r : Ref) : Run String := do
  match ← value r with
  | .list items => return String.intercalate "\n" (← textsOf items)
  | v => settle v.toText

/-- A name in capitals appends to the register of the small letters. -/
def setreg (r content : Ref) : Run Ref := do
  let name := registerName (← text r)
  let added ← linesOf content
  let small := Text.lower name
  let before ← if Text.isAllCapital name.toList then register small else pure ""
  setRegister small (before ++ added)
  newInt 0

/-! ## Environment -/

def getenv (r : Ref) : Run Ref := do
  match ← variableOfEnvironment? (← text r) with
  | some s => newText s
  | none => newInt 0

def setenv (r content : Ref) : Run Ref := do
  let name ← text r
  setEnvironment name (← text content)
  newInt 0

end VimL.Library
