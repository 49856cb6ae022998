import VimL.Engine
import VimL.Json.Parser
import VimL.Text.Blank

namespace VimL

/-!
# JSON of values

Encoding fails for a Funcref, and for a container inside itself; containers that are only shared
are written each time. Decoding makes new objects throughout.
-/

namespace Heap

/-- Convert a row of items, up to the first failure. -/
def convertEach (convert : Ref → Except Stop Json) : List Ref → Except Stop (List Json)
  | [] => .ok []
  | r :: rest =>
    match convert r with
    | .error stop => .error stop
    | .ok j =>
      match convertEach convert rest with
      | .error stop => .error stop
      | .ok js => .ok (j :: js)

/-- Each round of recursion enters one more container, so fuel above the number of objects is
never used up. -/
def toJsonFrom (h : Heap) : Nat → List Ref → Ref → Except Stop Json
  | 0, _, _ => .error (.ofCause .nestedTooDeep)
  | fuel + 1, path, r =>
    match h.value r with
    | .number n => .ok (.integer n)
    | .float x => .ok (.real x)
    | .string s => .ok (.text s)
    | .blob bytes => .ok (.array (bytes.map fun b => .integer b.toNat))
    | .funcref _ => .error (.ofCause .funcrefInJson)
    | .list items =>
      if r ∈ path then .error (.ofCause .nestedTooDeep)
      else (convertEach (toJsonFrom h fuel (r :: path)) items).map .array
    | .dictionary entries =>
      if r ∈ path then .error (.ofCause .nestedTooDeep)
      else (convertEach (toJsonFrom h fuel (r :: path)) entries.values).map fun js =>
        .object (entries.keys.zip js)

def toJson (h : Heap) (r : Ref) : Except Stop Json := h.toJsonFrom (h.size + 1) [] r

end Heap

namespace Json

mutual

/-- A new script value. -/
def toValue : Json → Run Ref
  | .null => Run.newInt 0
  | .boolean b => Run.newBool b
  | .integer n => Run.newInt n
  | .real x => Run.new (.float x)
  | .text s => Run.newText s
  | .array items => do Run.new (.list (← toValues items))
  | .object entries => do Run.new (.dictionary (.ofList (← toEntries entries)))

def toValues : List Json → Run (List Ref)
  | [] => pure []
  | item :: rest => do
    let r ← toValue item
    return r :: (← toValues rest)

def toEntries : List (String × Json) → Run (List (String × Ref))
  | [] => pure []
  | (key, value) :: rest => do
    let r ← toValue value
    return (key, r) :: (← toEntries rest)

end

end Json

namespace Run

def encodeJson (r : Ref) : Run String := do
  return (← settle ((← get).heap.toJson r)).toText

/-- The value that a text writes; a blank text stands for zero. -/
def decodeJson (text : String) : Run Ref := do
  if text.toList.all Text.isBlank then newInt 0
  else
    match Json.parse text.toList with
    | .ok j => j.toValue
    | .error (.at rest) => raise (.badJson (String.ofList rest))
    | .error .tooManyDigits => internal .tooManyDigits

end Run

end VimL
