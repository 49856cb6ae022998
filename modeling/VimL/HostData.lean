import VimL.Decimal.Layout
import VimL.Engine
import VimL.Text.Escaped

namespace VimL

/-!
# Data of the host

Data that is handed to scripts and received from them. Going in, every part becomes a new object;
coming out, a container inside itself shows as a cycle, which cannot go in again.
-/

inductive HostData where
  | none
  | bool (b : Bool)
  | int (n : Int)
  | float (x : Float)
  | text (s : String)
  | binary (bytes : List UInt8)
  | list (items : List HostData)
  | tuple (items : List HostData)
  | dict (entries : List (HostData × HostData))
  /-- Something that no script value stands for. -/
  | object
  /-- A script value as it is. -/
  | script (r : Ref)
  /-- A container that encloses this place. -/
  | cycle

namespace HostData

instance : Inhabited HostData := ⟨.none⟩

def typeName : HostData → String
  | .none => "NoneType"
  | .bool _ => "bool"
  | .int _ => "int"
  | .float _ => "float"
  | .text _ => "str"
  | .binary _ => "bytes"
  | .list _ | .cycle => "list"
  | .tuple _ => "tuple"
  | .dict _ => "dict"
  | .object | .script _ => "object"

/-! ## Literals -/

mutual

def literal : HostData → String
  | .none => "None"
  | .bool b => if b then "True" else "False"
  | .int n => Number.toText n
  | .float x => Decimal.diagnosticText x
  | .text s => Text.escape s
  | .binary bytes => Text.escapeBytes bytes
  | .list items => "[" ++ literals items ++ "]"
  | .tuple [item] => "(" ++ literal item ++ ",)"
  | .tuple items => "(" ++ literals items ++ ")"
  | .dict entries => "\x7b" ++ entryLiterals entries ++ "\x7d"
  | .cycle => "[...]"
  | .object | .script _ => "<object>"

def literals : List HostData → String
  | [] => ""
  | [item] => literal item
  | item :: rest => literal item ++ ", " ++ literals rest

def entryLiterals : List (HostData × HostData) → String
  | [] => ""
  | [(key, value)] => literal key ++ ": " ++ literal value
  | (key, value) :: rest => literal key ++ ": " ++ literal value ++ ", " ++ entryLiterals rest

end

/-- A key as the text of an entry. -/
def keyText : HostData → String
  | .text s => s
  | d => d.literal

/-! ## Keys -/

/-- The exact value of a number; truth values count as zero and one. -/
def exactValue? : HostData → Option (Int × Nat)
  | .bool b => some (if b then 1 else 0, 1)
  | .int n => some (n, 1)
  | .float x =>
    match Decimal.Reading.ofFloat x with
    | .finite d =>
      let (n, den) := Decimal.scale d.significand 2 d.exponent
      some (if d.negative then -n else n, den)
    | _ => Option.none
  | _ => Option.none

mutual

/-- Do two keys name the same entry? -/
def sameKey : HostData → HostData → Bool
  | .none, .none => true
  | .text s, .text t => s == t
  | .binary x, .binary y => x == y
  | .tuple xs, .tuple ys => sameKeys xs ys
  | .float x, .float y => x == y
  | x, y =>
    match x.exactValue?, y.exactValue? with
    | some (m, d), some (n, e) => m * e == n * d
    | _, _ => false

def sameKeys : List HostData → List HostData → Bool
  | [], [] => true
  | x :: xs, y :: ys => sameKey x y && sameKeys xs ys
  | _, _ => false

end

/-- Later entries overwrite earlier ones in place; the key that was there first stays. -/
def insertEntry (key value : HostData) :
    List (HostData × HostData) → List (HostData × HostData)
  | [] => [(key, value)]
  | (other, previous) :: rest =>
    if other.sameKey key then (other, value) :: rest
    else (other, previous) :: insertEntry key value rest

def dictOf (entries : List (HostData × HostData)) : HostData :=
  .dict (entries.foldl (fun found (key, value) => insertEntry key value found) [])

/-! ## Conversions -/

mutual

/-- The first part that no script value stands for, by the name of its type. -/
def unconvertible? : HostData → Option String
  | .object => some "object"
  | .list items | .tuple items => anyUnconvertible? items
  | .dict entries => anyEntryUnconvertible? entries
  | _ => Option.none

def anyUnconvertible? : List HostData → Option String
  | [] => Option.none
  | item :: rest => (unconvertible? item).or (anyUnconvertible? rest)

def anyEntryUnconvertible? : List (HostData × HostData) → Option String
  | [] => Option.none
  | (_, value) :: rest => (unconvertible? value).or (anyEntryUnconvertible? rest)

end

/-- The message for data of a type that no script value stands for. -/
def unconvertibleMessage (type : String) : String :=
  "Cannot convert " ++ type ++ " to a script value"

/-- A script value that is handed in as it is. -/
def handed : HostData → List Ref
  | .script r => [r]
  | _ => []

mutual

/-- A new script value. -/
def toValue : HostData → Run Ref
  | .none => Run.newInt 0
  | .bool b => Run.newBool b
  | .int n => Run.newInt n
  | .float x => Run.new (.float x)
  | .text s => Run.newText s
  | .binary bytes => Run.new (.blob bytes)
  | .list items | .tuple items => do Run.new (.list (← toValues items))
  | .dict entries => do Run.new (.dictionary (.ofList (← toEntries entries)))
  | .script r => pure r
  | .object | .cycle => Run.internal .unconvertible

def toValues : List HostData → Run (List Ref)
  | [] => pure []
  | item :: rest => do
    let r ← toValue item
    Run.handOn item.handed
    return r :: (← toValues rest)

def toEntries : List (HostData × HostData) → Run (List (String × Ref))
  | [] => pure []
  | (key, value) :: rest => do
    let r ← toValue value
    Run.handOn value.handed
    return (key.keyText, r) :: (← toEntries rest)

end

end HostData

namespace Heap

/-- Each round of recursion enters one more container, so fuel above the number of objects is
never used up. -/
def toHostFrom (h : Heap) : Nat → List Ref → Ref → HostData
  | 0, _, _ => .cycle
  | fuel + 1, path, r =>
    match h.value r with
    | .number n => .int n
    | .float x => .float x
    | .string s => .text s
    | .blob bytes => .binary bytes
    | .funcref _ => .script r
    | .list items =>
      if r ∈ path then .cycle else .list (items.map (toHostFrom h fuel (r :: path)))
    | .dictionary entries =>
      if r ∈ path then .cycle
      else .dict (entries.entries.map fun (key, v) =>
        (.text key, toHostFrom h fuel (r :: path) v))

def toHost (h : Heap) (r : Ref) : HostData := h.toHostFrom (h.size + 1) [] r

end Heap

end VimL
