import VimL.Decimal.Layout
import VimL.Number.Numeral
import VimL.Text.Escaped
import VimL.Text.Quoted
import VimL.Value

namespace VimL

/-!
# The text of values

The text of a value is written as a script would write it. Dots stand for a container inside
itself and for one that is nested too deep.
-/

/-- Two capital hexadecimal digits for each byte, and a dot after every fourth. -/
def blobText (bytes : List UInt8) : String :=
  String.ofList ("0z".toList ++ groups 0 bytes)
where
  groups (count : Nat) : List UInt8 → List Char
    | [] => []
    | b :: rest =>
      let digits := (Text.padZeros 2 (Text.hexDigits b.toNat)).map Char.toUpper
      let dot := if count % 4 = 0 ∧ count ≠ 0 then ['.'] else []
      dot ++ digits ++ groups (count + 1) rest

def commaSeparated (texts : List String) : String := String.intercalate ", " texts

def listText (texts : List String) : String := "[" ++ commaSeparated texts ++ "]"

def dictionaryText (texts : List (String × String)) : String :=
  "\x7b" ++ commaSeparated (texts.map fun (key, text) => Text.quote key ++ ": " ++ text) ++ "\x7d"

def functionText (parts : List String) : String := "function(" ++ commaSeparated parts ++ ")"

namespace Heap

/-- The text of a value in which containers may be nested `depth` deep; `path` holds the
containers that it lies in. -/
def textAt (h : Heap) : Nat → List Ref → Ref → String
  | 0, _, r =>
    match h.value r with
    | .number n => Number.toText n
    | .float x => Decimal.scriptText x
    | .string s => Text.quote s
    | .blob bytes => blobText bytes
    | .list _ => "[...]"
    | .dictionary _ => "\x7b...\x7d"
    | .funcref f =>
      let arguments := if f.arguments.isEmpty then [] else ["[...]"]
      let receiver := if f.receiver.isSome ∧ f.fixed then ["\x7b...\x7d"] else []
      functionText (Text.quote f.name :: arguments ++ receiver)
  | depth + 1, path, r =>
    match h.value r with
    | .number n => Number.toText n
    | .float x => Decimal.scriptText x
    | .string s => Text.quote s
    | .blob bytes => blobText bytes
    | .list items =>
      if r ∈ path then "[...]" else listText (items.map (textAt h depth (r :: path)))
    | .dictionary entries =>
      if r ∈ path then "\x7b...\x7d"
      else dictionaryText (entries.entries.map fun (key, v) => (key, textAt h depth (r :: path) v))
    | .funcref f =>
      let arguments :=
        if f.arguments.isEmpty then []
        else match depth with
          | 0 => ["[...]"]
          | inner + 1 => [listText (f.arguments.map (textAt h inner path))]
      let receiver :=
        match f.receiver with
        | some d => if f.fixed then [textAt h depth path d] else []
        | none => []
      functionText (Text.quote f.name :: arguments ++ receiver)

/-- A String shows raw and a Funcref by its name. -/
def echoText (h : Heap) (depth : Nat) (r : Ref) : String :=
  match h.value r with
  | .string s => s
  | .funcref f => f.name
  | _ => h.textAt depth [] r

/-- A String stands for itself where other values are shown. -/
def plainText (h : Heap) (depth : Nat) (r : Ref) : String :=
  match h.value r with
  | .string s => s
  | _ => h.textAt depth [] r

end Heap

end VimL
