import VimL.Decimal.Layout
import VimL.Number.Numeral
import VimL.Text.Escaped

namespace VimL

/-!
# JSON documents and their compact text

No white space is written. Inside strings only quotes, backslashes and control characters are
escaped; NaN and the infinities have the names that JavaScript gives them.
-/

inductive Json where
  | null
  | boolean (b : Bool)
  | integer (n : Int)
  | real (x : Float)
  | text (s : String)
  | array (items : List Json)
  | object (entries : List (String × Json))

namespace Json

/-- The letter that stands for a control character after a backslash. -/
def shortEscape? (c : Char) : Option Char :=
  if c = '\n' then some 'n'
  else if c = '\r' then some 'r'
  else if c = '\t' then some 't'
  else if c.toNat = 0x0C then some 'f'
  else if c.toNat = 0x08 then some 'b'
  else none

def encodeChar (c : Char) : List Char :=
  if c = '"' ∨ c = '\\' then ['\\', c]
  else match shortEscape? c with
    | some letter => ['\\', letter]
    | none =>
      if c.toNat < 0x20 then '\\' :: 'u' :: Text.padZeros 4 (Text.hexDigits c.toNat) else [c]

def encodeString (s : String) : List Char := '"' :: s.toList.flatMap encodeChar ++ ['"']

mutual

def encode : Json → List Char
  | .null => "null".toList
  | .boolean b => (if b then "true" else "false").toList
  | .integer n => (Number.toText n).toList
  | .real x => (Decimal.exchangeText x).toList
  | .text s => encodeString s
  | .array items => '[' :: encodeItems items ++ [']']
  | .object entries => '\x7b' :: encodeEntries entries ++ ['\x7d']

def encodeItems : List Json → List Char
  | [] => []
  | [item] => encode item
  | item :: rest => encode item ++ ',' :: encodeItems rest

def encodeEntries : List (String × Json) → List Char
  | [] => []
  | [(key, value)] => encodeString key ++ ':' :: encode value
  | (key, value) :: rest => encodeString key ++ ':' :: encode value ++ ',' :: encodeEntries rest

end

def toText (j : Json) : String := String.ofList j.encode

end Json

end VimL
