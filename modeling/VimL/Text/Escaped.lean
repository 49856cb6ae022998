import VimL.Text.Printable

namespace VimL.Text

/-!
# Escaped literals

Diagnostics show texts and bytes on one line. The single quote encloses them unless it occurs and
the double quote does not; what has no glyph is written as a numbered escape.
-/

def hexDigits (n : Nat) : List Char := Nat.toDigits 16 n

/-- Digits padded with zeros to a width. -/
def padZeros (width : Nat) (digits : List Char) : List Char :=
  List.replicate (width - digits.length) '0' ++ digits

def enclosingQuote (hasSingle hasDouble : Bool) : Char :=
  if hasSingle && !hasDouble then '"' else '\''

/-- The escapes that both texts and bytes share. -/
def escapeCommon? (quote c : Char) : Option (List Char) :=
  if c = quote ∨ c = '\\' then some ['\\', c]
  else if c = '\t' then some ['\\', 't']
  else if c = '\n' then some ['\\', 'n']
  else if c = '\r' then some ['\\', 'r']
  else if c.toNat < 0x20 ∨ c.toNat = 0x7F then some ('\\' :: 'x' :: padZeros 2 (hexDigits c.toNat))
  else none

def escapeChar (quote c : Char) : List Char :=
  match escapeCommon? quote c with
  | some escaped => escaped
  | none =>
    if c.toNat < 0x7F ∨ isPrintable c then [c]
    else if c.toNat ≤ 0xFF then '\\' :: 'x' :: padZeros 2 (hexDigits c.toNat)
    else if c.toNat ≤ 0xFFFF then '\\' :: 'u' :: padZeros 4 (hexDigits c.toNat)
    else '\\' :: 'U' :: padZeros 8 (hexDigits c.toNat)

/-- The literal of a text. -/
def escape (text : String) : String :=
  let chars := text.toList
  let quote := enclosingQuote (chars.contains '\'') (chars.contains '"')
  String.ofList (quote :: chars.flatMap (escapeChar quote) ++ [quote])

def escapeByte (quote : Char) (byte : UInt8) : List Char :=
  let c := Char.ofNat byte.toNat
  match escapeCommon? quote c with
  | some escaped => escaped
  | none =>
    if byte.toNat < 0x7F then [c] else '\\' :: 'x' :: padZeros 2 (hexDigits byte.toNat)

/-- The literal of a row of bytes. -/
def escapeBytes (bytes : List UInt8) : String :=
  let quote := enclosingQuote (bytes.contains 39) (bytes.contains 34)
  String.ofList ('b' :: quote :: bytes.flatMap (escapeByte quote) ++ [quote])

end VimL.Text
