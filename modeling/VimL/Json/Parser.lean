import VimL.Json.Basic
import VimL.Table

namespace VimL.Json

/-!
# Reading JSON

A strict reader over the characters of a text. A fault is reported by the text that begins at it,
so that a message can quote it. Entries with one key overwrite each other in place.
-/

inductive Fault where
  /-- The grammar is broken at the start of this text. -/
  | at (text : List Char)
  /-- An integer has more digits than can be read. -/
  | tooManyDigits

abbrev Reader (α : Type) := List Char → Except Fault (α × List Char)

/-- The white space of the grammar. -/
def isSpace (c : Char) : Bool := c == ' ' || c == '\t' || c == '\n' || c == '\r'

def skipSpace (text : List Char) : List Char := text.dropWhile isSpace

def isAsciiDigit (c : Char) : Bool := decide ('0' ≤ c) && decide (c ≤ '9')

/-! ## Numbers -/

/-- The digits of an integer: a zero stands alone. -/
def scanInteger (text : List Char) : Option (List Char × List Char) :=
  match text with
  | '0' :: rest => some (['0'], rest)
  | c :: rest =>
    if isAsciiDigit c then
      some (c :: rest.takeWhile isAsciiDigit, rest.dropWhile isAsciiDigit)
    else none
  | [] => none

/-- The digits after a point; a point that no digit follows is left alone. -/
def scanFraction (text : List Char) : Option (List Char × List Char) :=
  match text with
  | '.' :: rest =>
    let digits := rest.takeWhile isAsciiDigit
    if digits.isEmpty then none else some (digits, rest.dropWhile isAsciiDigit)
  | _ => none

/-- The sign and the digits of an exponent. -/
def scanExponent (text : List Char) : Option ((Bool × List Char) × List Char) :=
  match text with
  | 'e' :: rest | 'E' :: rest =>
    match rest with
    | '-' :: more => digits true more
    | '+' :: more => digits false more
    | _ => digits false rest
  | _ => none
where
  digits (negative : Bool) (text : List Char) : Option ((Bool × List Char) × List Char) :=
    let found := text.takeWhile isAsciiDigit
    if found.isEmpty then none else some ((negative, found), text.dropWhile isAsciiDigit)

def naturalOf (digits : List Char) : Nat :=
  Text.ofDigits 10 (digits.map fun c => c.toNat - '0'.toNat)

/-- The value of a number's parts; without a fraction and an exponent it is an integer. -/
def numberOf (negative : Bool) (whole : List Char) (fraction : Option (List Char))
    (exponent : Option (Bool × List Char)) : Except Fault Json :=
  match fraction, exponent with
  | none, none =>
    if whole.length ≤ Numeral.maxDecimalDigits then
      let n : Int := naturalOf whole
      .ok (.integer (if negative then -n else n))
    else .error .tooManyDigits
  | _, _ =>
    let places := fraction.getD []
    let power : Int := match exponent with
      | none => 0
      | some (true, digits) => -(naturalOf digits : Int)
      | some (false, digits) => naturalOf digits
    .ok (.real (Decimal.ofDecimal negative (naturalOf (whole ++ places)) (power - places.length)))

def readNumber : Reader Json := fun text =>
  let (negative, unsigned) := match text with
    | '-' :: rest => (true, rest)
    | _ => (false, text)
  match scanInteger unsigned with
  | none => .error (.at text)
  | some (whole, rest) =>
    let (fraction, rest) := match scanFraction rest with
      | some (digits, rest) => (some digits, rest)
      | none => (none, rest)
    let (exponent, rest) := match scanExponent rest with
      | some (found, rest) => (some found, rest)
      | none => (none, rest)
    match numberOf negative whole fraction exponent with
    | .ok j => .ok (j, rest)
    | .error fault => .error fault

/-! ## Strings -/

/-- The character that a letter stands for after a backslash. -/
def shortEscapeOf? (letter : Char) : Option Char :=
  match letter with
  | '"' => some '"'
  | '\\' => some '\\'
  | '/' => some '/'
  | 'b' => some (Char.ofNat 0x08)
  | 'f' => some (Char.ofNat 0x0C)
  | 'n' => some '\n'
  | 'r' => some '\r'
  | 't' => some '\t'
  | _ => none

def hexCode? (digits : List Char) : Option Nat :=
  (digits.mapM Text.hexValue?).map (Text.ofDigits 16)

def isHighSurrogate (code : Nat) : Bool := decide (0xD800 ≤ code) && decide (code ≤ 0xDBFF)

def isLowSurrogate (code : Nat) : Bool := decide (0xDC00 ≤ code) && decide (code ≤ 0xDFFF)

/-- A surrogate without its partner is no character; it reads as the replacement character. -/
def charOfCode (code : Nat) : Char :=
  if 0xD800 ≤ code ∧ code ≤ 0xDFFF then Char.ofNat 0xFFFD else Char.ofNat code

def joinSurrogates (high low : Nat) : Char :=
  Char.ofNat (0x10000 + (high - 0xD800) * 0x400 + (low - 0xDC00))

/-- The code after a backslash and `u`. The text has to go on after its four digits. -/
def unicodeEscape? : List Char → Option (Nat × List Char)
  | a :: b :: c :: d :: rest =>
    if rest.isEmpty then none else (hexCode? [a, b, c, d]).map fun code => (code, rest)
  | _ => none

/-- Read to the closing quote; `opening` is the text from the opening quote on. -/
def stringBody (opening : List Char) : Nat → Reader (List Char)
  | 0, _ => .error (.at opening)
  | _ + 1, [] => .error (.at opening)
  | _ + 1, '"' :: rest => .ok ([], rest)
  | _ + 1, ['\\'] => .error (.at opening)
  | fuel + 1, '\\' :: 'u' :: more =>
    match unicodeEscape? more with
    | none => .error (.at ('u' :: more))
    | some (code, rest) =>
      match partner code rest with
      | .error fault => .error fault
      | .ok (c, rest) => append c (stringBody opening fuel rest)
  | fuel + 1, '\\' :: letter :: rest =>
    match shortEscapeOf? letter with
    | none => .error (.at ('\\' :: letter :: rest))
    | some c => append c (stringBody opening fuel rest)
  | fuel + 1, c :: rest =>
    if c.toNat ≤ 0x1F then .error (.at (c :: rest))
    else append c (stringBody opening fuel rest)
where
  append (c : Char) : Except Fault (List Char × List Char) → Except Fault (List Char × List Char)
    | .ok (cs, rest) => .ok (c :: cs, rest)
    | .error fault => .error fault
  /-- A high surrogate looks for a low one right after it. -/
  partner (code : Nat) (rest : List Char) : Except Fault (Char × List Char) :=
    match rest with
    | '\\' :: 'u' :: more =>
      if isHighSurrogate code ∧ 4 < more.length then
        match unicodeEscape? more with
        | none => .error (.at ('u' :: more))
        | some (low, after) =>
          if isLowSurrogate low then .ok (joinSurrogates code low, after)
          else .ok (charOfCode code, rest)
      else .ok (charOfCode code, rest)
    | _ => .ok (charOfCode code, rest)

def readString (input : List Char) : Except Fault (String × List Char) :=
  match input with
  | '"' :: rest =>
    match stringBody input (rest.length + 1) rest with
    | .ok (cs, rest) => .ok (String.ofList cs, rest)
    | .error fault => .error fault
  | _ => .error (.at input)

/-! ## Values -/

/-- Words and numbers. -/
def readScalar : Reader Json := fun input =>
  match input with
  | 'n' :: 'u' :: 'l' :: 'l' :: rest => .ok (.null, rest)
  | 't' :: 'r' :: 'u' :: 'e' :: rest => .ok (.boolean true, rest)
  | 'f' :: 'a' :: 'l' :: 's' :: 'e' :: rest => .ok (.boolean false, rest)
  | 'N' :: 'a' :: 'N' :: rest => .ok (.real (0.0 / 0.0), rest)
  | 'I' :: 'n' :: 'f' :: 'i' :: 'n' :: 'i' :: 't' :: 'y' :: rest => .ok (.real (1.0 / 0.0), rest)
  | '-' :: 'I' :: 'n' :: 'f' :: 'i' :: 'n' :: 'i' :: 't' :: 'y' :: rest =>
    .ok (.real (-1.0 / 0.0), rest)
  | _ => readNumber input

mutual

/-- Each step of the readers below takes at least one character or descends one reader, so fuel
above twice the length of the text is never used up. -/
def readValue : Nat → Reader Json
  | 0, input => .error (.at input)
  | fuel + 1, input =>
    match input with
    | '"' :: _ =>
      match readString input with
      | .ok (s, rest) => .ok (.text s, rest)
      | .error fault => .error fault
    | '[' :: rest =>
      match skipSpace rest with
      | ']' :: after => .ok (.array [], after)
      | items =>
        match readItems fuel items with
        | .ok (found, after) => .ok (.array found, after)
        | .error fault => .error fault
    | '\x7b' :: rest =>
      match skipSpace rest with
      | '\x7d' :: after => .ok (.object [], after)
      | entries =>
        match readEntries fuel entries with
        | .ok (found, after) => .ok (.object (Table.ofList found).entries, after)
        | .error fault => .error fault
    | _ => readScalar input

/-- One item at least, up to the closing bracket. -/
def readItems : Nat → Reader (List Json)
  | 0, input => .error (.at input)
  | fuel + 1, input =>
    match readValue fuel input with
    | .error fault => .error fault
    | .ok (item, rest) =>
      match skipSpace rest with
      | ']' :: after => .ok ([item], after)
      | ',' :: more =>
        match readItems fuel (skipSpace more) with
        | .ok (items, after) => .ok (item :: items, after)
        | .error fault => .error fault
      | other => .error (.at other)

/-- One entry at least, up to the closing brace. -/
def readEntries : Nat → Reader (List (String × Json))
  | 0, input => .error (.at input)
  | fuel + 1, input =>
    match readString input with
    | .error fault => .error fault
    | .ok (key, rest) =>
      match skipSpace rest with
      | ':' :: value =>
        match readValue fuel (skipSpace value) with
        | .error fault => .error fault
        | .ok (j, rest) =>
          match skipSpace rest with
          | '\x7d' :: after => .ok ([(key, j)], after)
          | ',' :: more =>
            match readEntries fuel (skipSpace more) with
            | .ok (entries, after) => .ok ((key, j) :: entries, after)
            | .error fault => .error fault
          | other => .error (.at other)
      | other => .error (.at other)

end

/-- Read a whole text. A byte order mark is a fault at the very start. -/
def parse (input : List Char) : Except Fault Json :=
  if input.head? = some (Char.ofNat 0xFEFF) then .error (.at input)
  else
    match readValue (2 * input.length + 2) (skipSpace input) with
    | .error fault => .error fault
    | .ok (j, rest) =>
      match skipSpace rest with
      | [] => .ok j
      | extra => .error (.at extra)

end VimL.Json
