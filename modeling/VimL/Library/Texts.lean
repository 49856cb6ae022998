import VimL.Library.Search
import VimL.Render

namespace VimL.Library

/-!
# Native functions on texts
-/

open Run

def string (r : Ref) : Run Ref := do
  let e ← MonadState.get
  newText (e.heap.textAt e.config.renderDepth [] r)

def type (r : Ref) : Run Ref := do newInt (← value r).kind.code

def join (list : Ref) (separator : Option Ref) : Run Ref := do
  match ← value list with
  | .list items =>
    let between ← match separator with
      | some r => text r
      | none => pure " "
    let e ← MonadState.get
    newText (String.intercalate between (items.map (e.heap.plainText e.config.renderDepth)))
  | _ => raise .listRequired

/-- One or more characters of white space. -/
def blankRun : Pattern := ⟨.rounds .more 1 none (.char (.oneOf [.space true])), false⟩

/-- The parts between matches; empty matches separate nothing. -/
def partsBetween (chars : List Char) (start : Nat) : List Pattern.Found → List (List Char)
  | [] => [chars.drop start]
  | found :: rest =>
    if found.first = found.last then partsBetween chars start rest
    else
      ((chars.drop start).take (found.first - start)) :: partsBetween chars found.last rest

/-- Drop an empty part at the start, and one at the end. -/
def trimParts (parts : List (List Char)) : List (List Char) :=
  let parts := if parts.head? = some [] then parts.tail else parts
  if parts.getLast? = some [] then parts.dropLast else parts

def splitText (p : Pattern) (s : String) : List (List Char) :=
  partsBetween s.toList 0 (p.findAll s)

/-- A pattern that cannot be read is no script error here. -/
def separatorOf (r : Option Ref) : Run Pattern := do
  match r with
  | none => return blankRun
  | some r =>
    let s ← text r
    if s.isEmpty then return blankRun
    else match Pattern.ofMagic false s with
      | .ok p => return p
      | .error _ => internal (.unreadableSeparator s)

def split (r : Ref) (separator keepEmpty : Option Ref) : Run Ref := do
  let s ← text r
  let parts := splitText (← separatorOf separator) s
  let kept := if ← flag keepEmpty then parts else trimParts parts
  new (.list (← newTexts (kept.map String.ofList)))

def toupper (r : Ref) : Run Ref := do newText (Text.upper (← text r))

def tolower (r : Ref) : Run Ref := do newText (Text.lower (← text r))

/-! ## Numbers in texts -/

/-- The letters after a zero that announce a base, and the values of its digits. -/
def radix? (n : Int) : Option (List Char × (Char → Option Nat)) :=
  match n with
  | 2 => some (['b', 'B'], Numeral.binaryValue?)
  | 8 => some (['o', 'O'], Numeral.octalValue?)
  | 10 => some ([], Text.digitValue?)
  | 16 => some (['x', 'X'], Text.hexValue?)
  | _ => none

/-- A sign at the start of a text. -/
def splitSign : List Char → Bool × List Char
  | '-' :: rest => (true, rest)
  | '+' :: rest => (false, rest)
  | chars => (false, chars)

def dropRadixMark (letters : List Char) (chars : List Char) : List Char :=
  match chars with
  | '0' :: c :: rest => if letters.contains c then rest else chars
  | _ => chars

def str2nr (r : Ref) (base : Option Ref) : Run Ref := do
  let radix ← match base with
    | some b => number b
    | none => pure 10
  match radix? radix with
  | none => raise (.badRadix radix)
  | some (letters, digit?) =>
    let (negative, chars) := splitSign (Text.dropBlanks (← text r).toList)
    let digits := Numeral.digitsWhile digit? (dropRadixMark letters chars)
    match (Numeral.mk negative radix.toNat digits).read? with
    | some n => newInt n
    | none => internal .tooManyDigits

/-- A word without regard to case. The letter i has two forms beyond ASCII, with which the word
is found but stands for nothing. -/
def matchesWord (word : List Char) (chars : List Char) : Bool :=
  let start := chars.take word.length
  start.length = word.length && (word.zip start).all fun (w, c) => Text.sameLetter w c

/-- The Float at the start of a text, without its sign. -/
def readFloat (negative : Bool) (chars : List Char) : Except Stop (Option Float) :=
  let signed (x : Float) : Float := if negative then -x else x
  let named (word : List Char) (x : Float) : Except Stop (Option Float) :=
    if (chars.take word.length).all (·.toNat < 128) then .ok (some (signed x))
    else .error (.internal .foreignLetter)
  if matchesWord ['i', 'n', 'f'] chars then named ['i', 'n', 'f'] (1.0 / 0.0)
  else if matchesWord ['n', 'a', 'n'] chars then named ['n', 'a', 'n'] (0.0 / 0.0)
  else
    let whole := Numeral.digitsWhile Text.digitValue? chars
    if whole.isEmpty then .ok none
    else
      let rest := chars.drop whole.length
      let places := match rest with
        | '.' :: more => Numeral.digitsWhile Text.digitValue? more
        | _ => []
      let rest := if places.isEmpty then rest else rest.drop (places.length + 1)
      let power : Int := match rest with
        | 'e' :: more | 'E' :: more =>
          let (minus, digits) := splitSign more
          let n : Int := Text.ofDigits 10 (Numeral.digitsWhile Text.digitValue? digits)
          if minus then -n else n
        | _ => 0
      .ok (some (Decimal.ofDecimal negative (Text.ofDigits 10 (whole ++ places))
        (power - places.length)))

def str2float (r : Ref) : Run Ref := do
  let (negative, chars) := splitSign (Text.dropBlanks (← text r).toList)
  match ← settle (readFloat negative chars) with
  | some x => new (.float x)
  | none => new (.float 0.0)

end VimL.Library
