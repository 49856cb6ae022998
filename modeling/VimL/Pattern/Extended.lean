import VimL.Pattern.Regex

namespace VimL.Pattern

/-!
# The extended notation

Here parentheses, bars, braces, question and plus signs are operators, and a backslash makes them
literal. Reading goes character by character; an item waits as the `last` of its sequence until
it is known that no quantifier follows.
-/

inductive Fault where
  /-- The notation is broken. -/
  | malformed
  /-- A bound of a repetition is too large to be stored. -/
  | boundTooLarge

abbrev Reading (α : Type) := Except Fault (α × List Char)

/-! ## Escapes -/

/-- Classes that a letter stands for after a backslash. -/
def classEscape? (letter : Char) : Option ClassItem :=
  match letter with
  | 'd' => some (.digit true)
  | 'D' => some (.digit false)
  | 's' => some (.space true)
  | 'S' => some (.space false)
  | 'w' => some (.word true)
  | 'W' => some (.word false)
  | _ => none

def anchorEscape? (letter : Char) : Option Anchor :=
  match letter with
  | 'A' => some .textStart
  | 'Z' => some .textEnd
  | 'b' => some .wordEdge
  | 'B' => some .noWordEdge
  | _ => none

def controlEscape? (letter : Char) : Option Char :=
  match letter with
  | 'a' => some (Char.ofNat 0x07)
  | 'f' => some (Char.ofNat 0x0C)
  | 'n' => some '\n'
  | 'r' => some '\r'
  | 't' => some '\t'
  | 'v' => some (Char.ofNat 0x0B)
  | _ => none

/-- Exactly `count` hexadecimal digits. -/
def hexCode (count : Nat) (text : List Char) : Reading Char :=
  match (text.take count).mapM Text.hexValue? with
  | none => .error .malformed
  | some digits =>
    let code := Text.ofDigits 16 digits
    if digits.length = count ∧ code.isValidChar then .ok (Char.ofNat code, text.drop count)
    else .error .malformed

def isOctalDigit (c : Char) : Bool := decide ('0' ≤ c) && decide (c ≤ '7')

def octalOf (digits : List Char) : Nat :=
  Text.ofDigits 8 (digits.map fun c => c.toNat - '0'.toNat)

/-- Three octal digits, or fewer after a zero. There are no references to groups. -/
def octalCode (first : Char) (text : List Char) : Reading Char :=
  let more := (text.take 2).takeWhile isOctalDigit
  let code := octalOf (first :: more)
  if first = '0' ∨ (isOctalDigit first ∧ more.length = 2 ∧ code ≤ 255) then
    .ok (Char.ofNat code, text.drop more.length)
  else .error .malformed

/-- The character that an escape writes, given what follows the backslash. -/
def escapedChar (letter : Char) (rest : List Char) : Reading Char :=
  match controlEscape? letter with
  | some c => .ok (c, rest)
  | none =>
    match letter with
    | 'x' => hexCode 2 rest
    | 'u' => hexCode 4 rest
    | 'U' => hexCode 8 rest
    | _ =>
      if letter.isDigit then octalCode letter rest
      else if letter.isAlpha then .error .malformed
      else .ok (letter, rest)

/-! ## Sets -/

/-- One member of a set, before it is known whether a range follows. -/
def readMember : List Char → Reading ClassItem
  | [] => .error .malformed
  | ['\\'] => .error .malformed
  | '\\' :: letter :: rest =>
    match classEscape? letter with
    | some item => .ok (item, rest)
    | none =>
      if letter = 'b' then .ok (.single (Char.ofNat 0x08), rest)
      else match escapedChar letter rest with
        | .ok (c, rest) => .ok (.single c, rest)
        | .error fault => .error fault
  | c :: rest => .ok (.single c, rest)

/-- A range needs two characters in order. -/
def rangeOf (first last : ClassItem) : Except Fault ClassItem :=
  match first, last with
  | .single a, .single b => if b < a then .error .malformed else .ok (.range a b)
  | _, _ => .error .malformed

/-- The members up to the closing bracket, which counts as a member where none precedes it. -/
def readMembers (found : List ClassItem) : Nat → List Char → Reading (List ClassItem)
  | 0, _ => .error .malformed
  | fuel + 1, text =>
    if text.head? = some ']' ∧ ¬ found.isEmpty then .ok (found.reverse, text.tail)
    else
      match readMember text with
      | .error fault => .error fault
      | .ok (first, '-' :: ']' :: rest) => .ok ((.single '-' :: first :: found).reverse, rest)
      | .ok (first, '-' :: rest) =>
        match readMember rest with
        | .error fault => .error fault
        | .ok (last, rest) =>
          match rangeOf first last with
          | .error fault => .error fault
          | .ok item => readMembers (item :: found) fuel rest
      | .ok (first, rest) => readMembers (first :: found) fuel rest

/-- A set after its opening bracket. -/
def readSet (text : List Char) : Reading Regex :=
  match text with
  | '^' :: rest =>
    (readMembers [] (rest.length + 1) rest).map fun (items, rest) => (.char (.noneOf items), rest)
  | _ =>
    (readMembers [] (text.length + 1) text).map fun (items, rest) => (.char (.oneOf items), rest)

/-! ## Quantifiers -/

def decimalOf (digits : List Char) : Nat :=
  Text.ofDigits 10 (digits.map fun c => c.toNat - '0'.toNat)

def isAsciiDigit (c : Char) : Bool := decide ('0' ≤ c) && decide (c ≤ '9')

/-- Bounds are below this number. -/
def boundLimit : Nat := 4294967295

abbrev Bounds := Nat × Option Nat

/-- Check the digits of two bounds; a missing upper bound is none. -/
def boundsOf (low high : List Char) : Except Fault Bounds :=
  let least := decimalOf low
  let most := if high.isEmpty then none else some (decimalOf high)
  if boundLimit ≤ least ∨ most.any (boundLimit ≤ ·) then .error .boundTooLarge
  else if most.any (· < least) then .error .malformed
  else .ok (least, most)

/-- The bounds after an opening brace, up to the closing one. Anything else is no quantifier, and
the brace is literal. -/
def readBounds? (text : List Char) : Option (Except Fault Bounds × List Char) :=
  if text.head? = some '\x7d' then none
  else
    let low := text.takeWhile isAsciiDigit
    let rest := text.dropWhile isAsciiDigit
    let (high, rest) := match rest with
      | ',' :: more => (more.takeWhile isAsciiDigit, more.dropWhile isAsciiDigit)
      | _ => (low, rest)
    match rest with
    | '\x7d' :: after => some (boundsOf low high, after)
    | _ => none

/-- The quantifier at the start of a text, if there is one. -/
def readQuantifier? : List Char → Option (Except Fault Bounds × List Char)
  | '*' :: rest => some (.ok (0, none), rest)
  | '+' :: rest => some (.ok (1, none), rest)
  | '?' :: rest => some (.ok (0, some 1), rest)
  | '\x7b' :: rest => readBounds? rest
  | _ => none

/-- A mark after the quantifier changes its preference. -/
def readPreference : List Char → Preference × List Char
  | '?' :: rest => (.fewer, rest)
  | '+' :: rest => (.allOrNothing, rest)
  | text => (.more, text)

/-! ## Sequences, choices and groups -/

/-- What an opening parenthesis begins. -/
inductive GroupKind where
  | plain
  | committed
  | ahead (holds : Bool)
  | behind (holds : Bool)
  | comment
  deriving DecidableEq

def readGroupKind : List Char → Reading GroupKind
  | '?' :: ':' :: rest => .ok (.plain, rest)
  | '?' :: '>' :: rest => .ok (.committed, rest)
  | '?' :: '=' :: rest => .ok (.ahead true, rest)
  | '?' :: '!' :: rest => .ok (.ahead false, rest)
  | '?' :: '<' :: '=' :: rest => .ok (.behind true, rest)
  | '?' :: '<' :: '!' :: rest => .ok (.behind false, rest)
  | '?' :: '#' :: rest => .ok (.comment, rest)
  | '?' :: _ => .error .malformed
  | rest => .ok (.plain, rest)

/-- The tree of a group; to look behind, the width has to be known. -/
def groupOf (kind : GroupKind) (body : Regex) : Except Fault Regex :=
  match kind with
  | .plain | .comment => .ok (.group body)
  | .committed => .ok (.committed body)
  | .ahead holds => .ok (.ahead holds body)
  | .behind holds =>
    match body.fixedWidth? with
    | some width => .ok (.behind holds width body)
    | none => .error .malformed

/-- The text after a comment, which ends at the next closing parenthesis. -/
def skipComment : List Char → Except Fault (List Char)
  | [] => .error .malformed
  | ')' :: rest => .ok rest
  | ['\\'] => .error .malformed
  | '\\' :: _ :: rest => skipComment rest
  | _ :: rest => skipComment rest

/-- An item that is not a group. -/
def readAtom : List Char → Reading Regex
  | [] => .error .malformed
  | ['\\'] => .error .malformed
  | '\\' :: letter :: rest =>
    match classEscape? letter with
    | some item => .ok (.char (.oneOf [item]), rest)
    | none =>
      match anchorEscape? letter with
      | some a => .ok (.anchor a, rest)
      | none =>
        match escapedChar letter rest with
        | .ok (c, rest) => .ok (.literal c, rest)
        | .error fault => .error fault
  | '[' :: rest => readSet rest
  | '.' :: rest => .ok (.char .notNewline, rest)
  | '^' :: rest => .ok (.anchor .textStart, rest)
  | '$' :: rest => .ok (.anchor .lastLineEnd, rest)
  | c :: rest => .ok (.literal c, rest)

/-- The sequence read so far with its last item in place. -/
def closeSequence (before : Regex) (last : Option Regex) : Regex :=
  match last with
  | none => before
  | some item => .append before item

def endsSequence : List Char → Bool
  | [] | '|' :: _ | ')' :: _ => true
  | _ => false

mutual

/-- Each step takes at least one character or descends one reader, so fuel above twice the length
of the text is never used up. -/
def readChoice : Nat → List Char → Reading Regex
  | 0, _ => .error .malformed
  | fuel + 1, text =>
    match readSequence fuel .empty none text with
    | .error fault => .error fault
    | .ok (first, '|' :: rest) =>
      match readChoice fuel rest with
      | .error fault => .error fault
      | .ok (second, rest) => .ok (.either first second, rest)
    | .ok (only, rest) => .ok (only, rest)

/-- Items up to a bar, a closing parenthesis or the end. -/
def readSequence : Nat → Regex → Option Regex → List Char → Reading Regex
  | 0, _, _, _ => .error .malformed
  | fuel + 1, before, last, text =>
    if endsSequence text then .ok (closeSequence before last, text)
    else
      match readQuantifier? text with
      | some (.error fault, _) => .error fault
      | some (.ok (least, most), rest) =>
        match last with
        | none => .error .malformed
        | some item =>
          if item.isQuantifiable then
            let (preference, rest) := readPreference rest
            readSequence fuel before (some (.rounds preference least most item)) rest
          else .error .malformed
      | none =>
        match text with
        | '(' :: opened =>
          match readGroupKind opened with
          | .error fault => .error fault
          | .ok (.comment, body) =>
            match skipComment body with
            | .error fault => .error fault
            | .ok rest => readSequence fuel before last rest
          | .ok (kind, body) =>
            match readChoice fuel body with
            | .error fault => .error fault
            | .ok (choice, ')' :: rest) =>
              match groupOf kind choice with
              | .error fault => .error fault
              | .ok item => readSequence fuel (closeSequence before last) (some item) rest
            | .ok _ => .error .malformed
        | _ =>
          match readAtom text with
          | .error fault => .error fault
          | .ok (item, rest) => readSequence fuel (closeSequence before last) (some item) rest

end

/-- Read a whole pattern. -/
def ofExtended (text : List Char) : Except Fault Regex :=
  match readChoice (2 * text.length + 2) text with
  | .error fault => .error fault
  | .ok (r, []) => .ok r
  | .ok (_, _ :: _) => .error .malformed

end VimL.Pattern
