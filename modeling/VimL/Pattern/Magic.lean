import VimL.Pattern.Extended

namespace VimL.Pattern

/-!
# The magic dialect

Scripts write patterns in a dialect where most operators need a backslash: `\(`, `\|`, `\+`,
`\=`, `\{2,3}`. Dot, star, brackets, caret and dollar sign do not. A pattern is turned into the
extended notation, character by character, without regard to brackets.
-/

/-- Classes that a letter stands for after a backslash, in extended notation. -/
def letterClass? (letter : Char) : Option String :=
  match letter with
  | 'a' => some "[A-Za-z]"
  | 'A' => some "[^A-Za-z]"
  | 'l' => some "[a-z]"
  | 'L' => some "[^a-z]"
  | 'u' => some "[A-Z]"
  | 'U' => some "[^A-Z]"
  | 'h' => some "[A-Za-z_]"
  | 'H' => some "[^A-Za-z_]"
  | 'x' => some "[0-9A-Fa-f]"
  | 'X' => some "[^0-9A-Fa-f]"
  | 'o' => some "[0-7]"
  | 'O' => some "[^0-7]"
  | 'd' => some "\\d"
  | 'D' => some "\\D"
  | 's' => some "[ \t]"
  | 'S' => some "[^ \t]"
  | 'w' => some "[0-9A-Za-z_]"
  | 'W' => some "[^0-9A-Za-z_]"
  | 'n' => some "\n"
  | 't' => some "\t"
  | 'e' => some "\x1b"
  | 'r' => some "\r"
  | '<' => some "\\b"
  | '>' => some "\\b"
  | _ => none

/-- Characters that a backslash has to make literal in extended notation. -/
def isOperator (c : Char) : Bool :=
  "()[]\x7b\x7d?*+-|^$\\.&~# \t\n\r".toList.contains c || c.toNat == 0x0B || c.toNat == 0x0C

def escapeOperator (c : Char) : List Char := if isOperator c then ['\\', c] else [c]

/-- Literal in the magic dialect, operators in extended notation. -/
def needsBackslash (c : Char) : Bool := "()|+?\x7b\x7d".toList.contains c

/-- A repetition, given the text between the braces. A minus sign in front prefers fewer rounds,
and no bounds at all mean any number. -/
def repetition (between : List Char) : List Char :=
  let bounds := (between.reverse.dropWhile (· == '\\')).reverse
  let digits := bounds.dropWhile (· == '-')
  let quantifier := if digits.isEmpty then ['*'] else '\x7b' :: digits ++ ['\x7d']
  if bounds.head? = some '-' then quantifier ++ ['?'] else quantifier

/-- The text before and after the first closing brace. -/
def splitAtBrace : List Char → Option (List Char × List Char)
  | [] => none
  | '\x7d' :: rest => some ([], rest)
  | c :: rest => (splitAtBrace rest).map fun (between, after) => (c :: between, after)

/-- What a letter after a backslash turns into, unless it needs more of the text. -/
def escapeMeaning (letter : Char) : List Char :=
  if letter = '=' then ['?']
  else if "()|+?".toList.contains letter then [letter]
  else match letterClass? letter with
    | some written => written.toList
    | none => escapeOperator letter

/-- The extended notation of a pattern, and whether case is ignored. The last of `\c` and `\C`
decides that for the whole pattern. -/
def toExtended : Nat → Bool → List Char → Except Fault (List Char × Bool)
  | 0, _, _ => .error .malformed
  | _ + 1, ignoreCase, [] => .ok ([], ignoreCase)
  | fuel + 1, ignoreCase, text =>
    match text with
    | '\\' :: '\x7b' :: rest =>
      match splitAtBrace rest with
      | none => .error .malformed
      | some (between, after) => emit (repetition between) (toExtended fuel ignoreCase after)
    | '\\' :: '%' :: '(' :: rest => emit "(?:".toList (toExtended fuel ignoreCase rest)
    | '\\' :: 'c' :: rest => toExtended fuel true rest
    | '\\' :: 'C' :: rest => toExtended fuel false rest
    | '\\' :: letter :: rest => emit (escapeMeaning letter) (toExtended fuel ignoreCase rest)
    | c :: rest =>
      emit (if needsBackslash c then ['\\', c] else [c]) (toExtended fuel ignoreCase rest)
    | [] => .ok ([], ignoreCase)
where
  emit (before : List Char) : Except Fault (List Char × Bool) → Except Fault (List Char × Bool)
    | .ok (after, ignoreCase) => .ok (before ++ after, ignoreCase)
    | .error fault => .error fault

end VimL.Pattern

namespace VimL

/-- A pattern ready to be matched. -/
structure Pattern where
  regex : Pattern.Regex
  ignoreCase : Bool

namespace Pattern

/-- Read a pattern of the magic dialect. -/
def ofMagic (ignoreCase : Bool) (text : String) : Except Fault Pattern :=
  match toExtended (text.length + 1) ignoreCase text.toList with
  | .error fault => .error fault
  | .ok (extended, ignoreCase) =>
    match ofExtended extended with
    | .error fault => .error fault
    | .ok regex => .ok ⟨regex, ignoreCase⟩

end Pattern

end VimL
