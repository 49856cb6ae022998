import VimL.Text.Blank
import VimL.Text.CaseFold
import VimL.Text.Digit
import VimL.Text.WordChar

namespace VimL.Pattern

/-!
# Character classes

What one character of a text is tested against. When case is ignored, a class holds every
character of which it holds a variant.
-/

inductive ClassItem where
  | single (c : Char)
  | range (first last : Char)
  | digit (holds : Bool)
  | space (holds : Bool)
  | word (holds : Bool)

namespace ClassItem

def admits (ignoreCase : Bool) (item : ClassItem) (c : Char) : Bool :=
  match item with
  | .single x => if ignoreCase then Text.sameLetter x c else c == x
  | .range first last =>
    if ignoreCase then Text.variantBetween first.toNat last.toNat c
    else decide (first ≤ c) && decide (c ≤ last)
  | .digit holds => Text.isDigit c == holds
  | .space holds => Text.isBlank c == holds
  | .word holds => Text.isWordChar c == holds

end ClassItem

/-- A test of one character. -/
inductive CharClass where
  /-- Any character but the end of a line. -/
  | notNewline
  | oneOf (items : List ClassItem)
  | noneOf (items : List ClassItem)

namespace CharClass

def admits (ignoreCase : Bool) : CharClass → Char → Bool
  | .notNewline, c => c != '\n'
  | .oneOf items, c => items.any (·.admits ignoreCase c)
  | .noneOf items, c => !items.any (·.admits ignoreCase c)

end CharClass

end VimL.Pattern
