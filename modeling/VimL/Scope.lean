namespace VimL

/-!
# Scopes

A letter and a colon in front of a name choose the table that the name is looked up in.
-/

inductive Scope where
  | globals
  | script
  | locals
  | arguments
  | vim
  deriving DecidableEq

namespace Scope

def letter : Scope → Char
  | .globals => 'g'
  | .script => 's'
  | .locals => 'l'
  | .arguments => 'a'
  | .vim => 'v'

/-- The letter and the colon. -/
def prefixText (s : Scope) : String := String.ofList [s.letter, ':']

def ofLetter? (c : Char) : Option Scope :=
  [globals, script, locals, arguments, vim].find? (·.letter == c)

/-- The scope that a prefix names: a letter, with any number of colons after it. Colons alone name
none, and any other text is refused. -/
def ofPrefix? (text : String) : Option (Option Scope) :=
  match (text.toList.reverse.dropWhile (· == ':')).reverse with
  | [] => some none
  | [c] => (ofLetter? c).map some
  | _ => none

/-- Split a scope off a name that is longer than the prefix. -/
def split (text : String) : Option Scope × String :=
  match text.toList with
  | c :: ':' :: d :: rest =>
    match ofLetter? c with
    | some scope => (some scope, String.ofList (d :: rest))
    | none => (none, text)
  | _ => (none, text)

theorem ofLetter?_letter (s : Scope) : ofLetter? s.letter = some s := by cases s <;> decide

end Scope

/-- The prefix of a scope that was written, or nothing. -/
def scopeText (scope : Option Scope) : String :=
  match scope with
  | some s => s.prefixText
  | none => ""

/-- A name as a script writes it. -/
structure Variable where
  scope : Option Scope
  name : String
  deriving DecidableEq

namespace Variable

def text (v : Variable) : String := scopeText v.scope ++ v.name

end Variable

end VimL
