import VimL.Pattern.Class

namespace VimL.Pattern

/-!
# Regular expressions

The tree of a pattern. Choices are ordered: the first alternative is tried first, and a repetition
says whether it prefers more or fewer rounds.
-/

inductive Anchor where
  /-- The start of the text. -/
  | textStart
  /-- The very end of the text. -/
  | textEnd
  /-- The end of the text, or the place before the line end that closes it. -/
  | lastLineEnd
  /-- A word begins or ends here. -/
  | wordEdge
  | noWordEdge
  deriving DecidableEq

inductive Preference where
  /-- As many rounds as possible first. -/
  | more
  /-- As few rounds as possible first. -/
  | fewer
  /-- As many rounds as possible, and no other number. -/
  | allOrNothing
  deriving DecidableEq

inductive Regex where
  | empty
  | char (test : CharClass)
  | anchor (a : Anchor)
  | append (first second : Regex)
  | either (first second : Regex)
  | rounds (preference : Preference) (least : Nat) (most : Option Nat) (body : Regex)
  | group (body : Regex)
  /-- The body matches, or does not, from here on. -/
  | ahead (holds : Bool) (body : Regex)
  /-- The body matches, or does not, the `width` characters before. -/
  | behind (holds : Bool) (width : Nat) (body : Regex)
  /-- Only the first way to match the body counts. -/
  | committed (body : Regex)

namespace Regex

def literal (c : Char) : Regex := .char (.oneOf [.single c])

/-- The least and the greatest number of characters of a match; `none` is no bound. -/
def width : Regex → Nat × Option Nat
  | .empty | .anchor _ | .ahead _ _ | .behind _ _ _ => (0, some 0)
  | .char _ => (1, some 1)
  | .append a b =>
    let (la, ha) := a.width
    let (lb, hb) := b.width
    (la + lb, do return (← ha) + (← hb))
  | .either a b =>
    let (la, ha) := a.width
    let (lb, hb) := b.width
    (min la lb, do return max (← ha) (← hb))
  | .rounds _ least most body =>
    let (l, h) := body.width
    (l * least, if h = some 0 then some 0 else do return (← h) * (← most))
  | .group body | .committed body => body.width

/-- The width, if all matches have the same. -/
def fixedWidth? (r : Regex) : Option Nat :=
  let (least, most) := r.width
  if most = some least then some least else none

/-- Quantifiers bind to an item: not to a place, and not to another quantifier. -/
def isQuantifiable : Regex → Bool
  | .anchor _ | .rounds .. => false
  | _ => true

end Regex

end VimL.Pattern
