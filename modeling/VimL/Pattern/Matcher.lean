import VimL.Pattern.Magic

namespace VimL.Pattern

/-!
# Matching

A regular expression runs against the text from one place on and hands every place where it can
end to a continuation, in order of preference, until the continuation succeeds.
-/

/-- A place in a text: the characters before it, nearest first, and those after it. -/
structure Cursor where
  position : Nat
  before : List Char
  after : List Char

namespace Cursor

def start (text : List Char) : Cursor := ⟨0, [], text⟩

/-- The place after the next character. -/
def next? (c : Cursor) : Option (Char × Cursor) :=
  match c.after with
  | [] => none
  | x :: rest => some (x, ⟨c.position + 1, x :: c.before, rest⟩)

/-- The place `count` characters earlier. -/
def back? (c : Cursor) : Nat → Option Cursor
  | 0 => some c
  | count + 1 =>
    match c.before with
    | [] => none
    | x :: rest => back? ⟨c.position - 1, rest, x :: c.after⟩ count

def atWordEdge (c : Cursor) : Bool :=
  (c.before.head?.any Text.isWordChar) != (c.after.head?.any Text.isWordChar)

end Cursor

namespace Anchor

def holds (a : Anchor) (c : Cursor) : Bool :=
  match a with
  | .textStart => c.before.isEmpty
  | .textEnd => c.after.isEmpty
  | .lastLineEnd => c.after.isEmpty || c.after == ['\n']
  | .wordEdge => c.atWordEdge
  | .noWordEdge => !c.atWordEdge

end Anchor

abbrev Continuation := Cursor → Option Cursor

abbrev Matcher := Continuation → Continuation

namespace Rounds

/-- May another optional round start here? A round that starts where the one before it started
would match nothing again. -/
def mayGoOn (most : Option Nat) (count : Nat) (lastStart : Option Nat) (c : Cursor) : Bool :=
  most.all (count < ·) && lastStart != some c.position

/-- Rounds that are needed come first; then another round is tried before going on. -/
def greedy (body : Matcher) (least : Nat) (most : Option Nat) (k : Continuation) :
    Nat → Nat → Option Nat → Continuation
  | 0, _, _, _ => none
  | fuel + 1, count, lastStart, c =>
    if count < least then
      body (greedy body least most k fuel (count + 1) lastStart) c
    else if mayGoOn most count lastStart c then
      match body (greedy body least most k fuel (count + 1) (some c.position)) c with
      | some found => some found
      | none => k c
    else k c

/-- Rounds that are needed come first; then going on is tried before another round. -/
def lazy (body : Matcher) (least : Nat) (most : Option Nat) (k : Continuation) :
    Nat → Nat → Option Nat → Continuation
  | 0, _, _, _ => none
  | fuel + 1, count, lastStart, c =>
    if count < least then
      body (lazy body least most k fuel (count + 1) lastStart) c
    else
      match k c with
      | some found => some found
      | none =>
        if mayGoOn most count lastStart c then
          body (lazy body least most k fuel (count + 1) (some c.position)) c
        else none

/-- Every round matches in its first way, as often as it can. -/
def committed (body : Matcher) (least : Nat) (most : Option Nat) :
    Nat → Nat → Option Nat → Continuation
  | 0, _, _, _ => none
  | fuel + 1, count, lastStart, c =>
    if count < least then
      match body some c with
      | some c => committed body least most fuel (count + 1) lastStart c
      | none => none
    else if mayGoOn most count lastStart c then
      match body some c with
      | some after => committed body least most fuel (count + 1) (some c.position) after
      | none => some c
    else some c

end Rounds

namespace Regex

/-- The fuel of a repetition: rounds that are needed, one for every character that is left, and
one that matches nothing. -/
def run (ignoreCase : Bool) : Regex → Matcher
  | .empty, k, c => k c
  | .char test, k, c =>
    match c.next? with
    | some (x, after) => if test.admits ignoreCase x then k after else none
    | none => none
  | .anchor a, k, c => if a.holds c then k c else none
  | .append first second, k, c => first.run ignoreCase (second.run ignoreCase k) c
  | .either first second, k, c =>
    match first.run ignoreCase k c with
    | some found => some found
    | none => second.run ignoreCase k c
  | .rounds preference least most body, k, c =>
    let fuel := least + c.after.length + 2
    match preference with
    | .more => Rounds.greedy (body.run ignoreCase) least most k fuel 0 none c
    | .fewer => Rounds.lazy (body.run ignoreCase) least most k fuel 0 none c
    | .allOrNothing =>
      match Rounds.committed (body.run ignoreCase) least most fuel 0 none c with
      | some after => k after
      | none => none
  | .group body, k, c => body.run ignoreCase k c
  | .ahead holds body, k, c =>
    if (body.run ignoreCase some c).isSome = holds then k c else none
  | .behind holds width body, k, c =>
    let found := match c.back? width with
      | some earlier => (body.run ignoreCase some earlier).isSome
      | none => false
    if found = holds then k c else none
  | .committed body, k, c =>
    match body.run ignoreCase some c with
    | some after => k after
    | none => none

end Regex

end VimL.Pattern

namespace VimL.Pattern

/-- A match: the places where it starts and ends, and the text between them. -/
structure Found where
  first : Nat
  last : Nat
  text : List Char
  /-- The place after the match. -/
  rest : Cursor

/-- The preferred match that starts at a place. -/
def matchAt (p : Pattern) (accept : Continuation) (c : Cursor) : Option Found :=
  (p.regex.run p.ignoreCase accept c).map fun e =>
    ⟨c.position, e.position, c.after.take (e.position - c.position), e⟩

/-- The leftmost match at or after a place; `accept` restricts it at the first place only. -/
def findFrom (p : Pattern) (accept : Continuation) (position : Nat) (before : List Char) :
    List Char → Option Found
  | [] => p.matchAt accept ⟨position, before, []⟩
  | x :: rest =>
    match p.matchAt accept ⟨position, before, x :: rest⟩ with
    | some found => some found
    | none => findFrom p some (position + 1) (x :: before) rest

/-- The leftmost match in a text. -/
def find? (p : Pattern) (text : String) : Option Found := p.findFrom some 0 [] text.toList

def occursIn (p : Pattern) (text : String) : Bool := (p.find? text).isSome

/-- The matches from a place on, one after the other. After an empty match, the next one may
start at the same place, but it may not be empty as well. -/
def findAllFrom (p : Pattern) : Nat → Bool → Cursor → List Found
  | 0, _, _ => []
  | fuel + 1, afterEmpty, c =>
    let accept : Continuation :=
      if afterEmpty then fun e => if e.position = c.position then none else some e else some
    match p.findFrom accept c.position c.before c.after with
    | none => []
    | some found => found :: findAllFrom p fuel (found.first == found.last) found.rest

/-- All matches in a text. Each place begins an empty match at most once and ends another match
at most once, so fuel of twice the length is enough. -/
def findAll (p : Pattern) (text : String) : List Found :=
  p.findAllFrom (2 * text.length + 2) false (.start text.toList)

end VimL.Pattern
