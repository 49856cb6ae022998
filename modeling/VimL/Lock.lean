import VimL.Value

namespace VimL

/-!
# Locks

A lock goes from a container to its items until its depth is used up; a depth below one has no
end. Items that were visited are marked again when they are met again, but not followed again.
-/

namespace Cell

def noted (c : Cell) (note : Note) : Cell := { c with notes := note :: c.notes }

def lockedFor (c : Cell) (owner : Option Binding) : Cell :=
  { c with locked := true, owner := owner.map (·.canonicalName), notes := .locked owner :: c.notes }

def unlocked (c : Cell) : Cell :=
  { c with locked := false, owner := none, notes := .unlocked :: c.notes }

end Cell

namespace Heap

/-- Mark a value and go on to its items. The visited containers are passed along. Each round of
recursion visits one more object, so fuel above their number is never used up. -/
def markFrom (mark : Cell → Cell) : Nat → Int → List Ref × Heap → Ref → List Ref × Heap
  | 0, _, state, _ => state
  | fuel + 1, depth, (seen, h), r =>
    let h := h.modifyCell r mark
    if depth = 1 then (seen, h)
    else if r ∈ seen then (seen, h)
    else
      (h.value r).children.foldl (markFrom mark fuel (if depth > 0 then depth - 1 else depth))
        (r :: seen, h)

/-- Lock an object and its items. The object of a variable is locked in its name. -/
def lock (h : Heap) (depth : Int) (owner : Option Binding) (r : Ref) : Heap :=
  let h := (markFrom (·.lockedFor owner) (h.size + 1) depth ([], h) r).2
  match owner with
  | some b => h.modifyCell r (·.noted (.named b))
  | none => h

def unlock (h : Heap) (depth : Int) (r : Ref) : Heap :=
  (markFrom (·.unlocked) (h.size + 1) depth ([], h) r).2

end Heap

end VimL
