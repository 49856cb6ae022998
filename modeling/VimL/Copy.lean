import VimL.Value

namespace VimL

/-!
# Copies

Storing a value copies a scalar and shares anything else. A deep copy copies scalars, Lists,
Dictionaries and Blobs all the way down; a List or Dictionary that is met twice is copied once.
-/

namespace Heap

/-- The object that is stored for a value. -/
def stored (h : Heap) (r : Ref) : Ref × Heap :=
  let v := h.value r
  if v.isScalar then h.new v else (r, h)

abbrev Copies := List (Ref × Ref)

/-- Copy a row of items, left to right. -/
def copyEach (copy : Copies × Heap → Ref → Ref × Copies × Heap) (state : Copies × Heap) :
    List Ref → List Ref × Copies × Heap
  | [] => ([], state)
  | r :: rest =>
    let (c, state) := copy state r
    let (cs, state) := copyEach copy state rest
    (c :: cs, state)

/-- The copy is known before its items are copied, so that cycles close on it. Each round of
recursion copies one more object, so fuel above their number is never used up. -/
def deepCopyFrom : Nat → Copies × Heap → Ref → Ref × Copies × Heap
  | 0, (copies, h), r =>
    let (s, h) := h.stored r
    (s, copies, h)
  | fuel + 1, (copies, h), r =>
    match h.value r with
    | .list items =>
      match copies.lookup r with
      | some c => (c, copies, h)
      | none =>
        let (c, h) := h.new (.list [])
        let (found, copies, h) := copyEach (deepCopyFrom fuel) ((r, c) :: copies, h) items
        (c, copies, h.setValue c (.list found))
    | .dictionary entries =>
      match copies.lookup r with
      | some c => (c, copies, h)
      | none =>
        let (c, h) := h.new (.dictionary .empty)
        let (found, copies, h) :=
          copyEach (deepCopyFrom fuel) ((r, c) :: copies, h) entries.values
        (c, copies, h.setValue c (.dictionary (entries.withValues found)))
    | .funcref _ => (r, copies, h)
    | v =>
      let (c, h) := h.new v
      (c, copies, h)

def deepCopy (h : Heap) (r : Ref) : Ref × Heap :=
  let (c, _, h) := deepCopyFrom (h.size + 1) ([], h) r
  (c, h)

end Heap

end VimL
