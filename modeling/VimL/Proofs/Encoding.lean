import VimL.Library.Storage
import VimL.Proofs.DeepCopies
import VimL.Proofs.Exchange

/-!
# Encoding

The encoder keeps the containers that it is inside of. It meets one of them again only where a
container lies in itself: a container that is merely shared has been left before it is entered
once more. A row of different containers is not longer than the heap, so the fuel is never used up.
-/

namespace VimL

namespace Value

/-- The document of a List or a Dictionary, from the documents of its items or entries. -/
def document : Value → List Json → Json
  | .dictionary entries, js => .object (entries.keys.zip js)
  | _, js => .array js

end Value

namespace Heap

/-- The second object is an item or an entry of the first one, or of what can be reached from it. -/
def Surrounds (h : Heap) : Ref → Ref → Prop :=
  Relation.TransGen fun r s => s ∈ (h.value r).children

/-- The document has the contents of the value. What occurs more than once has a document for each
of its occurrences. -/
inductive EncodedAs (h : Heap) : Ref → Json → Prop where
  | number {r : Ref} {n : Int} (hv : h.value r = .number n) : EncodedAs h r (.integer n)
  | float {r : Ref} {x : Float} (hv : h.value r = .float x) : EncodedAs h r (.real x)
  | string {r : Ref} {s : String} (hv : h.value r = .string s) : EncodedAs h r (.text s)
  | blob {r : Ref} {bytes : List UInt8} (hv : h.value r = .blob bytes) :
      EncodedAs h r (.array (bytes.map fun b => .integer b.toNat))
  | list {r : Ref} {items : List Ref} {js : List Json} (hv : h.value r = .list items)
      (hitems : List.Forall₂ (EncodedAs h) items js) : EncodedAs h r (.array js)
  | dictionary {r : Ref} {entries : Table Ref} {js : List Json}
      (hv : h.value r = .dictionary entries)
      (hvalues : List.Forall₂ (EncodedAs h) entries.values js) :
      EncodedAs h r (.object (entries.keys.zip js))

variable {h : Heap} {fuel : Nat} {path : List Ref} {r s : Ref} {j : Json} {cause : Cause}
  {stop : Stop}

theorem EncodedAs.container {js : List Json} (hr : (h.value r).isContainer = true)
    (hitems : List.Forall₂ h.EncodedAs (h.value r).children js) :
    h.EncodedAs r ((h.value r).document js) := by
  cases hv : h.value r with
  | list items =>
    rw [hv] at hitems
    exact .list hv hitems
  | dictionary entries =>
    rw [hv] at hitems
    exact .dictionary hv hitems
  | _ =>
    rw [hv] at hr
    cases hr

/-! ## Rows -/

section Rows

variable {convert convert' : Ref → Except Stop Json} {items : List Ref}

end Rows

/-! ## One round -/

/-- The containers that have been entered on the way to an object. -/
structure Descends (h : Heap) (path : List Ref) (r : Ref) : Prop where
  surrounds : ∀ p ∈ path, h.Surrounds p r
  nodup : path.Nodup
  exist : ∀ p ∈ path, p.index < h.size

namespace Descends

theorem nil (h : Heap) (r : Ref) : h.Descends [] r := ⟨nofun, .nil, nofun⟩

theorem child (hpath : h.Descends path r) (hr : (h.value r).isContainer = true) (hnot : r ∉ path)
    (hs : s ∈ (h.value r).children) : h.Descends (r :: path) s where
  surrounds := List.forall_mem_cons.2 ⟨.single hs, fun p hp => (hpath.surrounds p hp).tail hs⟩
  nodup := List.nodup_cons.2 ⟨hnot, hpath.nodup⟩
  exist := List.forall_mem_cons.2 ⟨lt_size_of_isContainer hr, hpath.exist⟩

theorem length_le (hpath : h.Descends path r) : path.length ≤ h.size :=
  length_le_size hpath.nodup hpath.exist

end Descends

end Heap

namespace Library

open Run

variable {r : Ref} {e : Engine}

/-- A List that holds another one twice. -/
example :
    (⟨#[.fresh (.list [⟨1⟩, ⟨1⟩]), .fresh (.list [⟨2⟩]), .fresh (.number 7)]⟩ : Heap).toJson ⟨0⟩ =
      .ok (.array [.array [.integer 7], .array [.integer 7]]) := rfl

end Library

end VimL
