import VimL.Proofs.Invariants

/-!
# The kinds of objects in runs

Whatever runs, an object keeps its kind: containers are changed in place by containers of their
kind, and a scalar is replaced by a new object.
-/

namespace VimL

namespace Heap.KeepsKinds

variable {d : Demands} {e e' : Engine}

theorem of_same (h : e.SameVariables e') : e.heap.KeepsKinds e'.heap :=
  h.heap ▸ .refl e.heap

theorem of_edit (h : e.Edit d e') : e.heap.KeepsKinds e'.heap :=
  .of_value_eq h.size_value.1 h.size_value.2

/-- What a check allows to write is of the kind that the object has. -/
theorem write (hh : e.heap.KeepsKinds e'.heap) {r : Ref} {v : Value}
    (hpermits : e.Permits d e' r v) : e.heap.KeepsKinds (e'.heap.setValue r v) := by
  apply hh.setValue
  intro hin
  rw [← hh.kind r hin]
  cases hpermits with
  | unlocked _ hkind =>
    rcases hkind with hkind | hkind
    · rw [← hkind, hh.kind r hin]
    · exact hkind.symm
  | item _ _ _ hitems' hv =>
    rw [hv, hitems']
    rfl
  | entry _ _ _ hentries' hv =>
    rw [hv, hentries']
    rfl

end Heap.KeepsKinds

/-- Whether the next frame has a name already is not asked. -/
theorem Engine.unnamed_of_false {e : Engine} : False → e.Unnamed (.locals ⟨e.frames.size⟩) :=
  False.elim

/-- No run changes the kind of an object. -/
def Invariant.typing : Invariant where
  named := False
  linear := False
  holds _ := True
  keeps e e' := e.heap.KeepsKinds e'.heap
  unnamed _ := Engine.unnamed_of_false
  affords _ := False.elim
  blank _ := trivial
  holds_of_keeps _ _ := trivial
  trans h h' := h.trans h'
  same h _ := .of_same h
  edit _ h := .of_edit h
  create h _ := h.trans (.new _ _)
  write h _ hpermits _ := h.write hpermits

theorem Run.keepsKinds_of_ok {host : Host} {α : Type} {m : Run α} {a : α} {e e' : Engine}
    (hm : Keeps (Invariant.typing.discipline host) m) (h : m e = .ok a e') :
    e.heap.KeepsKinds e'.heap :=
  Invariant.typing.keeps_of_ends (hm.allows e) trivial (ends_ok_iff.2 h)

theorem Run.keepsKinds_of_eval {host : Host} {fuel : Nat} {c : Context} {x : Expr} {r : Ref}
    {e e' : Engine} (h : (Interp.ofFuel host fuel).eval c x e = .ok r e') :
    e.heap.KeepsKinds e'.heap :=
  keepsKinds_of_ok ((Invariant.typing.obeys host fuel).eval c x trivial) h

end VimL
