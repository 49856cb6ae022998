import VimL.Proofs.Typing

/-!
# References to functions in runs

A reference to a function is never changed in place: neither its function nor the arguments and the
receiver that it is bound to. Who stores a function that needs a receiver in a Dictionary, reads it
there or binds it gets a new reference.
-/

namespace VimL

namespace Heap

/-- References to functions are what they were. -/
structure KeepsFuncrefs (h h' : Heap) : Prop where
  size : h.size ≤ h'.size
  funcref : ∀ r f, h.value r = .funcref f → h'.value r = .funcref f

namespace KeepsFuncrefs

variable {h h' h'' : Heap} {d : Demands} {e e' : Engine}

theorem of_value_eq (hsize : h'.size = h.size) (hvalue : ∀ r, h'.value r = h.value r) :
    h.KeepsFuncrefs h' :=
  ⟨Nat.le_of_eq hsize.symm, fun r _ hf => (hvalue r).trans hf⟩

theorem refl (h : Heap) : h.KeepsFuncrefs h := .of_value_eq rfl fun _ => rfl

theorem trans (hh : h.KeepsFuncrefs h') (hh' : h'.KeepsFuncrefs h'') : h.KeepsFuncrefs h'' :=
  ⟨Nat.le_trans hh.size hh'.size, fun r f hf => hh'.funcref r f (hh.funcref r f hf)⟩

theorem new (h : Heap) (v : Value) : h.KeepsFuncrefs (h.new v).2 := by
  refine ⟨by simp only [size_new]; omega, fun r f hf => ?_⟩
  have hin : r.index < h.size := h.lt_size_of_not_isScalar r (by rw [hf]; rfl)
  have hne : r ≠ (h.new v).1 := by
    rintro rfl
    exact Nat.lt_irrefl _ hin
  rw [h.value_new_of_ne v hne]
  exact hf

/-- What is written over is no reference to a function. -/
theorem setValue (hh : h.KeepsFuncrefs h') {r : Ref} (v : Value)
    (hr : ∀ f, h.value r ≠ .funcref f) : h.KeepsFuncrefs (h'.setValue r v) := by
  refine ⟨by rw [size_setValue]; exact hh.size, fun s f hf => ?_⟩
  have hne : s ≠ r := by
    rintro rfl
    exact hr f hf
  rw [h'.value_setValue_of_ne v hne]
  exact hh.funcref s f hf

theorem of_edit (h : e.Edit d e') : e.heap.KeepsFuncrefs e'.heap :=
  .of_value_eq h.size_value.1 h.size_value.2

/-- What a check allows to write is a container, and so is what it is written over. -/
theorem write (hh : e.heap.KeepsFuncrefs e'.heap) {r : Ref} {v : Value}
    (hv : v.isCompound = true) (hpermits : e.Permits d e' r v) :
    e.heap.KeepsFuncrefs (e'.heap.setValue r v) := by
  apply hh.setValue
  intro f hf
  have hf' := hh.funcref r f hf
  cases hpermits with
  | unlocked _ hkind =>
    rw [hf, hf', or_self] at hkind
    cases v <;> cases hv <;> cases hkind
  | item hitems =>
    rw [hf] at hitems
    cases hitems
  | entry hentries =>
    rw [hf] at hentries
    cases hentries

end KeepsFuncrefs

end Heap

/-- No run changes a reference to a function. -/
def Invariant.referring : Invariant where
  named := False
  linear := False
  holds _ := True
  keeps e e' := e.heap.KeepsFuncrefs e'.heap
  unnamed _ := Engine.unnamed_of_false
  affords _ := False.elim
  blank _ := trivial
  holds_of_keeps _ _ := trivial
  trans h h' := h.trans h'
  same h _ := h.heap ▸ .refl _
  edit _ h := .of_edit h
  create h _ := h.trans (.new _ _)
  write h hv hpermits _ := h.write hv hpermits

/-- Whatever the interpreter runs, references to functions are what they were. -/
structure Interp.KeepsFuncrefs (i : Interp) : Prop where
  eval : ∀ {c x e ended e'}, (i.eval c x).Ends e ended e' → e.heap.KeepsFuncrefs e'.heap
  exec : ∀ {c s e ended e'}, e.interrupted = false → (i.exec c s).Ends e ended e' →
    e.heap.KeepsFuncrefs e'.heap
  call : ∀ {c h arguments receiver e ended e'}, (i.call c h arguments receiver).Ends e ended e' →
    e.heap.KeepsFuncrefs e'.heap

theorem Interp.keepsFuncrefs_ofFuel (host : Host) (fuel : Nat) :
    (ofFuel host fuel).KeepsFuncrefs := by
  have hobeys := Invariant.referring.obeys host fuel
  constructor
  · intro c x e ended e' h
    have heval := (hobeys.eval c x trivial).allows e
    exact Invariant.referring.keeps_of_ends heval trivial h
  · intro c s e ended e' hpending h
    have hexec := hobeys.exec e c .top s trivial False.elim hpending
    exact Invariant.referring.keeps_of_ends hexec trivial h
  · intro c h arguments receiver e ended e' hends
    have hcall := hobeys.call e c h arguments receiver ⟨False.elim, False.elim⟩
    exact Invariant.referring.keeps_of_ends hcall trivial hends

end VimL
