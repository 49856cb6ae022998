import VimL.Copy
import VimL.Proofs.Room

/-!
# Kinds of objects

An object is a List, a Number or whatever it is for good: a write puts another value of the same
kind in the place of the old one.
-/

namespace VimL.Heap

/-- Objects that are there keep their kinds. -/
structure KeepsKinds (h h' : Heap) : Prop where
  size : h.size ≤ h'.size
  kind : ∀ r : Ref, r.index < h.size → (h'.value r).kind = (h.value r).kind

namespace KeepsKinds

variable {h h' h'' : Heap}

theorem of_value_eq (hsize : h'.size = h.size) (hvalue : ∀ r, h'.value r = h.value r) :
    h.KeepsKinds h' := ⟨Nat.le_of_eq hsize.symm, fun r _ => by rw [hvalue]⟩

theorem refl (h : Heap) : h.KeepsKinds h := .of_value_eq rfl fun _ => rfl

theorem trans (hh : h.KeepsKinds h') (hh' : h'.KeepsKinds h'') : h.KeepsKinds h'' := by
  refine ⟨Nat.le_trans hh.size hh'.size, fun r hr => ?_⟩
  rw [hh'.kind r (Nat.lt_of_lt_of_le hr hh.size), hh.kind r hr]

theorem new (h : Heap) (v : Value) : h.KeepsKinds (h.new v).2 := by
  refine ⟨by simp only [size_new]; omega, fun r hr => ?_⟩
  have hne : r ≠ (h.new v).1 := by
    rintro rfl
    exact Nat.lt_irrefl _ hr
  rw [h.value_new_of_ne v hne]

theorem setValue (hh : h.KeepsKinds h') {r : Ref} {v : Value}
    (hv : r.index < h.size → v.kind = (h.value r).kind) : h.KeepsKinds (h'.setValue r v) := by
  refine ⟨by rw [size_setValue]; exact hh.size, fun s hs => ?_⟩
  by_cases hsr : s = r
  · subst hsr
    rw [h'.value_setValue_self v (Nat.lt_of_lt_of_le hs hh.size), hv hs]
  · rw [h'.value_setValue_of_ne v hsr, hh.kind s hs]

theorem stored (h : Heap) (r : Ref) : h.KeepsKinds (h.stored r).2 := by
  unfold Heap.stored
  dsimp only
  split
  · exact new h _
  · exact refl h

theorem copyEach {copy : Copies × Heap → Ref → Ref × Copies × Heap}
    (hcopy : ∀ (state : Copies × Heap) r, state.2.KeepsKinds (copy state r).2.2)
    (state : Copies × Heap) (items : List Ref) :
    state.2.KeepsKinds (Heap.copyEach copy state items).2.2 := by
  induction items generalizing state with
  | nil => exact refl _
  | cons r rest ih => exact (hcopy state r).trans (ih (copy state r).2)

/-- A deep copy writes only to the containers that it has made. -/
theorem deepCopyFrom (fuel : Nat) (state : Copies × Heap) (r : Ref) :
    state.2.KeepsKinds (Heap.deepCopyFrom fuel state r).2.2 := by
  induction fuel generalizing state r with
  | zero => exact stored state.2 r
  | succ fuel ih =>
    obtain ⟨copies, h⟩ := state
    have hfill (v w : Value) (items : List Ref) : h.KeepsKinds
        ((Heap.copyEach (Heap.deepCopyFrom fuel) ((r, (h.new v).1) :: copies, (h.new v).2)
          items).2.2.setValue (h.new v).1 w) := by
      have hitems := copyEach ih ((r, (h.new v).1) :: copies, (h.new v).2) items
      apply ((new h v).trans hitems).setValue
      intro hin
      exact absurd hin (Nat.lt_irrefl _)
    simp only [Heap.deepCopyFrom]
    cases h.value r with
    | list items =>
      cases copies.lookup r with
      | some c => exact refl h
      | none => exact hfill _ _ items
    | dictionary entries =>
      cases copies.lookup r with
      | some c => exact refl h
      | none => exact hfill _ _ entries.values
    | funcref f => exact refl h
    | number | float | string | blob => exact new h _

/-- What is a Dictionary stays one. -/
theorem exists_entries (hh : h.KeepsKinds h') {r : Ref} (hr : (h.value r).kind = .dictionary) :
    ∃ entries, h'.value r = .dictionary entries := by
  have hscalar : (h.value r).isScalar = false := by
    cases hv : h.value r <;> rw [hv] at hr <;> cases hr
    rfl
  have hkind : (h'.value r).kind = .dictionary :=
    (hh.kind r (h.lt_size_of_not_isScalar r hscalar)).trans hr
  cases hv : h'.value r <;> rw [hv] at hkind <;> cases hkind
  exact ⟨_, rfl⟩

end KeepsKinds

end VimL.Heap
