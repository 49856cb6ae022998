import Mathlib.Data.List.Basic
import VimL.Proofs.Numerals
import VimL.Proofs.Spots

/-!
# Ranges of Lists and Blobs

A range is given by its first and its last position. A bound that is not written has a default, and
one below zero counts from the end. A removal asks for the elements from the first position to the
one after the last; if that is still below zero, it is counted from the end once more, so a range
that ends far in front of the container is not empty, but reaches to its other end.
-/

namespace VimL

open EStateM (Result)

/-! ## Bounds -/

namespace Run

variable {eval : Expr → Run Ref}

/-- A bound of a range is a Number that is written, or its default. -/
inductive Bounds (eval : Expr → Run Ref) (default : Int) (e : Engine) :
    Option Expr → Int → Engine → Prop where
  | omitted : Bounds eval default e none default e
  | written {x : Expr} {r : Ref} {n : Int} {e' : Engine} (hx : eval x e = .ok r e')
      (hn : e'.heap.value r = .number n) (hrange : Number.InRange n) :
      Bounds eval default e (some x) n e'

theorem Bounds.bound_eq {default n : Int} {x : Option Expr} {e e' : Engine}
    (h : Bounds eval default e x n e') : bound eval x default e = .ok n e' := by
  cases h with
  | omitted => rfl
  | @written x r _ _ hx hn hrange =>
    have hindex : index r e' = .ok n e' := by
      apply index_of_ok
      rw [hn]
      simp only [Value.toIndex, Value.toText, Number.ofText?_toText hrange]
    exact (bind_of_ok (f := index) hx).trans hindex

end Run

/-! ## Elements at positions -/

section Positions

variable {α : Type} (items : List α)

/-- The elements at the positions that are asked for, in their order. -/
def elementsAt (p : Nat → Bool) : List α := (items.zipIdx.filter fun x => p x.2).map (·.1)

theorem elementsAt_congr {p q : Nat → Bool} (h : ∀ i < items.length, p i = q i) :
    elementsAt items p = elementsAt items q := by
  unfold elementsAt
  congr 1
  apply List.filter_congr
  intro x hx
  exact h x.2 (by simpa using (List.mem_zipIdx hx).2.1)

theorem elementsAt_of_all {p : Nat → Bool} (h : ∀ i < items.length, p i = true) :
    elementsAt items p = items := by
  rw [elementsAt_congr items (q := fun _ => true) h]
  unfold elementsAt
  rw [List.filter_eq_self.2 fun _ _ => rfl, List.zipIdx_map_fst]

theorem length_elementsAt_lt {p : Nat → Bool} {i : Nat} (hi : i < items.length)
    (hp : p i = false) : (elementsAt items p).length < items.length := by
  unfold elementsAt
  rw [List.length_map, ← List.length_zipIdx (l := items) (i := 0)]
  apply List.length_filter_lt_length_iff_exists.2
  refine ⟨(items[i], i), ?_, by simp [hp]⟩
  rw [List.mem_zipIdx_iff_getElem?, List.getElem?_eq_getElem hi]

theorem elementsAt_cons (x : α) (p : Nat → Bool) :
    elementsAt (x :: items) p =
      (if p 0 then [x] else []) ++ elementsAt items fun i => p (i + 1) := by
  unfold elementsAt
  rw [List.zipIdx_cons', List.filter_cons, List.filter_map]
  have hshift : (fun x : α × Nat => p x.2) ∘ Prod.map id (· + 1) = fun x => p (x.2 + 1) := rfl
  rw [hshift]
  by_cases hp : p 0 = true
  · simp [hp, Function.comp_def]
  · simp [hp, Function.comp_def]

/-- All but the elements from one position to the one before another are what is in front of the
first and what begins at the second. -/
theorem elementsAt_take_drop {first stop : Nat} (h : first ≤ stop) :
    elementsAt items (fun i => decide (i < first ∨ stop ≤ i)) =
      items.take first ++ items.drop stop := by
  induction items generalizing first stop with
  | nil => simp [elementsAt]
  | cons x items ih =>
    rw [elementsAt_cons]
    cases stop with
    | zero =>
      obtain rfl : first = 0 := by omega
      have hall := elementsAt_of_all items (p := fun _ => true) fun _ _ => rfl
      simp [hall]
    | succ stop =>
      cases first with
      | zero =>
        have hrest := @ih 0 stop (by omega)
        simpa using hrest
      | succ first =>
        have hrest := @ih first stop (by omega)
        simpa using hrest

end Positions

/-! ## Removal -/

/-- The last position that a removal takes away, if the range ends at `last` in a container of
`size` elements: a place for the end that is still below zero is counted from the end again. -/
def lastRemoved (size : Nat) (last : Int) : Int := if last < -1 then last + size else last

namespace Value

/-- A List or a Blob with so many elements. -/
def IsSequence (size : Nat) : Value → Prop
  | .list items => items.length = size
  | .blob bytes => bytes.length = size
  | _ => False

/-- A List or Blob without its elements from one position to another, both included. -/
def without (first last : Int) : Value → Value
  | .list items => .list (elementsAt items fun i => decide ¬(first ≤ i ∧ i ≤ last))
  | .blob bytes => .blob (elementsAt bytes fun i => decide ¬(first ≤ i ∧ i ≤ last))
  | v => v

end Value

theorem Value.IsSequence.isScalar_eq {v : Value} {size : Nat} (h : v.IsSequence size) :
    v.isScalar = false := by
  cases v with
  | number | float | string => exact h.elim
  | _ => rfl

section Cutting

variable {α : Type} {items : List α} {size : Nat} {first : Int}

theorem cutAt_eq_elementsAt (last : Int) (hsize : items.length = size) (hfirst : 0 ≤ first) :
    (cutAt items first.toNat (last + 1)).1 ++ (cutAt items first.toNat (last + 1)).2.2 =
      elementsAt items fun i => decide ¬(first ≤ i ∧ i ≤ lastRemoved size last) := by
  have hstop : fromEnd items.length (last + 1) = lastRemoved size last + 1 := by
    unfold fromEnd lastRemoved
    rw [hsize]
    split <;> split <;> omega
  have hcut := elementsAt_take_drop items
    (Nat.le_max_left first.toNat (lastRemoved size last + 1).toNat)
  simp only [cutAt, hstop, ← hcut]
  apply elementsAt_congr
  intro i _
  rw [decide_eq_decide]
  omega

theorem elementsAt_removed_eq_iff (last : Int) (hsize : items.length = size)
    (hfirst : 0 ≤ first) :
    (elementsAt items fun i => decide ¬(first ≤ i ∧ i ≤ lastRemoved size last)) =
        (elementsAt items fun i => decide ¬(first ≤ i ∧ i ≤ last)) ↔
      ¬(last < -1 ∧ first ≤ last + size) := by
  unfold lastRemoved
  by_cases hfar : last < -1
  · -- the range is empty as it is written, so the other one has to be empty as well
    have hnone : (elementsAt items fun i => decide ¬(first ≤ i ∧ i ≤ last)) = items := by
      apply elementsAt_of_all
      intro i _
      rw [decide_eq_true_eq]
      omega
    rw [hnone, if_pos hfar]
    refine ⟨?_, fun hout => ?_⟩
    · rintro heq ⟨-, hin⟩
      have hlt := length_elementsAt_lt items (i := first.toNat) (by omega)
        (p := fun i => decide ¬(first ≤ i ∧ i ≤ last + size)) (by
          rw [decide_eq_false_iff_not]
          omega)
      rw [heq] at hlt
      exact Nat.lt_irrefl _ hlt
    · apply elementsAt_of_all
      intro i _
      rw [decide_eq_true_eq]
      omega
  · rw [if_neg hfar]
    exact ⟨fun _ h => hfar h.1, fun _ => rfl⟩

end Cutting

namespace Engine

/-- The engine once the elements of a range are taken out of a List or Blob. -/
def withoutRange (e : Engine) (x : Ref) (first last : Int) : Engine :=
  e.withHeap (e.heap.setValue x ((e.heap.value x).without first last))

end Engine

namespace Run

/-- The rule for a range whose bounds are `a` and `b`: if it starts at an element and does not end
behind the last one, its elements are removed, none if it ends before it starts. -/
def ObeysRemoval (x : Ref) (size : Nat) (a b : Int) (e : Engine)
    (ended : Result Stop Engine Unit) : Prop :=
  if 0 ≤ fromEnd size a ∧ fromEnd size a < size ∧ fromEnd size b < size then
    ended = .ok () (e.withoutRange x (fromEnd size a) (fromEnd size b))
  else ∃ n, ended = .error (.ofCause (.listIndex n)) e

variable {eval : Expr → Run Ref} {c : Context} {force : Bool} {container : Expr}
  {first last : Option Expr} {x : Ref} {size : Nat} {a b : Int} {e e₁ e₂ e₃ : Engine}

theorem rangeTargetSize_of_isSequence (h : (e.heap.value x).IsSequence size) :
    rangeTargetSize x e = .ok size e := by
  unfold rangeTargetSize
  rw [bind_of_ok (value_of_eq rfl)]
  cases hv : e.heap.value x with
  | list items | blob bytes =>
    rw [hv] at h
    dsimp only
    rw [show _ = size from h]
    rfl
  | _ =>
    rw [hv] at h
    exact h.elim

/-- What a removal does once its bounds are known and nothing is locked. -/
theorem unlet_slice_eq (hx : eval container e = .ok x e₁)
    (hsize₁ : (e₁.heap.value x).IsSequence size) (ha : Bounds eval 0 e₁ first a e₂)
    (hb : Bounds eval (size - 1) e₂ last b e₃) (hsize₃ : (e₃.heap.value x).IsSequence size)
    (hfree : e₃.heap.isLocked x = false)
    (hitems : ∀ r ∈ (e₃.heap.value x).parts, e₃.heap.isLocked r = false) :
    unlet eval c force (.slice container first last) e =
      if fromEnd size a < 0 ∨ size ≤ fromEnd size a then .error (.ofCause (.listIndex a)) e₃
      else if size ≤ fromEnd size b then .error (.ofCause (.listIndex b)) e₃
      else .ok () (e₃.withoutRange x (fromEnd size a) (lastRemoved size (fromEnd size b))) := by
  simp only [unlet, removeRange]
  rw [bind_of_ok hx, bind_of_ok (rangeTargetSize_of_isSequence hsize₁), bind_of_ok ha.bound_eq,
    bind_of_ok hb.bound_eq]
  by_cases hlow : fromEnd size a < 0 ∨ size ≤ fromEnd size a
  · simp only [hlow, if_true]
    rfl
  · have hfirst : 0 ≤ fromEnd size a := by omega
    simp only [hlow, if_false]
    by_cases hhigh : size ≤ fromEnd size b
    · simp only [hhigh, if_true]
      rfl
    · simp only [hhigh, if_false]
      rw [bind_of_ok (checkUnlocked_of_free hfree), bind_of_ok (value_of_eq rfl)]
      unfold Engine.withoutRange
      cases hv : e₃.heap.value x with
      | list items =>
        rw [hv] at hsize₃ hitems
        have hcut := cutAt_eq_elementsAt (fromEnd size b) hsize₃ hfirst
        have hunlocked : (cutAt items (fromEnd size a).toNat (fromEnd size b + 1)).2.1.any
            e₃.heap.isLocked = false := by
          rw [List.any_eq_false]
          intro r hr
          have hmem : r ∈ items := List.mem_of_mem_drop (List.mem_of_mem_take hr)
          rw [hitems r hmem]
          exact Bool.false_ne_true
        dsimp only [Value.without]
        rw [bind_of_ok (Spot.checkAllUnlocked_ok_iff.2 ⟨hunlocked, rfl⟩), hcut]
        rfl
      | blob bytes =>
        rw [hv] at hsize₃
        have hcut := cutAt_eq_elementsAt (fromEnd size b) hsize₃ hfirst
        dsimp only [Value.without]
        rw [hcut]
        rfl
      | _ =>
        rw [hv] at hsize₃
        exact hsize₃.elim

theorem without_eq_iff {v : Value} {first last : Int} (hsize : v.IsSequence size)
    (hfirst : 0 ≤ first) :
    v.without first (lastRemoved size last) = v.without first last ↔
      ¬(last < -1 ∧ first ≤ last + size) := by
  cases v with
  | list items =>
    rw [← elementsAt_removed_eq_iff _ hsize hfirst]
    exact Value.list.injEq _ _ ▸ Iff.rfl
  | blob bytes =>
    rw [← elementsAt_removed_eq_iff _ hsize hfirst]
    exact Value.blob.injEq _ _ ▸ Iff.rfl
  | _ => exact hsize.elim

theorem withoutRange_eq_iff {first : Int} (last : Int) (hsize : (e.heap.value x).IsSequence size)
    (hfirst : 0 ≤ first) :
    e.withoutRange x first (lastRemoved size last) = e.withoutRange x first last ↔
      ¬(last < -1 ∧ first ≤ last + size) := by
  rw [← without_eq_iff hsize hfirst]
  refine ⟨fun h => ?_, fun h => by unfold Engine.withoutRange; rw [h]⟩
  have hx : x.index < e.heap.size := by
    apply Heap.lt_size_of_not_isScalar
    exact hsize.isScalar_eq
  have hvalues : (e.withoutRange x first (lastRemoved size last)).heap.value x =
      (e.withoutRange x first last).heap.value x := by rw [h]
  unfold Engine.withoutRange at hvalues
  rwa [Engine.withHeap, Engine.withHeap, Heap.value_setValue_self _ _ hx,
    Heap.value_setValue_self _ _ hx] at hvalues

/-- The removal of a range from an unlocked List or Blob with unlocked items. A range that does not
start at an element or that ends behind the last one is refused, and nothing changes. Otherwise the
elements are removed from the first position to the last one, where a last position more than one
place in front of the container is counted from the end again. So the rule is broken exactly by a
range that is empty as it is written and not empty when its end is counted again. -/
theorem unlet_slice (hx : eval container e = .ok x e₁)
    (hsize₁ : (e₁.heap.value x).IsSequence size) (ha : Bounds eval 0 e₁ first a e₂)
    (hb : Bounds eval (size - 1) e₂ last b e₃) (hsize₃ : (e₃.heap.value x).IsSequence size)
    (hfree : e₃.heap.isLocked x = false)
    (hitems : ∀ r ∈ (e₃.heap.value x).parts, e₃.heap.isLocked r = false) :
    (unlet eval c force (.slice container first last) e =
      if fromEnd size a < 0 ∨ size ≤ fromEnd size a then .error (.ofCause (.listIndex a)) e₃
      else if size ≤ fromEnd size b then .error (.ofCause (.listIndex b)) e₃
      else .ok () (e₃.withoutRange x (fromEnd size a) (lastRemoved size (fromEnd size b)))) ∧
    (ObeysRemoval x size a b e₃ (unlet eval c force (.slice container first last) e) ↔
      ¬(fromEnd size b < -1 ∧ 0 ≤ fromEnd size a ∧ fromEnd size a ≤ fromEnd size b + size)) := by
  have hrun : unlet eval c force (.slice container first last) e = _ :=
    unlet_slice_eq hx hsize₁ ha hb hsize₃ hfree hitems
  refine ⟨hrun, ?_⟩
  rw [hrun]
  unfold ObeysRemoval
  by_cases hlow : fromEnd size a < 0 ∨ size ≤ fromEnd size a
  · have hout : ¬(0 ≤ fromEnd size a ∧ fromEnd size a < size ∧ fromEnd size b < size) := by omega
    rw [if_pos hlow, if_neg hout]
    refine ⟨fun _ => ?_, fun _ => ⟨a, rfl⟩⟩
    omega
  by_cases hhigh : size ≤ fromEnd size b
  · have hout : ¬(0 ≤ fromEnd size a ∧ fromEnd size a < size ∧ fromEnd size b < size) := by omega
    rw [if_neg hlow, if_pos hhigh, if_neg hout]
    refine ⟨fun _ => ?_, fun _ => ⟨b, rfl⟩⟩
    omega
  · have hfirst : 0 ≤ fromEnd size a := by omega
    have hin : 0 ≤ fromEnd size a ∧ fromEnd size a < size ∧ fromEnd size b < size := by omega
    rw [if_neg hlow, if_neg hhigh, if_pos hin]
    have hsame := withoutRange_eq_iff (fromEnd size b) hsize₃ hfirst
    refine ⟨fun h => ?_, fun h => ?_⟩
    · rintro ⟨hfar, -, hreach⟩
      injection h with _ h
      exact hsame.1 h ⟨hfar, hreach⟩
    · rw [hsame.2 fun hbroken => h ⟨hbroken.1, hfirst, hbroken.2⟩]

end Run

namespace Session

/-- A List with two items, and the bounds of a range that ends far in front of it. -/
def holdingPair : Engine :=
  (blank .standard).withHeap
    ⟨#[.fresh (.list [⟨1⟩, ⟨2⟩]), .fresh (.number 1), .fresh (.number 2), .fresh (.number 0),
      .fresh (.number (-4))]⟩

theorem isSequence_holdingPair : (holdingPair.heap.value ⟨0⟩).IsSequence 2 := rfl

theorem first_holdingPair :
    Run.Bounds evalLine 0 holdingPair (some (.const ⟨3⟩)) 0 holdingPair :=
  .written rfl rfl (by decide)

theorem last_holdingPair :
    Run.Bounds evalLine ((2 : Nat) - 1) holdingPair (some (.const ⟨4⟩)) (-4) holdingPair :=
  .written rfl rfl (by decide)

def pairRange : Expr := .slice (.const ⟨0⟩) (some (.const ⟨3⟩)) (some (.const ⟨4⟩))

/-- The first item is removed, though the range ends before it starts. -/
theorem unlet_slice_holdingPair :
    Run.unlet evalLine .commandLine false pairRange holdingPair =
      .ok () (holdingPair.withHeap (holdingPair.heap.setValue ⟨0⟩ (.list [⟨2⟩]))) := by
  have hsize := isSequence_holdingPair
  exact (Run.unlet_slice rfl hsize first_holdingPair last_holdingPair hsize rfl (by decide)).1

theorem not_forall_obeysRemoval : ¬∀ (eval : Expr → Run Ref) (c : Context) (force : Bool)
    (container : Expr) (first last : Option Expr) (x : Ref) (size : Nat) (a b : Int)
    (e e₁ e₂ e₃ : Engine), eval container e = .ok x e₁ → (e₁.heap.value x).IsSequence size →
      Run.Bounds eval 0 e₁ first a e₂ → Run.Bounds eval (size - 1) e₂ last b e₃ →
      (e₃.heap.value x).IsSequence size → e₃.heap.isLocked x = false →
      (∀ r ∈ (e₃.heap.value x).parts, e₃.heap.isLocked r = false) →
      Run.ObeysRemoval x size a b e₃ (Run.unlet eval c force (.slice container first last) e) := by
  intro hobeyed
  have hsize := isSequence_holdingPair
  have hrule := hobeyed evalLine .commandLine false (.const ⟨0⟩) _ _ _ _ _ _ holdingPair _ _ _ rfl
    hsize first_holdingPair last_holdingPair hsize rfl (by decide)
  have hended : Run.unlet evalLine .commandLine false pairRange holdingPair = _ :=
    Run.unlet_slice_eq rfl hsize first_holdingPair last_holdingPair hsize rfl (by decide)
  rw [show Expr.slice _ _ _ = pairRange from rfl, hended] at hrule
  have hin : 0 ≤ fromEnd 2 0 ∧ fromEnd 2 0 < (2 : Nat) ∧ fromEnd 2 (-4) < (2 : Nat) := by decide
  unfold Run.ObeysRemoval at hrule
  rw [if_pos hin] at hrule
  injection hrule with _ hsame
  exact (Run.withoutRange_eq_iff (fromEnd 2 (-4)) hsize (by decide)).1 hsame (by decide)

end Session

end VimL
