import Mathlib.Algebra.BigOperators.Intervals
import VimL.Proofs.Marks
import VimL.Proofs.Steps

/-!
# Room for objects

A scalar that is stored is a copy, so that one value at most holds it. An operation first comes by
the objects that it puts into a value; it may run scripts before it does so, and these must not put
them anywhere else. So the places for an object are counted. An object that exists has room in one
place, and each place that holds it takes room. Along a run, the room for an object that is not
handed on does not become less, and what an operation puts into a value is paid for by the room
that it has gained before.
-/

namespace VimL

theorem List.count_set_le {α : Type} [DecidableEq α] {items : List α} {i : Nat}
    (hi : i < items.length) (a b : α) :
    (items.set i a).count b ≤ items.count b + [a].count b := by
  rw [List.count_set hi, List.count_singleton]
  omega

/-! ## Values of tables -/

namespace Table

variable {α : Type} [DecidableEq α]

theorem count_values_insert (t : Table α) (name : String) (a b : α) :
    (t.insert name a).values.count b ≤ t.values.count b + [a].count b := by
  have hentries (entries : List (String × α)) :
      ((insertIn name a entries).map (·.2)).count b ≤
        (entries.map (·.2)).count b + [a].count b := by
    induction entries with
    | nil => simp [insertIn]
    | cons entry rest ih =>
      unfold insertIn
      split
      · simp only [List.map_cons, List.count_cons, List.count_nil]
        omega
      · simp only [List.map_cons, List.count_cons] at ih ⊢
        omega
  exact hentries t.entries

theorem count_values_erase (t : Table α) (name : String) (b : α) :
    (t.erase name).values.count b ≤ t.values.count b :=
  (List.filter_sublist.map _).count_le b

theorem count_values_withValues (t : Table α) (values : List α) (b : α) :
    (t.withValues values).values.count b ≤ values.count b := by
  have hzip (names : List String) (values : List α) :
      ((names.zip values).map (·.2)).Sublist values := by
    induction names generalizing values with
    | nil => exact List.nil_sublist _
    | cons name rest ih =>
      cases values with
      | nil => exact List.nil_sublist _
      | cons value values => exact (ih values).cons_cons value
  exact (hzip t.keys values).count_le b

theorem count_values_ofList (entries : List (String × α)) (b : α) :
    (ofList entries).values.count b ≤ (entries.map (·.2)).count b := by
  have hfold (entries : List (String × α)) (t : Table α) :
      (entries.foldl (fun t entry => t.insert entry.1 entry.2) t).values.count b ≤
        t.values.count b + (entries.map (·.2)).count b := by
    induction entries generalizing t with
    | nil => simp
    | cons entry rest ih =>
      have hrest := ih (t.insert entry.1 entry.2)
      have hfirst := t.count_values_insert entry.1 entry.2 b
      simp only [List.foldl_cons, List.map_cons, List.count_cons, List.count_nil] at *
      omega
  have h := hfold entries empty
  have hempty : (empty : Table α).values = [] := rfl
  rw [hempty, List.count_nil, Nat.zero_add] at h
  exact h

end Table

/-! ## Holders -/

namespace Heap

variable (h : Heap) (r s : Ref) (v : Value)

theorem cell_new_self : (h.new v).2.cell (h.new v).1 = .fresh v := by
  simp [cell, new, size]

theorem value_new_self : (h.new v).2.value (h.new v).1 = v := by
  simp [value, cell, new, size, Cell.fresh]

theorem value_new_of_ne {r : Ref} (hr : r ≠ (h.new v).1) : (h.new v).2.value r = h.value r := by
  have hindex : r.index ≠ h.cells.size := fun heq => hr (by cases r; exact congrArg Ref.mk heq)
  simp only [value, cell, new, Array.getD_eq_getD_getElem?, Array.getElem?_push, if_neg hindex]

theorem value_setValue_of_ne {r s : Ref} (hs : s ≠ r) :
    (h.setValue r v).value s = h.value s := by
  rcases h.cell_modifyCell r s (fun c => { c with value := v }) with hcell | ⟨heq, -, -⟩
  · exact congrArg Cell.value hcell
  · exact absurd heq hs

theorem value_setValue_self {r : Ref} (hr : r.index < h.size) : (h.setValue r v).value r = v :=
  congrArg Cell.value (h.cell_modifyCell_self r (fun c => { c with value := v }) hr)

/-- How many places there are that hold the object. -/
def holders : Nat := ∑ n ∈ Finset.range h.size, (h.value ⟨n⟩).parts.count s

/-- How many more places may hold the object, if it is to have one when it exists. -/
def room : Int := (if s.index < h.size then 1 else 0) - h.holders s

variable {h} in
theorem holders_congr {h' : Heap} (hsize : h'.size = h.size)
    (hvalue : ∀ r, h'.value r = h.value r) : h'.holders s = h.holders s := by
  unfold holders
  rw [hsize]
  exact Finset.sum_congr rfl fun n _ => by rw [hvalue]

variable {h} in
theorem room_congr {h' : Heap} (hsize : h'.size = h.size) (hvalue : ∀ r, h'.value r = h.value r) :
    h'.room s = h.room s := by
  unfold room
  rw [hsize, holders_congr s hsize hvalue]

@[simp] theorem size_new : (h.new v).2.size = h.size + 1 := by
  simp [size, new]

@[simp] theorem size_setValue : (h.setValue r v).size = h.size := by
  simp [size, setValue, modifyCell]

theorem holders_new : (h.new v).2.holders s = h.holders s + v.parts.count s := by
  have hlast : (h.new v).2.value ⟨h.size⟩ = v := h.value_new_self v
  unfold holders
  rw [size_new, Finset.sum_range_succ, hlast]
  congr 1
  refine Finset.sum_congr rfl fun n hn => ?_
  have hne : (⟨n⟩ : Ref) ≠ (h.new v).1 := fun heq =>
    Nat.ne_of_lt (Finset.mem_range.1 hn) (congrArg Ref.index heq)
  rw [h.value_new_of_ne v hne]

theorem room_new : (h.new v).2.room s =
    h.room s + (if s = (h.new v).1 then 1 else 0) - v.parts.count s := by
  have hindex : s = (h.new v).1 ↔ s.index = h.size :=
    ⟨congrArg Ref.index, fun heq => by cases s; exact congrArg Ref.mk heq⟩
  unfold room
  rw [holders_new, size_new]
  simp only [hindex]
  push_cast
  split <;> split <;> split <;> omega

theorem holders_setValue :
    (h.setValue r v).holders s + (h.value r).parts.count s ≤ h.holders s + v.parts.count s := by
  by_cases hr : r.index < h.size
  · have hin : r.index ∈ Finset.range h.size := Finset.mem_range.2 hr
    have hrest : ∀ n ∈ (Finset.range h.size).erase r.index,
        ((h.setValue r v).value ⟨n⟩).parts.count s = (h.value ⟨n⟩).parts.count s := by
      intro n hn
      have hne : (⟨n⟩ : Ref) ≠ r := fun heq => Finset.ne_of_mem_erase hn (congrArg Ref.index heq)
      rw [h.value_setValue_of_ne v hne]
    have hself : (h.setValue r v).value ⟨r.index⟩ = v := h.value_setValue_self v hr
    have hold : h.value ⟨r.index⟩ = h.value r := rfl
    unfold holders
    rw [size_setValue, ← Finset.add_sum_erase _ _ hin, ← Finset.add_sum_erase _ _ hin,
      Finset.sum_congr rfl hrest, hself, hold]
    omega
  · have hvalue : h.value r = default := by
      rw [value, h.cell_of_size_le r (Nat.le_of_not_lt hr)]
      rfl
    have hsame : h.setValue r v = h := by
      have hout : h.cells.size ≤ r.index := Nat.le_of_not_lt hr
      simp [setValue, modifyCell, Array.modify, Array.modifyM, Nat.not_lt.2 hout]
    rw [hsame, hvalue]
    exact Nat.add_le_add_left (Nat.zero_le _) _

theorem room_setValue :
    h.room s + (h.value r).parts.count s ≤ (h.setValue r v).room s + v.parts.count s := by
  have hholders := h.holders_setValue r s v
  unfold room
  rw [size_setValue]
  omega

variable {h r s} in
theorem lt_size_of_mem_parts (hs : s ∈ (h.value r).parts) : r.index < h.size := by
  refine lt_size_of_not_isScalar h r ?_
  cases hv : h.value r with
  | number | float | string => simp [hv, Value.parts] at hs
  | _ => rfl

variable {h s} in
/-- An object that has room left in no other place is held by one value. -/
theorem eq_of_mem_parts (hs : 0 ≤ h.room s) {r r' : Ref} (hr : s ∈ (h.value r).parts)
    (hr' : s ∈ (h.value r').parts) : r = r' := by
  by_contra hne
  have hindex : r'.index ≠ r.index := fun heq => hne (by cases r; cases r'; cases heq; rfl)
  have hin := Finset.mem_range.2 (lt_size_of_mem_parts hr)
  have hin' := Finset.mem_erase.2 ⟨hindex, Finset.mem_range.2 (lt_size_of_mem_parts hr')⟩
  have htwo : 1 < h.holders s := by
    unfold holders
    rw [← Finset.add_sum_erase _ _ hin, ← Finset.add_sum_erase _ _ hin']
    have hone : 0 < (h.value r).parts.count s := List.count_pos_iff.2 hr
    have hother : 0 < (h.value r').parts.count s := List.count_pos_iff.2 hr'
    have heq : (⟨r.index⟩ : Ref) = r := rfl
    have heq' : (⟨r'.index⟩ : Ref) = r' := rfl
    rw [heq, heq']
    omega
  unfold room at hs
  split at hs <;> omega

end Heap

/-! ## Room along a run -/

namespace Engine

/-- Since the first engine, there is more room for these objects, as often as they are named; of
scalars that are not handed on, there is less room for none. -/
structure Affords (e e' : Engine) (rs : List Ref) : Prop where
  scalar : ∀ s, (e'.heap.value s).isScalar = true → (e.heap.value s).isScalar = true
  handedOn : e.handedOn ⊆ e'.handedOn
  room : ∀ s, (e'.heap.value s).isScalar = true → s ∉ e'.handedOn →
    e.heap.room s + rs.count s ≤ e'.heap.room s

variable {e e' e'' : Engine} {rs rs' : List Ref}

namespace Affords

theorem refl (e : Engine) : e.Affords e [] :=
  ⟨fun _ => id, List.Subset.refl _, fun s _ _ => by simp⟩

theorem trans (h : e.Affords e' rs) (h' : e'.Affords e'' rs') : e.Affords e'' (rs ++ rs') := by
  refine ⟨fun s hs => h.scalar s (h'.scalar s hs), fun _ hs => h'.handedOn (h.handedOn hs),
    fun s hs hkept => ?_⟩
  have hfirst := h.room s (h'.scalar s hs) fun hin => hkept (h'.handedOn hin)
  have hrest := h'.room s hs hkept
  rw [List.count_append]
  push_cast
  omega

theorem mono (h : e.Affords e' rs) (hrs : ∀ s, rs'.count s ≤ rs.count s) : e.Affords e' rs' := by
  refine ⟨h.scalar, h.handedOn, fun s hs hkept => ?_⟩
  have hroom := h.room s hs hkept
  have hle := hrs s
  omega

/-- What is no scalar, or is handed on, needs no room. -/
theorem append (h : e.Affords e' rs) (hrs : ∀ r ∈ rs', (e'.heap.value r).isScalar = true →
    r ∈ e'.handedOn) : e.Affords e' (rs' ++ rs) := by
  refine ⟨h.scalar, h.handedOn, fun s hs hkept => ?_⟩
  have hnone : rs'.count s = 0 := List.count_eq_zero.2 fun hin => hkept (hrs s hin hs)
  have hroom := h.room s hs hkept
  rw [List.count_append, hnone, Nat.zero_add]
  exact hroom

theorem of_value_eq (hsize : e'.heap.size = e.heap.size)
    (hvalue : ∀ r, e'.heap.value r = e.heap.value r) (hhanded : e.handedOn ⊆ e'.handedOn) :
    e.Affords e' [] := by
  refine ⟨fun s hs => hvalue s ▸ hs, hhanded, fun s _ _ => ?_⟩
  rw [Heap.room_congr s hsize hvalue, List.count_nil]
  omega

theorem of_heap_eq (hheap : e'.heap = e.heap) (hhanded : e.handedOn ⊆ e'.handedOn) :
    e.Affords e' [] := .of_value_eq (by rw [hheap]) (fun r => by rw [hheap]) hhanded

/-- A new object takes the room that its parts were afforded, and brings room for itself. -/
theorem new {v : Value} (h : e.Affords e' (v.parts ++ rs)) :
    e.Affords (e'.withHeap (e'.heap.new v).2) ((e'.heap.new v).1 :: rs) := by
  have hnone : (e'.heap.value (e'.heap.new v).1).isScalar = true := by
    have hout : e'.heap.size ≤ (e'.heap.new v).1.index := Nat.le_refl _
    rw [Heap.value, Heap.cell_of_size_le _ _ hout]
    rfl
  have hscalar (s : Ref) (hs : ((e'.heap.new v).2.value s).isScalar = true) :
      (e'.heap.value s).isScalar = true := by
    by_cases hnew : s = (e'.heap.new v).1
    · rw [hnew]
      exact hnone
    · rwa [Heap.value_new_of_ne _ v hnew] at hs
  refine ⟨fun s hs => h.scalar s (hscalar s hs), h.handedOn, fun s hs hkept => ?_⟩
  have hroom := h.room s (hscalar s hs) hkept
  have hnew : (e'.withHeap (e'.heap.new v).2).heap.room s = _ := e'.heap.room_new s v
  rw [hnew, List.count_cons]
  rw [List.count_append] at hroom
  simp only [beq_iff_eq, eq_comm (a := s)]
  split <;> omega

theorem new_of_parts {v : Value} (h : e.Affords e' v.parts) :
    e.Affords (e'.withHeap (e'.heap.new v).2) [(e'.heap.new v).1] := by
  rw [← List.append_nil v.parts] at h
  exact h.new

/-- A new value of an object takes the room of its parts, and leaves that of the old ones. -/
theorem setValue {r : Ref} {v : Value} (hv : v.isScalar = false) (h : e.Affords e' rs)
    (hparts : ∀ s, v.parts.count s + rs'.count s ≤ (e'.heap.value r).parts.count s + rs.count s) :
    e.Affords (e'.withHeap (e'.heap.setValue r v)) rs' := by
  have hscalar (s : Ref) (hs : ((e'.heap.setValue r v).value s).isScalar = true) :
      (e'.heap.value s).isScalar = true := by
    rcases e'.heap.value_setValue r s v with hnew | hold
    · rw [hnew, hv] at hs
      cases hs
    · rwa [hold] at hs
  refine ⟨fun s hs => h.scalar s (hscalar s hs), h.handedOn, fun s hs hkept => ?_⟩
  have hroom := h.room s (hscalar s hs) hkept
  have hset : e'.heap.room s + _ ≤ (e'.withHeap (e'.heap.setValue r v)).heap.room s + _ :=
    e'.heap.room_setValue r s v
  have hcount := hparts s
  omega

end Affords

end Engine

end VimL
