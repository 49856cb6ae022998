import Mathlib.Data.List.Basic
import Mathlib.Logic.Relation
import VimL.Proofs.Marks

/-!
# What locks reach

A lock only changes objects that its depth allows it to come to. A lock without an end comes to
everything that can be reached, also where containers hold each other.
-/

namespace VimL

theorem Value.children_subset_parts (v : Value) : v.children ⊆ v.parts := by
  cases v with
  | funcref => exact List.nil_subset _
  | _ => exact List.Subset.refl _

/-- The depth that is left for the items. -/
def depthBelow (depth : Int) : Int := if depth > 0 then depth - 1 else depth

namespace Heap

/-- The second object is the first one, or a part of what can be reached from it. -/
def Reaches (h : Heap) : Ref → Ref → Prop :=
  Relation.ReflTransGen fun r s => s ∈ (h.value r).parts

/-- A lock of the first object comes to the second one before its depth is used up. -/
inductive LockReaches (h : Heap) : Int → Ref → Ref → Prop where
  | self (depth : Int) (r : Ref) : LockReaches h depth r r
  | item {depth : Int} {r s t : Ref} (hdepth : depth ≠ 1) (hs : s ∈ (h.value r).children)
      (ht : LockReaches h (depthBelow depth) s t) : LockReaches h depth r t

variable {h h' : Heap} {depth : Int} {r s t : Ref}

theorem LockReaches.reaches (hr : h.LockReaches depth r s) : h.Reaches r s := by
  induction hr with
  | self => exact .refl
  | item _ hs _ ih => exact .head (Value.children_subset_parts _ hs) ih

/-- What is reached from one of some objects is one of them, if their parts are. -/
theorem Reaches.mem_of_closed {rs : List Ref} (hr : h.Reaches r s) (hin : r ∈ rs)
    (hclosed : ∀ r ∈ rs, ∀ s ∈ (h.value r).parts, s ∈ rs) : s ∈ rs := by
  induction hr with
  | refl => exact hin
  | tail _ hs ih => exact hclosed _ ih _ hs

theorem LockReaches.congr (hvalue : ∀ r, h'.value r = h.value r) (hr : h.LockReaches depth r s) :
    h'.LockReaches depth r s := by
  induction hr with
  | self depth r => exact .self depth r
  | item hdepth hs _ ih => exact .item hdepth ((hvalue _).symm ▸ hs) ih

/-! ## Objects that are left alone -/

section Marks

variable {mark : Cell → Cell} (hmark : ∀ c, (mark c).value = c.value)

include hmark

theorem value_iterate_mark (n : Nat) (c : Cell) : (mark^[n] c).value = c.value :=
  Function.Iterate.rec (fun c' : Cell => c'.value = c.value) rfl
    (fun c' hc' => (hmark c').trans hc') n

theorem value_markFrom (fuel : Nat) (state : List Ref × Heap) :
    (markFrom mark fuel depth state r).2.value s = state.2.value s := by
  obtain ⟨n, hcell⟩ := exists_iterate_markFrom r s mark fuel depth state
  unfold value
  rw [hcell]
  exact value_iterate_mark hmark n _

theorem value_modifyCell : (h.modifyCell r mark).value s = h.value s := by
  obtain ⟨n, hcell⟩ := exists_iterate_modifyCell h r s mark
  unfold value
  rw [hcell]
  exact value_iterate_mark hmark n _

/-! ### One step of a walk -/

omit hmark in
/-- A walk does not go on where its depth is used up, or where it has been before. -/
theorem markFrom_of_stop {seen : List Ref} (fuel : Nat) (hstop : depth = 1 ∨ r ∈ seen) :
    markFrom mark (fuel + 1) depth (seen, h) r = (seen, h.modifyCell r mark) := by
  unfold markFrom
  dsimp only
  rcases hstop with hdepth | hseen
  · exact if_pos hdepth
  · rw [if_pos hseen, ite_self]

theorem markFrom_of_new {seen : List Ref} (fuel : Nat) (hdepth : depth ≠ 1) (hnew : r ∉ seen) :
    markFrom mark (fuel + 1) depth (seen, h) r =
      (h.value r).children.foldl (markFrom mark fuel (depthBelow depth))
        (r :: seen, h.modifyCell r mark) := by
  rw [markFrom, if_neg hdepth, if_neg hnew, value_modifyCell hmark]
  rfl

theorem cell_markFrom_of_not_lockReaches (fuel : Nat) (state : List Ref × Heap)
    (hs : ¬state.2.LockReaches depth r s) :
    (markFrom mark fuel depth state r).2.cell s = state.2.cell s := by
  induction fuel generalizing depth state r with
  | zero => rfl
  | succ fuel ih =>
    obtain ⟨seen, h⟩ := state
    have hne : s ≠ r := by
      rintro rfl
      exact hs (.self depth s)
    have hfirst : (h.modifyCell r mark).cell s = h.cell s :=
      (cell_modifyCell h r s mark).resolve_right fun hnew => hne hnew.1
    by_cases hstop : depth = 1 ∨ r ∈ seen
    · rw [markFrom_of_stop fuel hstop]
      exact hfirst
    · obtain ⟨hdepth, hnew⟩ := not_or.1 hstop
      rw [markFrom_of_new hmark fuel hdepth hnew]
      -- the values do not change, so that what is reached stays the same
      let Kept (now : List Ref × Heap) : Prop :=
        (∀ t, now.2.value t = h.value t) ∧ now.2.cell s = h.cell s
      have hstart : Kept (r :: seen, h.modifyCell r mark) :=
        ⟨fun _ => value_modifyCell hmark, hfirst⟩
      have hitem (now : List Ref × Heap) (hnow : Kept now) (t : Ref)
          (ht : t ∈ (h.value r).children) : Kept (markFrom mark fuel (depthBelow depth) now t) := by
        refine ⟨fun x => (value_markFrom hmark fuel now).trans (hnow.1 x), ?_⟩
        rw [ih now fun hreaches => hs ?_, hnow.2]
        exact .item hdepth ht (hreaches.congr fun x => (hnow.1 x).symm)
      exact (List.foldlRecOn (motive := Kept) _ _ hstart hitem).2

end Marks

/-- A lock leaves everything alone that its depth does not let it come to. -/
theorem cell_lock_of_not_lockReaches (owner : Option Binding) (hs : ¬h.LockReaches depth r s) :
    (h.lock depth owner r).cell s = h.cell s := by
  have hvalue (c : Cell) : (c.lockedFor owner).value = c.value := rfl
  have hmarks := cell_markFrom_of_not_lockReaches hvalue (h.size + 1) ([], h) hs
  unfold lock
  cases owner with
  | none => exact hmarks
  | some b =>
    have hne : s ≠ r := by
      rintro rfl
      exact hs (.self depth s)
    exact ((cell_modifyCell _ r s _).resolve_right fun hnew => hne hnew.1).trans hmarks

/-! ## Locks without an end -/

theorem lt_size_of_children_ne_nil (hr : (h.value r).children ≠ []) : r.index < h.size := by
  refine lt_size_of_not_isScalar h r ?_
  cases hv : h.value r with
  | list | dictionary => rfl
  | _ => simp [hv, Value.children] at hr

/-- How many objects have not been visited. -/
def unseen (h : Heap) (seen : List Ref) : Nat :=
  ((List.range h.size).filter fun n => ⟨n⟩ ∉ seen).length

theorem unseen_le_of_subset {seen seen' : List Ref} (hsize : h'.size = h.size)
    (hseen : seen ⊆ seen') : h'.unseen seen' ≤ h.unseen seen := by
  unfold unseen
  rw [hsize]
  refine (List.monotone_filter_right _ fun n hn => ?_).length_le
  simp only [decide_eq_true_eq] at hn ⊢
  exact fun hin => hn (hseen hin)

theorem unseen_cons_lt {seen : List Ref} (hr : r.index < h.size) (hnew : r ∉ seen) :
    h.unseen (r :: seen) < h.unseen seen := by
  unfold unseen
  have hsub : ((List.range h.size).filter fun n => (⟨n⟩ : Ref) ∉ r :: seen).Sublist
      ((List.range h.size).filter fun n => (⟨n⟩ : Ref) ∉ seen) := by
    refine List.monotone_filter_right _ fun n hn => ?_
    simp only [decide_eq_true_eq] at hn ⊢
    exact fun hin => hn (List.mem_cons_of_mem _ hin)
  refine Nat.lt_of_le_of_ne hsub.length_le fun hlength => ?_
  have heq := hsub.eq_of_length hlength
  have hin : r.index ∈ (List.range h.size).filter fun n => (⟨n⟩ : Ref) ∉ seen := by
    simpa using ⟨hr, hnew⟩
  rw [← heq] at hin
  simp at hin

theorem unseen_le_size (h : Heap) (seen : List Ref) : h.unseen seen ≤ h.size := by
  have hle := List.length_filter_le (fun n => (⟨n⟩ : Ref) ∉ seen) (List.range h.size)
  rwa [List.length_range] at hle

/-- There is one object fewer to visit below a container that is visited for the first time. -/
theorem unseen_below_lt {mark : Cell → Cell} {seen : List Ref} {fuel : Nat} (hnew : r ∉ seen)
    (hfuel : h.unseen seen < fuel + 1) (hchildren : (h.value r).children ≠ []) :
    (h.modifyCell r mark).unseen (r :: seen) < fuel := by
  have hless := unseen_cons_lt (lt_size_of_children_ne_nil hchildren) hnew
  have hsame := unseen_le_of_subset (h.size_modifyCell r mark) (List.Subset.refl (r :: seen))
  omega

/-- Everything that was visited on the way from one state to the other is marked, and all of its
items have been visited. -/
structure Visits (mark : Cell → Cell) (before after : List Ref × Heap) : Prop where
  subset : before.1 ⊆ after.1
  size : after.2.size = before.2.size
  value : ∀ r, after.2.value r = before.2.value r
  iterated : ∀ r, ∃ n, after.2.cell r = mark^[n] (before.2.cell r)
  closed : ∀ r ∈ after.1, r ∉ before.1 → ∀ s ∈ (before.2.value r).children, s ∈ after.1
  marked : ∀ r ∈ after.1, r ∉ before.1 → r.index < before.2.size →
    ∃ n, after.2.cell r = mark^[n + 1] (before.2.cell r)

namespace Visits

variable {mark : Cell → Cell} {before between after : List Ref × Heap}

theorem refl (state : List Ref × Heap) : Visits mark state state where
  subset := List.Subset.refl _
  size := rfl
  value _ := rfl
  iterated _ := ⟨0, rfl⟩
  closed _ hr hnew := absurd hr hnew
  marked _ hr hnew := absurd hr hnew

theorem trans (hv : Visits mark before between) (hv' : Visits mark between after) :
    Visits mark before after := by
  refine ⟨List.Subset.trans hv.subset hv'.subset, hv'.size.trans hv.size,
    fun r => (hv'.value r).trans (hv.value r), fun r => ?_, fun r hr hnew s hs => ?_,
    fun r hr hnew hsize => ?_⟩
  · obtain ⟨n, hfirst⟩ := hv.iterated r
    obtain ⟨m, hrest⟩ := hv'.iterated r
    exact ⟨m + n, by rw [hrest, hfirst, Function.iterate_add_apply]⟩
  · by_cases hbetween : r ∈ between.1
    · exact hv'.subset (hv.closed r hbetween hnew s hs)
    · exact hv'.closed r hr hbetween s ((hv.value r).symm ▸ hs)
  · by_cases hbetween : r ∈ between.1
    · obtain ⟨n, hfirst⟩ := hv.marked r hbetween hnew hsize
      obtain ⟨m, hrest⟩ := hv'.iterated r
      exact ⟨m + n, by rw [hrest, hfirst, ← Function.iterate_add_apply]; rfl⟩
    · obtain ⟨n, hfirst⟩ := hv.iterated r
      obtain ⟨m, hrest⟩ := hv'.marked r hr hbetween (hv.size.symm ▸ hsize)
      refine ⟨m + n, ?_⟩
      rw [hrest, hfirst, ← Function.iterate_add_apply, Nat.add_right_comm]

/-- What a lock without an end comes to was visited, if everything was that was met on the way. -/
theorem mem_of_lockReaches (hv : Visits mark ([], h) after) (hdepth : depth < 1)
    (hs : h.LockReaches depth r s) (hr : r ∈ after.1) : s ∈ after.1 := by
  induction hs with
  | self => exact hr
  | item _ hs _ ih =>
    refine ih ?_ (hv.closed _ hr List.not_mem_nil _ hs)
    rwa [depthBelow, if_neg (by omega)]

end Visits

section Unbounded

variable {mark : Cell → Cell} (hmark : ∀ c, (mark c).value = c.value)

include hmark

omit hmark in
/-- The items of a container are all visited if every walk visits what it begins with. -/
theorem visits_foldl {fuel : Nat}
    (hone : ∀ r (state : List Ref × Heap), state.2.unseen state.1 < fuel →
      Visits mark state (markFrom mark fuel depth state r) ∧
        r ∈ (markFrom mark fuel depth state r).1)
    (rs : List Ref) (state : List Ref × Heap) (hfuel : rs ≠ [] → state.2.unseen state.1 < fuel) :
    Visits mark state (rs.foldl (markFrom mark fuel depth) state) ∧
      rs ⊆ (rs.foldl (markFrom mark fuel depth) state).1 := by
  induction rs generalizing state with
  | nil => exact ⟨.refl state, List.nil_subset _⟩
  | cons t rest ih =>
    have hleft := hfuel (List.cons_ne_nil _ _)
    obtain ⟨hfirst, ht⟩ := hone t state hleft
    have hstill := unseen_le_of_subset hfirst.size hfirst.subset
    obtain ⟨hrest, hall⟩ := ih (markFrom mark fuel depth state t) fun _ =>
      Nat.lt_of_le_of_lt hstill hleft
    rw [List.foldl_cons]
    exact ⟨hfirst.trans hrest, List.cons_subset.2 ⟨hrest.subset ht, hall⟩⟩

/-- A container that is marked before its items has been visited with them. -/
theorem Visits.of_items {seen : List Ref} {after : List Ref × Heap}
    (hitems : Visits mark (r :: seen, h.modifyCell r mark) after)
    (hall : (h.value r).children ⊆ after.1) : Visits mark (seen, h) after := by
  have hvalue (t : Ref) : (h.modifyCell r mark).value t = h.value t := value_modifyCell hmark
  have hsize : (h.modifyCell r mark).size = h.size := size_modifyCell h r mark
  constructor
  case subset => exact fun t ht => hitems.subset (List.mem_cons_of_mem _ ht)
  case size => exact hitems.size.trans hsize
  case value => exact fun t => (hitems.value t).trans (hvalue t)
  case iterated =>
    intro t
    obtain ⟨n, hfirst⟩ := exists_iterate_modifyCell h r t mark
    obtain ⟨m, hrest⟩ := hitems.iterated t
    exact ⟨m + n, by rw [hrest, hfirst, Function.iterate_add_apply]⟩
  case closed =>
    intro t ht hout s hs
    by_cases heq : t = r
    · subst heq
      exact hall hs
    · exact hitems.closed t ht (by simp [heq, hout]) s ((hvalue t).symm ▸ hs)
  case marked =>
    intro t ht hout hin
    by_cases heq : t = r
    · subst heq
      obtain ⟨m, hrest⟩ := hitems.iterated t
      exact ⟨m, by rw [hrest, cell_modifyCell_self h t mark hin, Function.iterate_succ_apply]⟩
    · obtain ⟨n, hfirst⟩ := exists_iterate_modifyCell h r t mark
      obtain ⟨m, hrest⟩ := hitems.marked t ht (by simp [heq, hout]) (hsize.symm ▸ hin)
      refine ⟨m + n, ?_⟩
      rw [hrest, hfirst, ← Function.iterate_add_apply, Nat.add_right_comm]

/-- A walk without an end visits everything that it can come to. -/
theorem visits_markFrom (hdepth : depth < 1) (fuel : Nat) (state : List Ref × Heap)
    (hfuel : state.2.unseen state.1 < fuel) :
    Visits mark state (markFrom mark fuel depth state r) ∧
      r ∈ (markFrom mark fuel depth state r).1 := by
  induction fuel generalizing state r with
  | zero => exact absurd hfuel (Nat.not_lt_zero _)
  | succ fuel ih =>
    obtain ⟨seen, h⟩ := state
    by_cases hseen : r ∈ seen
    · rw [markFrom_of_stop fuel (.inr hseen)]
      refine ⟨?_, hseen⟩
      constructor
      case subset => exact List.Subset.refl _
      case size => exact size_modifyCell h r mark
      case value => exact fun _ => value_modifyCell hmark
      case iterated => exact fun t => exists_iterate_modifyCell h r t mark
      case closed => exact fun t ht hnew => absurd ht hnew
      case marked => exact fun t ht hnew => absurd ht hnew
    · have hbelow : depthBelow depth = depth := if_neg (by omega)
      -- an object with items exists, so there is one fewer to visit
      obtain ⟨hitems, hall⟩ := visits_foldl (fun _ => ih) (h.value r).children
        (r :: seen, h.modifyCell r mark) (unseen_below_lt hseen hfuel)
      rw [markFrom_of_new hmark fuel (by omega) hseen, hbelow]
      exact ⟨hitems.of_items hmark hall, hitems.subset List.mem_cons_self⟩

end Unbounded

/-- A lock without an end locks everything that it can come to. -/
theorem locked_of_lockReaches (hdepth : depth < 1) (owner : Option Binding)
    (hs : h.LockReaches depth r s) (hin : s.index < h.size) :
    (h.lock depth owner r).isLocked s = true ∧
      (h.lock depth owner r).owner s = owner.map (·.canonicalName) := by
  have hvalue (c : Cell) : (c.lockedFor owner).value = c.value := rfl
  have hfuel : h.unseen [] < h.size + 1 := Nat.lt_succ_of_le (h.unseen_le_size [])
  obtain ⟨hvisits, hr⟩ := visits_markFrom (r := r) hvalue hdepth (h.size + 1) ([], h) hfuel
  have hvisited := hvisits.mem_of_lockReaches hdepth hs hr
  obtain ⟨n, hmarked⟩ := hvisits.marked s hvisited List.not_mem_nil hin
  rw [Cell.lockedFor_iterate] at hmarked
  unfold isLocked Heap.owner lock
  cases owner with
  | none =>
    rw [hmarked]
    exact ⟨rfl, rfl⟩
  | some b =>
    dsimp only
    rcases cell_modifyCell (markFrom (·.lockedFor (some b)) (h.size + 1) depth ([], h) r).2 r s
      (·.noted (.named b)) with hcell | ⟨-, -, hcell⟩
    all_goals
      rw [hcell, hmarked]
      exact ⟨rfl, rfl⟩

end Heap

end VimL
