import Mathlib.Logic.Function.Iterate
import VimL.Copy
import VimL.Lock

/-!
# What locks do to objects

A lock or an unlock marks every object that it reaches, some of them more than once, and leaves all
others alone.
-/

namespace VimL

namespace Cell

theorem lockedFor_iterate (owner : Option Binding) (n : Nat) (c : Cell) :
    (lockedFor · owner)^[n + 1] c = {
      c with
      locked := true
      owner := owner.map (·.canonicalName)
      notes := List.replicate (n + 1) (.locked owner) ++ c.notes } := by
  induction n with
  | zero => rfl
  | succ n ih =>
    rw [Function.iterate_succ_apply', ih]
    rfl

theorem unlocked_iterate (n : Nat) (c : Cell) :
    unlocked^[n + 1] c = {
      c with
      locked := false
      owner := none
      notes := List.replicate (n + 1) .unlocked ++ c.notes } := by
  induction n with
  | zero => rfl
  | succ n ih =>
    rw [Function.iterate_succ_apply', ih]
    rfl

end Cell

namespace Heap

variable (h : Heap) (r other : Ref)

theorem cell_modifyCell_self (f : Cell → Cell) (hr : r.index < h.size) :
    (h.modifyCell r f).cell r = f (h.cell r) := by
  have hsome : h.cells[r.index]? = some h.cells[r.index] := Array.getElem?_eq_getElem hr
  simp [cell, modifyCell, Array.getD_eq_getD_getElem?, Array.getElem?_modify, hsome]

theorem cell_modifyCell (f : Cell → Cell) :
    (h.modifyCell r f).cell other = h.cell other ∨
      other = r ∧ r.index < h.size ∧ (h.modifyCell r f).cell other = f (h.cell other) := by
  by_cases hr : r.index = other.index
  · obtain rfl : r = other := by cases r; cases other; exact congrArg _ hr
    by_cases hin : r.index < h.size
    · exact .inr ⟨rfl, hin, cell_modifyCell_self h r f hin⟩
    · have hnone : h.cells[r.index]? = none := Array.getElem?_eq_none (Nat.le_of_not_lt hin)
      left
      simp [cell, modifyCell, Array.getD_eq_getD_getElem?, Array.getElem?_modify, hnone]
  · left
    simp [cell, modifyCell, Array.getD_eq_getD_getElem?, Array.getElem?_modify, hr]

@[simp] theorem size_modifyCell (f : Cell → Cell) : (h.modifyCell r f).size = h.size := by
  simp [size, modifyCell]

section Marks

variable (mark : Cell → Cell)

variable {h r other} in
/-- One more mark does not take any marks away. -/
theorem exists_iterate_of_modifyCell {c : Cell} {k : Nat}
    (hmarks : ∃ n, h.cell other = mark^[n + k] c) :
    ∃ n, (h.modifyCell r mark).cell other = mark^[n + k] c := by
  obtain ⟨n, hn⟩ := hmarks
  rcases cell_modifyCell h r other mark with hold | ⟨-, -, hnew⟩
  · exact ⟨n, hold.trans hn⟩
  · refine ⟨n + 1, ?_⟩
    rw [hnew, hn, Nat.add_right_comm, Function.iterate_succ_apply']

theorem exists_iterate_modifyCell :
    ∃ n, (h.modifyCell r mark).cell other = mark^[n] (h.cell other) :=
  exists_iterate_of_modifyCell (k := 0) mark ⟨0, rfl⟩

section Invariants

variable {mark : Cell → Cell} {P : List Ref × Heap → Prop}
  (hmarked : ∀ seen h r, P (seen, h) → P (seen, h.modifyCell r mark))
  (hvisited : ∀ seen h r, P (seen, h) → P (r :: seen, h.modifyCell r mark))
  {state : List Ref × Heap} (hstate : P state)

include hmarked hvisited hstate

/-- A walk puts one mark after the other. What each of them keeps, the walk keeps. -/
theorem markFrom_invariant (fuel : Nat) (depth : Int) (r : Ref) :
    P (markFrom mark fuel depth state r) := by
  induction fuel generalizing depth state r with
  | zero => exact hstate
  | succ fuel ih =>
    obtain ⟨seen, h⟩ := state
    simp only [markFrom]
    split
    · exact hmarked seen h r hstate
    · split
      · exact hmarked seen h r hstate
      · exact List.foldlRecOn _ _ (hvisited seen h r hstate) fun _ hnow s _ => ih hnow _ s

theorem foldl_markFrom_invariant (fuel : Nat) (depth : Int) (rs : List Ref) :
    P (rs.foldl (markFrom mark fuel depth) state) :=
  List.foldlRecOn rs _ hstate fun _ hnow r _ =>
    markFrom_invariant hmarked hvisited hnow fuel depth r

end Invariants

theorem exists_iterate_markFrom (fuel : Nat) (depth : Int) (state : List Ref × Heap) :
    ∃ n, (markFrom mark fuel depth state r).2.cell other = mark^[n] (state.2.cell other) :=
  markFrom_invariant (P := fun now => ∃ n, now.2.cell other = mark^[n] (state.2.cell other))
    (fun _ _ _ => exists_iterate_of_modifyCell (k := 0) mark)
    (fun _ _ _ => exists_iterate_of_modifyCell (k := 0) mark) ⟨0, rfl⟩ fuel depth r

/-- Where marks begin, there is at least one. -/
theorem exists_iterate_markFrom_self (fuel : Nat) (depth : Int) (hr : r.index < h.size) :
    ∃ n, (markFrom mark (fuel + 1) depth ([], h) r).2.cell r = mark^[n + 1] (h.cell r) := by
  have hfirst : ∃ n, (h.modifyCell r mark).cell r = mark^[n + 1] (h.cell r) :=
    ⟨0, cell_modifyCell_self h r mark hr⟩
  simp only [markFrom, List.not_mem_nil, if_false]
  split
  · exact hfirst
  · exact foldl_markFrom_invariant (P := fun now => ∃ n, now.2.cell r = mark^[n + 1] (h.cell r))
      (fun _ _ _ => exists_iterate_of_modifyCell mark)
      (fun _ _ _ => exists_iterate_of_modifyCell mark) hfirst fuel _ _

theorem size_markFrom (fuel : Nat) (depth : Int) (state : List Ref × Heap) :
    (markFrom mark fuel depth state r).2.size = state.2.size :=
  markFrom_invariant (P := fun now => now.2.size = state.2.size)
    (fun _ h r => (size_modifyCell h r mark).trans)
    (fun _ h r => (size_modifyCell h r mark).trans) rfl fuel depth r

end Marks

/-- A lock reaches an object or not, and a variable that is locked is noted by its own object. -/
theorem cell_lock (depth : Int) (owner : Option Binding) :
    (∃ n, (h.lock depth owner r).cell other = (·.lockedFor owner)^[n] (h.cell other)) ∨
      ∃ b n, owner = some b ∧ other = r ∧ (h.lock depth owner r).cell other =
        ((·.lockedFor owner)^[n + 1] (h.cell other)).noted (.named b) := by
  obtain ⟨n, hmarks⟩ :=
    exists_iterate_markFrom r other (·.lockedFor owner) (h.size + 1) depth ([], h)
  cases owner with
  | none => exact .inl ⟨n, hmarks⟩
  | some b =>
    simp only [lock]
    rcases cell_modifyCell (markFrom (·.lockedFor (some b)) (h.size + 1) depth ([], h) r).2 r other
      (·.noted (.named b)) with hold | ⟨rfl, hin, hnew⟩
    · exact .inl ⟨n, hold.trans hmarks⟩
    · rw [size_markFrom] at hin
      obtain ⟨m, hself⟩ :=
        exists_iterate_markFrom_self h other (·.lockedFor (some b)) h.size depth hin
      exact .inr ⟨b, m, rfl, rfl, by rw [hnew, hself]⟩

@[simp] theorem size_lock (depth : Int) (owner : Option Binding) :
    (h.lock depth owner r).size = h.size := by
  unfold lock
  cases owner with
  | none => exact size_markFrom r _ _ depth _
  | some b => exact (size_modifyCell _ r _).trans (size_markFrom r _ _ depth _)

theorem cell_unlock (depth : Int) :
    ∃ n, (h.unlock depth r).cell other = Cell.unlocked^[n] (h.cell other) :=
  exists_iterate_markFrom r other Cell.unlocked (h.size + 1) depth ([], h)

/-- The latest note of a variable that is locked is that it was. -/
theorem notes_lock_self {h : Heap} {r : Ref} (hr : r.index < h.size) (depth : Int) (b : Binding) :
    ∃ older, (h.lock depth (some b) r).notes r = .named b :: older := by
  have hin : r.index < (markFrom (·.lockedFor (some b)) (h.size + 1) depth ([], h) r).2.size := by
    rwa [size_markFrom]
  refine ⟨_, congrArg Cell.notes (cell_modifyCell_self _ r (·.noted (.named b)) hin)⟩

@[simp] theorem size_unlock (depth : Int) : (h.unlock depth r).size = h.size :=
  size_markFrom r Cell.unlocked _ depth _

theorem value_lock (depth : Int) (owner : Option Binding) :
    (h.lock depth owner r).value other = h.value other := by
  have hiterate (n : Nat) (c : Cell) : ((·.lockedFor owner)^[n] c).value = c.value := by
    cases n with
    | zero => rfl
    | succ n => rw [Cell.lockedFor_iterate]
  unfold value
  rcases cell_lock h r other depth owner with ⟨n, hcell⟩ | ⟨b, n, -, -, hcell⟩
  · rw [hcell, hiterate]
  · rw [hcell]
    exact hiterate _ _

theorem value_unlock (depth : Int) : (h.unlock depth r).value other = h.value other := by
  obtain ⟨n, hcell⟩ := cell_unlock h r other depth
  unfold value
  rw [hcell]
  cases n with
  | zero => rfl
  | succ n => rw [Cell.unlocked_iterate]

variable {other} in
theorem isLocked_lock (depth : Int) (owner : Option Binding) (hother : h.isLocked other = true) :
    (h.lock depth owner r).isLocked other = true := by
  have hiterate (n : Nat) (c : Cell) (hc : c.locked = true) :
      ((·.lockedFor owner)^[n] c).locked = true := by
    cases n with
    | zero => exact hc
    | succ n => rw [Cell.lockedFor_iterate]
  unfold isLocked at *
  rcases cell_lock h r other depth owner with ⟨n, hcell⟩ | ⟨b, n, -, -, hcell⟩
  · rw [hcell]
    exact hiterate _ _ hother
  · rw [hcell]
    exact hiterate _ _ hother

/-! ## Locks that nothing changes -/

theorem cell_new (v : Value) :
    (h.new v).2.cell r = .fresh v ∨ (h.new v).2.cell r = h.cell r := by
  simp only [cell, new, Array.getD_eq_getD_getElem?, Array.getElem?_push]
  by_cases hr : r.index = h.cells.size <;> simp [hr]

theorem cell_stored : (h.stored r).2.cell other = h.cell other ∨
    ∃ v, (h.stored r).2.cell other = .fresh v := by
  unfold stored
  dsimp only
  split
  · exact (cell_new h other _).symm.imp_right fun hnew => ⟨_, hnew⟩
  · exact .inl rfl

/-- An object that does not exist is taken for a number. -/
theorem cell_of_size_le (hr : h.size ≤ r.index) : h.cell r = default := by
  have hnone : h.cells[r.index]? = none := Array.getElem?_eq_none hr
  simp only [cell, Array.getD_eq_getD_getElem?, hnone, Option.getD_none]

theorem lt_size_of_not_isScalar (hr : (h.value r).isScalar = false) : r.index < h.size := by
  by_contra hout
  simp [value, cell_of_size_le h r (Nat.le_of_not_lt hout), default, Cell.fresh,
    Value.isScalar] at hr

/-- Whatever is stored exists. -/
theorem stored_lt_size : (h.stored r).1.index < (h.stored r).2.size := by
  unfold stored
  dsimp only
  split
  · simp [new, size]
  · rename_i hscalar
    exact lt_size_of_not_isScalar h r (by simpa using hscalar)

end Heap

end VimL
