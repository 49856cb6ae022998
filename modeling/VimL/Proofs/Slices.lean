import VimL.Proofs.Ranges

/-!
# Ranges as values

A range of a List, a Blob or a String is a new value of its kind. Bounds below zero count from the
end, and what they reach beyond the elements that exist is cut off. So no range fails, and two that
meet make up the whole.
-/

namespace VimL

open EStateM (Result)

/-! ## Elements between two positions -/

section Positions

variable {α : Type} (items : List α)

theorem elementsAt_of_none {p : Nat → Bool} (h : ∀ i < items.length, p i = false) :
    elementsAt items p = [] := by
  rw [elementsAt_congr items (q := fun _ => false) h]
  simp [elementsAt]

theorem elementsAt_between (first stop : Nat) :
    elementsAt items (fun i => decide (first ≤ i ∧ i < stop)) =
      (items.drop first).take (stop - first) := by
  induction items generalizing first stop with
  | nil => simp [elementsAt]
  | cons x items ih =>
    rw [elementsAt_cons]
    cases stop with
    | zero => simpa using elementsAt_of_none items fun _ _ => rfl
    | succ stop =>
      cases first with
      | zero =>
        have hrest := ih 0 stop
        simpa using hrest
      | succ first =>
        have hrest := ih first stop
        simpa using hrest

/-- The elements from one position to another, both included. -/
def elementsFrom (first last : Int) : List α :=
  elementsAt items fun i => decide (first ≤ i ∧ i ≤ last)

/-- A first bound is cut at the start, and a last one at the end. -/
theorem rangeOf_eq_elementsFrom (size : Nat) (a b : Int) :
    rangeOf size items a b =
      elementsFrom items (max (fromEnd size a) 0) (min (fromEnd size b) (size - 1)) := by
  have hstart : (if a < 0 then max (a + size) 0 else a) = max (fromEnd size a) 0 := by
    unfold fromEnd
    split <;> omega
  have hrange : rangeOf size items a b =
      if max (fromEnd size a) 0 ≤ min (fromEnd size b) (size - 1) then
        (items.drop (max (fromEnd size a) 0).toNat).take
          (min (fromEnd size b) (size - 1) - max (fromEnd size a) 0 + 1).toNat
      else [] := by
    rw [← hstart]
    rfl
  have hfirst : 0 ≤ max (fromEnd size a) 0 := Int.le_max_right _ _
  rw [hrange]
  generalize max (fromEnd size a) 0 = first at *
  generalize min (fromEnd size b) (size - 1) = last
  unfold elementsFrom
  split
  · have hcount : (last - first + 1).toNat = (last + 1).toNat - first.toNat := by omega
    rw [hcount, ← elementsAt_between]
    apply elementsAt_congr
    intro i _
    rw [decide_eq_decide]
    omega
  · symm
    apply elementsAt_of_none
    intro i _
    rw [decide_eq_false_iff_not]
    omega

/-- What ends in front of a position and what begins there make up the whole. -/
theorem elementsFrom_append {size : Nat} (hsize : items.length = size) (last : Int) :
    elementsFrom items 0 (min last (size - 1)) ++
      elementsFrom items (max (last + 1) 0) (size - 1) = items := by
  have hfront : elementsFrom items 0 (min last (size - 1)) = items.take (last + 1).toNat := by
    have htake := elementsAt_between items 0 (last + 1).toNat
    rw [List.drop_zero, Nat.sub_zero] at htake
    rw [← htake]
    apply elementsAt_congr
    intro i hi
    rw [decide_eq_decide]
    omega
  have hrest : elementsFrom items (max (last + 1) 0) (size - 1) =
      items.drop (last + 1).toNat := by
    have hdrop := elementsAt_between items (last + 1).toNat size
    rw [List.take_of_length_le (by rw [List.length_drop, hsize])] at hdrop
    rw [← hdrop]
    apply elementsAt_congr
    intro i hi
    rw [decide_eq_decide]
    omega
  rw [hfront, hrest, List.take_append_drop]

end Positions

/-! ## Values that have ranges -/

namespace Value

/-- A List, a Blob or a String with so many elements. -/
def IsRow (size : Nat) : Value → Prop
  | .list items => items.length = size
  | .blob bytes => bytes.length = size
  | .string s => s.length = size
  | _ => False

/-- The value with only its elements from one position to another, both included. -/
def within (first last : Int) : Value → Value
  | .list items => .list (elementsFrom items first last)
  | .blob bytes => .blob (elementsFrom bytes first last)
  | .string s => .string (String.ofList (elementsFrom s.toList first last))
  | v => v

/-- The elements of the one value, and then those of the other one, which is of its kind. -/
def followedBy : Value → Value → Value
  | .list items, .list more => .list (items ++ more)
  | .blob bytes, .blob more => .blob (bytes ++ more)
  | .string s, .string t => .string (s ++ t)
  | v, _ => v

variable {v : Value} {size : Nat}

theorem IsRow.within_followedBy (hv : v.IsRow size) (last : Int) :
    (v.within 0 (min last (size - 1))).followedBy (v.within (max (last + 1) 0) (size - 1)) = v := by
  cases v with
  | list items => exact congrArg Value.list (elementsFrom_append items hv last)
  | blob bytes => exact congrArg Value.blob (elementsFrom_append bytes hv last)
  | string s =>
    have hwhole := elementsFrom_append s.toList (String.length_toList.trans hv) last
    simp only [within, followedBy, ← String.ofList_append, hwhole, String.ofList_toList]
  | _ => exact hv.elim

end Value

theorem Heap.lt_size_of_isRow {h : Heap} {r : Ref} {size : Nat} (hr : (h.value r).IsRow size) :
    r.index < h.size := by
  by_contra hout
  have hcell := h.cell_of_size_le r (Nat.le_of_not_lt hout)
  have hvalue : h.value r = .number 0 := congrArg Cell.value hcell
  rw [hvalue] at hr
  exact hr

namespace Run

/-- The run ends with a new object that holds this value. There may be other new objects, and
everything else is as it was, `x` among it. -/
def Extracts (x : Ref) (v : Value) (e : Engine) (ended : Result Stop Engine Ref) : Prop :=
  ∃ r e', ended = .ok r e' ∧ e.heap.size ≤ r.index ∧ e'.heap.cell r = .fresh v ∧
    e'.heap.cell x = e.heap.cell x ∧ e.OnlyAdds e'

/-- The parts of a range are evaluated: its container is a List, a Blob or a String with `size`
elements, before the bounds are evaluated and after that, and `a` and `b` are its bounds. -/
inductive Slices (eval : Expr → Run Ref) (container : Expr) (first last : Option Expr) (x : Ref)
    (size : Nat) (a b : Int) (e e' : Engine) : Prop where
  | mk {e₁ e₂ : Engine} (hx : eval container e = .ok x e₁) (hsize : (e₁.heap.value x).IsRow size)
      (ha : Bounds eval 0 e₁ first a e₂) (hb : Bounds eval (size - 1) e₂ last b e')
      (hsize' : (e'.heap.value x).IsRow size)

variable {host : Host} {i : Interp} {c : Context} {container : Expr} {first last : Option Expr}
  {x : Ref} {size : Nat} {a b : Int} {e e' : Engine}

theorem sliceableSize_of_isRow (h : (e.heap.value x).IsRow size) :
    sliceableSize x e = .ok size e := by
  unfold sliceableSize
  rw [bind_of_ok (value_of_eq rfl)]
  cases hv : e.heap.value x with
  | list items | blob bytes =>
    rw [hv] at h
    dsimp only
    rw [show _ = size from h]
    rfl
  | string s =>
    rw [hv] at h
    have htext : settle (Value.string s).toText e = .ok s e := rfl
    dsimp only
    rw [bind_of_ok htext, show s.length = size from h]
    rfl
  | _ =>
    rw [hv] at h
    exact h.elim

theorem extracts_new (hx : x.index < e.heap.size) (v : Value) : Extracts x v e (new v e) := by
  have hadds := Heap.Extends.new e.heap v
  exact ⟨(e.heap.new v).1, e.withHeap (e.heap.new v).2, rfl, Nat.le_refl _,
    e.heap.cell_new_self v, hadds.cell x hx, .withHeap hadds⟩

theorem extracts_newSharing (hx : x.index < e.heap.size) (v : Value) :
    Extracts x v e (newSharing v e) := by
  have hadds := Heap.Extends.new e.heap v
  exact ⟨(e.heap.new v).1, _, rfl, Nat.le_refl _, e.heap.cell_new_self v, hadds.cell x hx,
    ⟨hadds, rfl⟩⟩

theorem extracts_newRange (h : (e.heap.value x).IsRow size) (a b : Int) :
    Extracts x
      ((e.heap.value x).within (max (fromEnd size a) 0) (min (fromEnd size b) (size - 1))) e
      (newRange x size a b e) := by
  have hx : x.index < e.heap.size := Heap.lt_size_of_isRow h
  unfold newRange
  rw [bind_of_ok (value_of_eq rfl)]
  cases hv : e.heap.value x with
  | list items =>
    dsimp only [Value.within]
    rw [rangeOf_eq_elementsFrom]
    exact extracts_newSharing hx _
  | blob bytes =>
    dsimp only [Value.within]
    rw [rangeOf_eq_elementsFrom]
    exact extracts_new hx _
  | string s =>
    have htext : settle (Value.string s).toText e = .ok s e := rfl
    dsimp only [Value.within]
    rw [bind_of_ok htext, rangeOf_eq_elementsFrom]
    exact extracts_new hx _
  | _ =>
    rw [hv] at h
    exact h.elim

theorem Slices.extracts (h : Slices (i.eval c) container first last x size a b e e') :
    Extracts x
      ((e'.heap.value x).within (max (fromEnd size a) 0) (min (fromEnd size b) (size - 1))) e'
      (evaluate host i c (.slice container first last) e) := by
  obtain @⟨e₁, e₂, hx, hsize, ha, hb, hsize'⟩ := h
  change Extracts x _ e' (evalRange i c container first last e)
  unfold evalRange
  rw [bind_of_ok hx, bind_of_ok (sliceableSize_of_isRow hsize), bind_of_ok ha.bound_eq,
    bind_of_ok hb.bound_eq]
  exact extracts_newRange hsize' a b

/-- With its last bound left out, a range goes on to the end. -/
theorem Slices.last_eq (h : Slices (i.eval c) container first none x size a b e e') :
    b = size - 1 := by
  obtain @⟨_, _, -, -, -, hb, -⟩ := h
  cases hb
  rfl

/-- With its first bound left out, a range begins at the start. -/
theorem Slices.first_eq (h : Slices (i.eval c) container none last x size a b e e') : a = 0 := by
  obtain @⟨_, _, -, -, ha, -, -⟩ := h
  cases ha
  rfl

/-- A range gives a new value with the elements from its first bound to its last one, as far as
there are such elements, in their order. It never fails, and it changes nothing. A range that ends
in front of a position, which may be counted from either end, and one that begins there have
together all elements of the value. -/
theorem slice_extracts :
    (∀ {container first last x size a b e e'},
      Slices (i.eval c) container first last x size a b e e' →
        Extracts x
          ((e'.heap.value x).within (max (fromEnd size a) 0) (min (fromEnd size b) (size - 1))) e'
          (evaluate host i c (.slice container first last) e)) ∧
    ∀ {k : Int} {front rest first last x size a₁ a₂ b₁ b₂ d d' e e'}, 1 ≤ k →
      (b₁ = k - 1 ∧ a₂ = k ∨ b₁ = -k - 1 ∧ a₂ = -k) →
      Slices (i.eval c) front none (some last) x size a₁ b₁ d d' →
      Slices (i.eval c) rest (some first) none x size a₂ b₂ e e' →
      e'.heap.value x = d'.heap.value x →
        ∃ v w, Extracts x v d' (evaluate host i c (.slice front none (some last)) d) ∧
          Extracts x w e' (evaluate host i c (.slice rest (some first) none) e) ∧
          v.followedBy w = d'.heap.value x := by
  refine ⟨fun h => h.extracts, ?_⟩
  intro k front rest first last x size a₁ a₂ b₁ b₂ d d' e e' hk hmeet hfront hrest hsame
  obtain rfl := hfront.first_eq
  obtain rfl := hrest.last_eq
  refine ⟨_, _, hfront.extracts, hrest.extracts, ?_⟩
  have hrow : (d'.heap.value x).IsRow size := by
    obtain @⟨_, _, -, -, -, -, hsize⟩ := hfront
    exact hsize
  have hstart : max (fromEnd size 0) 0 = 0 := rfl
  have hend : min (fromEnd size (size - 1)) (size - 1) = (size : Int) - 1 := by
    unfold fromEnd
    split <;> omega
  have hposition : max (fromEnd size a₂) 0 = max (fromEnd size b₁ + 1) 0 := by
    unfold fromEnd
    split <;> split <;> omega
  rw [hsame, hstart, hend, hposition]
  exact hrow.within_followedBy _

end Run

namespace Session

/-- A range that ends far in front of a List is empty, and one up to the first item and one from the
second item on make up the List. -/
theorem slice_extracts_holdingPair :
    Run.Extracts ⟨0⟩ (.list []) holdingPair
      (Run.evaluate ⟨[]⟩ (.ofFuel ⟨[]⟩ 4) .commandLine pairRange holdingPair) ∧
    ∃ v w, v.followedBy w = .list [⟨1⟩, ⟨2⟩] ∧
      Run.Extracts ⟨0⟩ v holdingPair (Run.evaluate ⟨[]⟩ (.ofFuel ⟨[]⟩ 4) .commandLine
        (.slice (.const ⟨0⟩) none (some (.const ⟨3⟩))) holdingPair) ∧
      Run.Extracts ⟨0⟩ w holdingPair (Run.evaluate ⟨[]⟩ (.ofFuel ⟨[]⟩ 4) .commandLine
        (.slice (.const ⟨0⟩) (some (.const ⟨1⟩)) none) holdingPair) := by
  have hrow : (holdingPair.heap.value ⟨0⟩).IsRow 2 := rfl
  have hfront : Run.Slices evalLine (.const ⟨0⟩) none (some (.const ⟨3⟩)) ⟨0⟩ 2 0 0 holdingPair
      holdingPair := .mk rfl hrow .omitted (.written rfl rfl (by decide)) hrow
  have hrest : Run.Slices evalLine (.const ⟨0⟩) (some (.const ⟨1⟩)) none ⟨0⟩ 2 1 1 holdingPair
      holdingPair := .mk rfl hrow (.written rfl rfl (by decide)) .omitted hrow
  obtain ⟨hextracts, hmeet⟩ := @Run.slice_extracts ⟨[]⟩ (.ofFuel ⟨[]⟩ 4) .commandLine
  refine ⟨hextracts (.mk rfl hrow first_holdingPair last_holdingPair hrow), ?_⟩
  obtain ⟨v, w, hv, hw, hwhole⟩ :=
    hmeet (k := 1) (by decide) (.inl ⟨rfl, rfl⟩) hfront hrest rfl
  exact ⟨v, w, hwhole, hv, hw⟩

end Session

end VimL
