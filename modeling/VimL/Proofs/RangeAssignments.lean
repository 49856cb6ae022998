import VimL.Proofs.Ranges

/-!
# Assignments to ranges

An assignment to a range replaces its elements by those of another List or Blob, or of the same
one. The two have to have the same kind and, unless the range is open at its end, the same number of
elements; nothing that is replaced may be locked. What does not fit is refused before anything has
changed.
-/

namespace VimL

open EStateM (Result)

/-! ## Rows of objects that are stored -/

/-- The objects of a row have been stored one by one: a scalar as a copy that was made for it, and
everything else as itself. -/
structure Heap.Stores (rs copies : List Ref) (h h' : Heap) : Prop where
  grows : h.Extends h'
  each : List.Forall₂ (fun r copy => r.index < h.size →
    if (h.value r).isScalar then h'.cell copy = .fresh (h.value r) else copy = r) rs copies
  made : ∀ copy ∈ copies, (h'.value copy).isScalar = true →
    h.size ≤ copy.index ∧ copy.index < h'.size
  distinct : (copies.filter fun copy => (h'.value copy).isScalar).Nodup

namespace Heap.Stores

variable {h h' : Heap} {rs copies : List Ref} {r : Ref}

theorem nil (h : Heap) : h.Stores [] [] h := ⟨.refl h, .nil, nofun, .nil⟩

/-- One more scalar is copied in front of the others. -/
theorem cons_scalar (hr : (h.value r).isScalar = true)
    (hrest : (h.new (h.value r)).2.Stores rs copies h') :
    h.Stores (r :: rs) ((h.new (h.value r)).1 :: copies) h' := by
  have hnew := Heap.Extends.new h (h.value r)
  have hsize : (h.new (h.value r)).2.size = h.size + 1 := Heap.size_new h _
  have hfirst : (h.new (h.value r)).1.index = h.size := rfl
  have hbelow := hrest.grows.size
  refine ⟨hnew.trans hrest.grows, .cons (fun _ => ?_) (hrest.each.imp fun s copy hs hold => ?_),
    fun copy hcopy hscalar => ?_, ?_⟩
  · rw [if_pos hr, hrest.grows.cell _ (by omega)]
    exact Heap.cell_new_self h _
  · have hsame : (h.new (h.value r)).2.value s = h.value s :=
      congrArg Cell.value (hnew.cell s hold)
    rw [← hsame]
    exact hs (by omega)
  · rcases List.mem_cons.1 hcopy with rfl | hcopy
    · omega
    · have := hrest.made copy hcopy hscalar
      omega
  · rw [List.filter_cons]
    split
    · refine List.nodup_cons.2 ⟨fun hmem => ?_, hrest.distinct⟩
      obtain ⟨hcopy, hscalar⟩ := List.mem_filter.1 hmem
      have := hrest.made _ hcopy hscalar
      omega
    · exact hrest.distinct

/-- One more object is shared in front of the others. -/
theorem cons_shared (hr : (h.value r).isScalar = false) (hrest : h.Stores rs copies h') :
    h.Stores (r :: rs) (r :: copies) h' := by
  have hkept : (h'.value r).isScalar = false := by rw [hrest.grows.value_eq hr, hr]
  refine ⟨hrest.grows, .cons (fun _ => ?_) hrest.each, fun copy hcopy hscalar => ?_, ?_⟩
  · rw [hr]
    rfl
  · rcases List.mem_cons.1 hcopy with rfl | hcopy
    · rw [hkept] at hscalar
      cases hscalar
    · exact hrest.made copy hcopy hscalar
  · rw [List.filter_cons, hkept]
    exact hrest.distinct

end Heap.Stores

namespace Run

theorem of_storedAll {rs copies : List Ref} {e e' : Engine} (h : storedAll rs e = .ok copies e') :
    e' = e.withHeap e'.heap ∧ e.heap.Stores rs copies e'.heap := by
  induction rs generalizing e copies with
  | nil =>
    cases h
    exact ⟨rfl, .nil _⟩
  | cons r rest ih =>
    unfold storedAll at h
    obtain ⟨s, e₁, hfirst, h⟩ := of_bind_ok h
    obtain ⟨others, e₂, hothers, h⟩ := of_bind_ok h
    cases h
    have hstored : stored r e = .ok (e.heap.stored r).1 (e.withHeap (e.heap.stored r).2) := rfl
    rw [hstored] at hfirst
    injection hfirst with hs he₁
    subst hs he₁
    obtain ⟨hrest, hstores⟩ := ih hothers
    refine ⟨hrest, ?_⟩
    by_cases hr : (e.heap.value r).isScalar = true
    · have hnew : e.heap.stored r = e.heap.new (e.heap.value r) := if_pos hr
      rw [hnew] at hstores ⊢
      exact hstores.cons_scalar hr
    · have hself : e.heap.stored r = (r, e.heap) := if_neg hr
      rw [hself] at hstores ⊢
      exact hstores.cons_shared (Bool.eq_false_iff.2 hr)

end Run

/-! ## What fits into a range -/

/-- The number of elements of a List or Blob. -/
def Value.length : Value → Nat
  | .list items => items.length
  | .blob bytes => bytes.length
  | _ => 0

/-- A range of a container with `size` elements, from position `first` to position `last`, takes the
elements of `right`: it starts at an element or behind the last one; if its end is written, that is
an element or in front of the first one; the container is not locked, and neither is an item that is
replaced; and the new elements are of its kind, and as many as it has, or more if its end is not
written. -/
structure Run.Fits (e : Engine) (x right : Ref) (size : Nat) (first last : Int) (isOpen : Bool) :
    Prop where
  starts : 0 ≤ first ∧ first ≤ size
  stops : isOpen = false → last < size
  free : e.heap.isLocked x = false
  kind : (e.heap.value right).kind = (e.heap.value x).kind
  atLeast : last - first + 1 ≤ (e.heap.value right).length
  atMost : isOpen = false → ((e.heap.value right).length : Int) ≤ last - first + 1
  itemsFree : ∀ (i : Nat) (r : Ref), (e.heap.value x).parts[i]? = some r → first ≤ i → i ≤ last →
    e.heap.isLocked r = false

/-- What a List or Blob brings into a range: its items as they are stored, or its bytes. -/
inductive Run.Brings (right : Ref) (e : Engine) : Value → Engine → Prop where
  | items {added copies : List Ref} {h : Heap} (hadded : e.heap.value right = .list added)
      (hcopies : e.heap.Stores added copies h) : Brings right e (.list copies) (e.withHeap h)
  | bytes {added : List UInt8} (hadded : e.heap.value right = .blob added) :
      Brings right e (.blob added) e

/-- Containers are not touched. -/
theorem Run.Brings.value_eq {right x : Ref} {new : Value} {e e' : Engine}
    (h : Brings right e new e') (hx : (e.heap.value x).isScalar = false) :
    e'.heap.value x = e.heap.value x := by
  cases h with
  | items _ hcopies => exact hcopies.grows.value_eq hx
  | bytes => rfl

namespace Run

variable {eval : Expr → Run Ref} {c : Context} {container y : Expr} {first last : Option Expr}
  {x right : Ref} {size : Nat} {a b : Int} {isOpen : Bool} {e e' e₁ e₂ e₃ e₄ : Engine}

theorem any_isLocked_cutAt_iff {items : List Ref} {h : Heap} {first last : Int} (hfirst : 0 ≤ first)
    (hlast : 0 ≤ last + 1) :
    (cutAt items first.toNat (last + 1)).2.1.any h.isLocked = false ↔
      ∀ (i : Nat) (r : Ref), items[i]? = some r → first ≤ i → i ≤ last → h.isLocked r = false := by
  have hstop : fromEnd items.length (last + 1) = last + 1 := if_neg (by omega)
  simp only [cutAt, hstop, List.any_eq_false, Bool.not_eq_true]
  refine ⟨fun hall i r hi hlow hhigh => ?_, fun hall r hr => ?_⟩
  · apply hall
    rw [List.mem_iff_getElem?]
    refine ⟨i - first.toNat, ?_⟩
    rw [List.getElem?_take_of_lt (by omega), List.getElem?_drop,
      show first.toNat + (i - first.toNat) = i by omega]
    exact hi
  · obtain ⟨k, hk⟩ := List.mem_iff_getElem?.1 hr
    rw [List.getElem?_take] at hk
    split at hk
    · rw [List.getElem?_drop] at hk
      exact hall _ r hk (by omega) (by omega)
    · cases hk

theorem exists_checkCount_error {available : Nat} {count : Int} {few many : Cause}
    (h : ¬(count ≤ available ∧ (isOpen = false → (available : Int) ≤ count))) :
    ∃ cause, checkCount available count isOpen few many e = .error (.ofCause cause) e := by
  unfold checkCount
  by_cases hfew : (available : Int) < count
  · simp only [hfew, if_true]
    exact ⟨few, rfl⟩
  · have hmany : (!isOpen) = true ∧ count < available := by
      by_contra hout
      refine h ⟨by omega, fun hclosed => ?_⟩
      by_contra hlt
      exact hout ⟨by simpa using hclosed, by omega⟩
    simp only [hfew, if_false, hmany]
    exact ⟨many, rfl⟩

theorem checkAllUnlocked_of_locked {items : List Ref} {name : String}
    (h : items.any e.heap.isLocked = true) :
    checkAllUnlocked items name e = .error (.ofCause (.locked name)) e := by
  unfold checkAllUnlocked
  rw [bind_of_ok (get_eq e)]
  simp only [h, if_true]
  rfl

theorem fits_of_eq {v w : Value} (hvx : e.heap.value x = v) (hvright : e.heap.value right = w)
    (hstarts : 0 ≤ a ∧ a ≤ size) (hstops : isOpen = false → b < size)
    (hfree : e.heap.isLocked x = false) (hkind : w.kind = v.kind)
    (hcount : b - a + 1 ≤ w.length ∧ (isOpen = false → (w.length : Int) ≤ b - a + 1))
    (hitems : ∀ (i : Nat) (r : Ref), v.parts[i]? = some r → a ≤ i → i ≤ b →
      e.heap.isLocked r = false) : Fits e x right size a b isOpen := by
  subst hvx hvright
  exact ⟨hstarts, hstops, hfree, hkind, hcount.1, hcount.2, hitems⟩

/-- A range ends at an element or just in front of the first one. -/
theorem fromEnd_add_one_nonneg {count : Nat} (hopen : isOpen = true → fromEnd size b = size - 1)
    (hstart : 0 ≤ fromEnd size a)
    (hexact : isOpen = false → (count : Int) ≤ fromEnd size b - fromEnd size a + 1) :
    0 ≤ fromEnd size b + 1 := by
  cases isOpen with
  | true =>
    rw [hopen rfl]
    omega
  | false =>
    have := hexact rfl
    omega

section Replacing

variable (hx : (e.heap.value x).IsSequence size)
  (hopen : isOpen = true → fromEnd size b = size - 1)

include hx hopen

theorem exists_replaceRange_of_fits
    (hfits : Fits e x right size (fromEnd size a) (fromEnd size b) isOpen) :
    ∃ new e', Brings right e new e' ∧ replaceRange x right size a b isOpen e =
      .ok () ((Spot.range x size a b isOpen).write new e') := by
  obtain ⟨hstarts, hstops, -, hkind, henough, hexact, hitems⟩ := hfits
  have hend := fromEnd_add_one_nonneg hopen hstarts.1 hexact
  cases hvx : e.heap.value x with
  | list items =>
    cases hvright : e.heap.value right with
    | list added =>
      rw [hvright] at henough hexact
      rw [hvx] at hitems
      have hunlocked := (any_isLocked_cutAt_iff hstarts.1 hend).2 hitems
      obtain ⟨copies, e', hcopies, -⟩ := exists_storedAll added e
      obtain ⟨hrest, hstores⟩ := of_storedAll hcopies
      refine ⟨.list copies, e', ?_, ?_⟩
      · rw [hrest]
        exact .items hvright hstores
      · exact Spot.replaceRange_items hstarts hvx hvright henough hexact hunlocked hcopies
    | _ =>
      rw [hvx, hvright] at hkind
      cases hkind
  | blob found =>
    cases hvright : e.heap.value right with
    | blob added =>
      rw [hvright] at henough hexact
      exact ⟨_, _, .bytes hvright, Spot.replaceRange_bytes hstarts hvx hvright henough hexact⟩
    | _ =>
      rw [hvx, hvright] at hkind
      cases hkind
  | _ =>
    rw [hvx] at hx
    exact hx.elim

/-- The number of the elements is checked before the items of a List are looked at. -/
theorem exists_replaceRange_error_of_not_fits
    (hstarts : 0 ≤ fromEnd size a ∧ fromEnd size a ≤ size)
    (hstops : isOpen = false → fromEnd size b < size) (hfree : e.heap.isLocked x = false)
    (hnot : ¬Fits e x right size (fromEnd size a) (fromEnd size b) isOpen) :
    ∃ cause, replaceRange x right size a b isOpen e = .error (.ofCause cause) e := by
  unfold replaceRange
  dsimp only
  rw [bind_of_ok (value_of_eq rfl), bind_of_ok (value_of_eq rfl)]
  cases hvx : e.heap.value x with
  | list items =>
    cases hvright : e.heap.value right with
    | list added =>
      dsimp only
      by_cases hcount : fromEnd size b - fromEnd size a + 1 ≤ added.length ∧
          (isOpen = false → (added.length : Int) ≤ fromEnd size b - fromEnd size a + 1)
      · rw [bind_of_ok (Spot.checkCount_ok_iff.2 ⟨hcount, rfl⟩)]
        have hend := fromEnd_add_one_nonneg hopen hstarts.1 hcount.2
        have hlocked : (cutAt items (fromEnd size a).toNat (fromEnd size b + 1)).2.1.any
            e.heap.isLocked = true := by
          by_contra hunlocked
          rw [Bool.not_eq_true, any_isLocked_cutAt_iff hstarts.1 hend] at hunlocked
          exact hnot (fits_of_eq hvx hvright hstarts hstops hfree rfl hcount hunlocked)
        exact ⟨_, bind_of_error (checkAllUnlocked_of_locked hlocked)⟩
      · obtain ⟨cause, hrefused⟩ := exists_checkCount_error hcount
        exact ⟨cause, bind_of_error hrefused⟩
    | _ => exact ⟨_, rfl⟩
  | blob found =>
    cases hvright : e.heap.value right with
    | blob added =>
      dsimp only
      have hcount : ¬(fromEnd size b - fromEnd size a + 1 ≤ added.length ∧
          (isOpen = false → (added.length : Int) ≤ fromEnd size b - fromEnd size a + 1)) :=
        fun hcount => hnot (fits_of_eq hvx hvright hstarts hstops hfree rfl hcount nofun)
      obtain ⟨cause, hrefused⟩ := exists_checkCount_error hcount
      exact ⟨cause, bind_of_error hrefused⟩
    | _ => exact ⟨_, rfl⟩
  | _ =>
    rw [hvx] at hx
    exact hx.elim

end Replacing

/-- A range whose end is not written ends at the last element. -/
theorem fromEnd_of_bound_none (h : bound eval none ((size : Int) - 1) e = .ok b e') :
    fromEnd size b = size - 1 := by
  cases h
  unfold fromEnd
  split <;> omega

/-- The assignment of a value to a range of a List or Blob, whatever the bounds are, as long as
neither the bounds nor the value change the container or its lock when they are evaluated. If the
value fits into the range, the elements of the range are replaced in place by those of the value,
and nothing else changes but for the copies of scalars that are made. If it does not, an error is
raised and nothing has changed. The value may be the container itself. -/
theorem assign_slice (hx : eval container e = .ok x e₁) (hsize : (e₁.heap.value x).IsSequence size)
    (ha : bound eval first 0 e₁ = .ok a e₂) (hb : bound eval last ((size : Int) - 1) e₂ = .ok b e₃)
    (hright : eval y e₃ = .ok right e₄) (hkept : e₃.heap.value x = e₁.heap.value x)
    (hkept' : e₄.heap.value x = e₁.heap.value x)
    (hlock : e₄.heap.isLocked x = e₃.heap.isLocked x) :
    (Fits e₄ x right size (fromEnd size a) (fromEnd size b) last.isNone →
      ∃ new e₅, Brings right e₄ new e₅ ∧ e₅.heap.value x = e₁.heap.value x ∧
        assign eval c (.slice container first last) .set y e =
          .ok () ((Spot.range x size a b last.isNone).write new e₅)) ∧
    (¬Fits e₄ x right size (fromEnd size a) (fromEnd size b) last.isNone →
      ∃ cause e', (e' = e₃ ∨ e' = e₄) ∧ e'.heap.value x = e₁.heap.value x ∧
        assign eval c (.slice container first last) .set y e = .error (.ofCause cause) e') := by
  have hsequence : (e₄.heap.value x).IsSequence size := hkept' ▸ hsize
  have hopen : last.isNone = true → fromEnd size b = size - 1 := by
    intro hnone
    obtain rfl := Option.isNone_iff_eq_none.1 hnone
    exact fromEnd_of_bound_none hb
  refine ⟨fun hfits => ?_, fun hnot => ?_⟩
  · have haims : (Spot.range x size a b last.isNone).Aims eval .set e
        (.slice container first last) e₃ := by
      refine .range hx (rangeTargetSize_of_isSequence hsize) rfl ha hb hfits.starts
        (fun hsome => hfits.stops ?_) ?_
      · simpa using hsome
      · rw [← hlock]
        exact hfits.free
    obtain ⟨new, e₅, hbrings, hended⟩ := exists_replaceRange_of_fits hsequence hopen hfits
    refine ⟨new, e₅, hbrings, ?_, ?_⟩
    · rw [hbrings.value_eq hsequence.isScalar_eq, hkept']
    · rw [assign_eq_finish haims hright]
      exact hended
  · simp only [assign, assignRange]
    rw [bind_of_ok hx, bind_of_ok (rangeTargetSize_of_isSequence hsize)]
    simp only [ne_eq, not_true_eq_false, if_false]
    rw [bind_of_ok ha, bind_of_ok hb]
    by_cases hlow : fromEnd size a < 0 ∨ (size : Int) < fromEnd size a
    · simp only [hlow, if_true]
      exact ⟨_, e₃, .inl rfl, hkept, rfl⟩
    by_cases hhigh : last.isSome = true ∧ (size : Int) ≤ fromEnd size b
    · simp only [hlow, hhigh, if_false]
      exact ⟨_, e₃, .inl rfl, hkept, rfl⟩
    simp only [hlow, hhigh, if_false]
    cases hfree : e₃.heap.isLocked x with
    | true => exact ⟨_, e₃, .inl rfl, hkept, bind_of_error (checkUnlocked_of_locked hfree)⟩
    | false =>
      rw [hfree] at hlock
      have hstops (hclosed : last.isNone = false) : fromEnd size b < size := by
        by_contra hout
        exact hhigh ⟨by simpa using hclosed, by omega⟩
      obtain ⟨cause, hrefused⟩ := exists_replaceRange_error_of_not_fits hsequence hopen
        (by omega) hstops hlock hnot
      refine ⟨cause, e₄, .inr rfl, hkept', ?_⟩
      rw [bind_of_ok (checkUnlocked_of_free hfree), bind_of_ok hright]
      exact hrefused

end Run

namespace Session

theorem fits_holdingPair : Run.Fits holdingPair ⟨0⟩ ⟨0⟩ 2 0 1 true := by
  have hfree : ∀ r ∈ [(⟨1⟩ : Ref), ⟨2⟩], holdingPair.heap.isLocked r = false := by decide
  exact ⟨by decide, nofun, rfl, rfl, by decide, nofun,
    fun _ r hi _ _ => hfree r (List.mem_of_getElem? hi)⟩

/-- A List is assigned to all of itself: it gets copies of its items. -/
theorem assign_slice_itself :
    ∃ new e', Run.Brings ⟨0⟩ holdingPair new e' ∧ e'.heap.value ⟨0⟩ = holdingPair.heap.value ⟨0⟩ ∧
      Run.assign evalLine .commandLine (.slice (.const ⟨0⟩) none none) .set (.const ⟨0⟩)
        holdingPair = .ok () ((Spot.range ⟨0⟩ 2 0 1 true).write new e') :=
  (Run.assign_slice rfl isSequence_holdingPair rfl rfl rfl rfl rfl rfl).1 fits_holdingPair

end Session

end VimL
