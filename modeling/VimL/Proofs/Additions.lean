import VimL.Proofs.Outcome
import VimL.Proofs.Room
import VimL.Targets

/-!
# Runs one step at a time

What a run does from an engine is read off one step after the other. Some runs only add objects:
whatever was there before is as it was.
-/

namespace VimL

theorem Value.isScalar_of_kind {v : Value} (h : v.kind = .list ∨ v.kind = .blob) :
    v.isScalar = false := by
  cases v with
  | number | float | string => rcases h with h | h <;> cases h
  | _ => rfl

namespace Run

variable {α β : Type} {m : Run α} {e e' : Engine}

theorem bind_of_ok {a : α} {f : α → Run β} (h : m e = .ok a e') : (m >>= f) e = f a e' := by
  simp only [Bind.bind, EStateM.bind, h]

theorem bind_of_error {stop : Stop} {f : α → Run β} (h : m e = .error stop e') :
    (m >>= f) e = .error stop e' := by
  simp only [Bind.bind, EStateM.bind, h]

theorem afterwards_of_ok {a : α} (h : m e = .ok a e') (change : Engine → Engine) :
    m.afterwards change e = .ok a (change e') := by
  simp only [afterwards, h]

theorem afterwards_of_error {stop : Stop} (h : m e = .error stop e') (change : Engine → Engine) :
    m.afterwards change e = .error stop (change e') := by
  simp only [afterwards, h]

/-- Where two runs do the same, so does what follows. -/
theorem bind_congr_at {m' : Run α} (h : m e = m' e) (f : α → Run β) :
    (m >>= f) e = (m' >>= f) e := by
  simp only [Bind.bind, EStateM.bind, h]

theorem of_bind_ok {f : α → Run β} {b : β} {e'' : Engine} (h : (m >>= f) e = .ok b e'') :
    ∃ a e', m e = .ok a e' ∧ f a e' = .ok b e'' := by
  cases hm : m e with
  | error stop e₁ =>
    rw [bind_of_error hm] at h
    cases h
  | ok a e₁ =>
    rw [bind_of_ok hm] at h
    exact ⟨a, e₁, rfl, h⟩

theorem of_bind_error {f : α → Run β} {stop : Stop} {e'' : Engine}
    (h : (m >>= f) e = .error stop e'') :
    m e = .error stop e'' ∨ ∃ a e', m e = .ok a e' ∧ f a e' = .error stop e'' := by
  cases hm : m e with
  | error other e₁ =>
    rw [bind_of_error hm] at h
    cases h
    exact .inl rfl
  | ok a e₁ =>
    rw [bind_of_ok hm] at h
    exact .inr ⟨a, e₁, rfl, h⟩

theorem get_eq (e : Engine) : (get : Run Engine) e = .ok e e := rfl

theorem of_settle_error {x : Except Stop α} {stop : Stop} (h : settle x e = .error stop e') :
    x = .error stop ∧ e' = e := by
  cases x with
  | ok a => cases h
  | error other =>
    cases h
    exact ⟨rfl, rfl⟩

theorem of_settle_ok {x : Except Stop α} {a : α} (h : settle x e = .ok a e') :
    x = .ok a ∧ e' = e := by
  cases x with
  | ok other =>
    cases h
    exact ⟨rfl, rfl⟩
  | error other => cases h

theorem resolve_eq (c : Context) (scope : Option Scope) (name : String) (e : Engine) :
    resolve c scope name e = settle (e.resolve c scope name) e := rfl

theorem value_of_eq {r : Ref} {v : Value} (h : e.heap.value r = v) : value r e = .ok v e := by
  subst h
  rfl

theorem checkUnlocked_of_locked {r : Ref} {name : String} (h : e.heap.isLocked r = true) :
    checkUnlocked r name e = .error (.ofCause (.locked name)) e := by
  have hrun : checkUnlocked r name e =
      (if e.heap.isLocked r then raise (.locked name) else pure () : Run Unit) e := rfl
  rw [hrun, h]
  rfl

theorem checkUnlocked_of_free {r : Ref} {name : String} (h : e.heap.isLocked r = false) :
    checkUnlocked r name e = .ok () e := by
  have hrun : checkUnlocked r name e =
      (if e.heap.isLocked r then raise (.locked name) else pure () : Run Unit) e := rfl
  rw [hrun, h]
  rfl

theorem index_of_ok {r : Ref} {n : Int} (h : (e.heap.value r).toIndex = .ok n) :
    index r e = .ok n e := by
  have hrun : index r e = settle (e.heap.value r).toIndex e := rfl
  rw [hrun, h]
  rfl

end Run

/-! ## Runs that only add objects -/

/-- All objects of the one heap are in the other, as they are. -/
structure Heap.Extends (h h' : Heap) : Prop where
  size : h.size ≤ h'.size
  cell : ∀ r : Ref, r.index < h.size → h'.cell r = h.cell r

namespace Heap.Extends

variable {h h' h'' : Heap}

theorem refl (h : Heap) : h.Extends h := ⟨Nat.le_refl _, fun _ _ => rfl⟩

theorem trans (hh : h.Extends h') (hh' : h'.Extends h'') : h.Extends h'' := by
  refine ⟨Nat.le_trans hh.size hh'.size, fun r hr => ?_⟩
  rw [hh'.cell r (Nat.lt_of_lt_of_le hr hh.size), hh.cell r hr]

theorem new (h : Heap) (v : Value) : h.Extends (h.new v).2 := by
  refine ⟨by simp only [Heap.size_new]; omega, fun r hr => ?_⟩
  have hne : r.index ≠ h.cells.size := Nat.ne_of_lt hr
  simp [Heap.cell, Heap.new, Array.getD_eq_getD_getElem?, Array.getElem?_push, hne]

theorem stored (h : Heap) (r : Ref) : h.Extends (h.stored r).2 := by
  unfold Heap.stored
  dsimp only
  split
  · exact new h _
  · exact refl h

/-- Containers exist, and so they are kept. -/
theorem value_eq (hh : h.Extends h') {r : Ref} (hr : (h.value r).isScalar = false) :
    h'.value r = h.value r := by
  unfold Heap.value
  rw [hh.cell r (h.lt_size_of_not_isScalar r hr)]

end Heap.Extends

/-- There may be new objects. Everything else is as it was. -/
structure Engine.OnlyAdds (e e' : Engine) : Prop where
  heap : e.heap.Extends e'.heap
  rest : e' = { e with heap := e'.heap, handedOn := e'.handedOn }

namespace Engine.OnlyAdds

variable {e e' e'' : Engine}

theorem refl (e : Engine) : e.OnlyAdds e := ⟨.refl _, rfl⟩

theorem withHeap {h : Heap} (hh : e.heap.Extends h) : e.OnlyAdds (e.withHeap h) := ⟨hh, rfl⟩

theorem trans (h : e.OnlyAdds e') (h' : e'.OnlyAdds e'') : e.OnlyAdds e'' := by
  refine ⟨h.heap.trans h'.heap, h'.rest.trans ?_⟩
  exact congrArg (fun x : Engine => { x with heap := e''.heap, handedOn := e''.handedOn }) h.rest

end Engine.OnlyAdds

namespace Run

/-- However the run ends, it has only added objects. -/
structure Adds {α : Type} (m : Run α) : Prop where
  ends : ∀ e ended e', m.Ends e ended e' → e.OnlyAdds e'

namespace Adds

variable {α β : Type} {m : Run α} {e e' : Engine}

theorem heap_of_ok (hm : Adds m) {a : α} (h : m e = .ok a e') : e.heap.Extends e'.heap :=
  (hm.ends e (.ok a) e' (ends_ok_iff.2 h)).heap

theorem bind (hm : Adds m) {f : α → Run β} (hf : ∀ a, Adds (f a)) : Adds (m >>= f) := by
  refine ⟨fun e answer e'' h => ?_⟩
  obtain ⟨ended, e', hfirst⟩ := exists_ends m e
  have hadds : e.OnlyAdds e' := hm.ends e ended e' hfirst
  cases ended with
  | error stop =>
    obtain ⟨-, rfl⟩ := hfirst.bind_error.unique h
    exact hadds
  | ok a =>
    obtain ⟨answer', e₂, hrest⟩ := exists_ends (f a) e'
    obtain ⟨-, rfl⟩ := (hfirst.bind hrest).unique h
    exact hadds.trans ((hf a).ends e' answer' e₂ hrest)

theorem settle (x : Except Stop α) : Adds (settle x) := by
  refine ⟨fun e ended e' h => ?_⟩
  obtain ⟨-, rfl⟩ := (Ends.settle x e).unique h
  exact .refl e

theorem pure (a : α) : Adds (pure a) := settle (.ok a)

theorem raise (cause : Cause) : Adds (raise cause : Run α) := settle (.error _)

theorem modifyGet {change : Engine → α × Engine}
    (h : ∀ e : Engine, e.OnlyAdds (change e).2) :
    Adds (modifyGet change : Run α) := by
  refine ⟨fun e ended e' hends => ?_⟩
  have hrun : (MonadState.modifyGet change : Run α).Ends e (.ok (change e).1) (change e).2 :=
    ends_ok_iff.2 rfl
  obtain ⟨-, rfl⟩ := hrun.unique hends
  exact h e

theorem get : Adds (get : Run Engine) := by
  have hget : Adds (MonadState.modifyGet fun e => (e, e) : Run Engine) :=
    modifyGet fun e => .refl e
  exact hget

theorem value (r : Ref) : Adds (value r) := get.bind fun _ => pure _

theorem new (v : Value) : Adds (new v) := modifyGet fun e => .withHeap (.new e.heap v)

theorem newSharing (v : Value) : Adds (newSharing v) := by
  have hhand : Adds (handOn v.parts) := modifyGet fun e => ⟨.refl e.heap, rfl⟩
  exact hhand.bind fun _ => new v

theorem stored (r : Ref) : Adds (stored r) := modifyGet fun e => .withHeap (.stored e.heap r)

theorem text (r : Ref) : Adds (text r) := (value r).bind fun _ => settle _

theorem storedAll (rs : List Ref) : Adds (storedAll rs) := by
  induction rs with
  | nil => exact pure []
  | cons r rest ih => exact (stored r).bind fun _ => ih.bind fun _ => pure _

theorem arithmetic (op : Arithmetic) (left right : Ref) : Adds (arithmetic op left right) := by
  have hnumber (x y : Value) : Adds (do
      let a ← Run.settle x.toNumber
      let b ← Run.settle y.toNumber
      Run.new (.number (Number.apply op a b))) :=
    (settle _).bind fun _ => (settle _).bind fun _ => new _
  have hfloat (x y : Value) : Adds (do
      let a ← Run.settle x.toFloat
      let b ← Run.settle y.toFloat
      Run.new (.float ((applyFloats? op a b).getD 0.0))) :=
    (settle _).bind fun _ => (settle _).bind fun _ => new _
  unfold Run.arithmetic
  refine (value left).bind fun x => (value right).bind fun y => ?_
  split
  · exact newSharing _
  · exact new _
  · split
    · dsimp only
      split
      · exact (raise _).bind fun _ => hfloat x y
      · exact hfloat x y
    · exact hnumber x y

theorem concat (left right : Ref) : Adds (concat left right) :=
  (text left).bind fun _ => (text right).bind fun _ => new _

end Adds

variable {α : Type} {e e' : Engine}

theorem exists_storedAll (rs : List Ref) (e : Engine) :
    ∃ copies e', storedAll rs e = .ok copies e' ∧ e.OnlyAdds e' := by
  obtain ⟨copies, e', h⟩ : ∃ copies e', storedAll rs e = .ok copies e' := by
    induction rs generalizing e with
    | nil => exact ⟨[], e, rfl⟩
    | cons r rest ih =>
      obtain ⟨copies, e', h⟩ := ih (e.withHeap (e.heap.stored r).2)
      refine ⟨(e.heap.stored r).1 :: copies, e', ?_⟩
      have hfirst : stored r e = .ok (e.heap.stored r).1 (e.withHeap (e.heap.stored r).2) := rfl
      unfold storedAll
      rw [bind_of_ok hfirst, bind_of_ok h]
      rfl
  exact ⟨copies, e', h, (Adds.storedAll rs).ends e _ e' (ends_ok_iff.2 h)⟩

/-- The right side is added to the left one in place if both are Lists, or both Blobs. -/
def addsInPlace : Arithmetic → Value → Value → Bool
  | .add, .list _, .list _ | .add, .blob _, .blob _ => true
  | _, _, _ => false

theorem combine_of_not_inPlace {op : Arithmetic} {r right : Ref} (name : String)
    (h : addsInPlace op (e.heap.value r) (e.heap.value right) = false) :
    combine (.arithmetic op) (some r) right name e = arithmetic op r right e := by
  unfold combine
  dsimp only
  rw [bind_of_ok (value_of_eq rfl), bind_of_ok (value_of_eq rfl)]
  generalize e.heap.value r = x at h ⊢
  generalize e.heap.value right = y at h ⊢
  cases op with
  | add => cases x <;> cases y <;> first | rfl | cases h
  | _ => rfl

/-- What is added in place makes the left side longer, once copies of the new items are there. -/
theorem combine_of_inPlace {op : Arithmetic} {r right : Ref} (name : String)
    (h : addsInPlace op (e.heap.value r) (e.heap.value right) = true) :
    ∃ (extend : Run Unit) (e₁ : Engine) (v : Value),
      combine (.arithmetic op) (some r) right name e =
        (checkUnlocked r name >>= fun _ => extend >>= fun _ => pure r : Run Ref) e ∧
      extend e = .ok () (e₁.withHeap (e₁.heap.setValue r v)) ∧ e.OnlyAdds e₁ ∧
      (v.kind = .list ∨ v.kind = .blob) ∧ (e.heap.value r).kind = v.kind := by
  generalize hx : e.heap.value r = x at h
  generalize hy : e.heap.value right = y at h
  unfold addsInPlace at h
  split at h
  · rename_i items added
    obtain ⟨copies, e₁, hcopies, hadds⟩ := exists_storedAll added e
    have hkept : e₁.heap.value r = .list items := by
      rw [hadds.heap.value_eq (by rw [hx]; rfl), hx]
    refine ⟨extendList r added, e₁, .list (items ++ copies), ?_, ?_, hadds, .inl rfl, rfl⟩
    · unfold combine
      dsimp only
      rw [bind_of_ok (value_of_eq hx), bind_of_ok (value_of_eq hy)]
    · unfold extendList
      rw [bind_of_ok hcopies, bind_of_ok (value_of_eq hkept)]
      rfl
  · rename_i bytes added
    refine ⟨setValue r (.blob (bytes ++ added)), e, .blob (bytes ++ added), ?_, rfl, .refl e,
      .inr rfl, rfl⟩
    unfold combine
    dsimp only
    rw [bind_of_ok (value_of_eq hx), bind_of_ok (value_of_eq hy)]
  · cases h

/-- A List or a Blob that is not locked may be extended in place. Otherwise there are only new
objects. -/
theorem of_combine {op : AssignOperator} {current : Option Ref} {right : Ref} {name : String}
    {ended : Except Stop Ref} (h : (combine op current right name).Ends e ended e') :
    e.OnlyAdds e' ∨ ∃ r e₁ v, current = some r ∧ ended = .ok r ∧ e.heap.isLocked r = false ∧
      e.OnlyAdds e₁ ∧ (v.kind = .list ∨ v.kind = .blob) ∧ (e.heap.value r).kind = v.kind ∧
        e' = e₁.withHeap (e₁.heap.setValue r v) := by
  cases op with
  | set => exact .inl ((Adds.pure right).ends e ended e' (by cases current <;> exact h))
  | concat =>
    cases current with
    | none => exact .inl ((Adds.raise _).ends e ended e' h)
    | some r => exact .inl ((Adds.concat r right).ends e ended e' h)
  | arithmetic op =>
    cases current with
    | none => exact .inl ((Adds.raise _).ends e ended e' h)
    | some r =>
      cases hplace : addsInPlace op (e.heap.value r) (e.heap.value right) with
      | false =>
        exact .inl ((Adds.arithmetic op r right).ends e ended e'
          (h.congr (combine_of_not_inPlace name hplace)))
      | true =>
        obtain ⟨extend, e₁, v, hrun, hextend, hadds, hv, hkind⟩ := combine_of_inPlace name hplace
        have h := h.congr hrun
        cases hlocked : e.heap.isLocked r with
        | true =>
          have herror : checkUnlocked r name e = _ := checkUnlocked_of_locked hlocked
          obtain ⟨-, rfl⟩ := (ends_error_iff.2 herror).bind_error.unique h
          exact .inl (.refl _)
        | false =>
          have hfree : (checkUnlocked r name).Ends e (.ok ()) e :=
            ends_ok_iff.2 (checkUnlocked_of_free hlocked)
          have hback (e₂ : Engine) : (pure r : Run Ref).Ends e₂ (.ok r) e₂ := .settle (.ok r) e₂
          obtain ⟨rfl, rfl⟩ := (hfree.bind ((ends_ok_iff.2 hextend).bind (hback _))).unique h
          exact .inr ⟨r, e₁, v, rfl, rfl, hlocked, hadds, hv, hkind, rfl⟩

/-- Nothing is added to a scalar in place. -/
theorem onlyAdds_combine {op : AssignOperator} {current right : Ref} {name : String}
    {ended : Except Stop Ref} (hcurrent : (e.heap.value current).isScalar = true)
    (h : (combine op (some current) right name).Ends e ended e') : e.OnlyAdds e' := by
  refine (of_combine h).resolve_right ?_
  rintro ⟨r, e₁, v, ⟨⟩, -, -, -, hv, hkind, -⟩
  rw [Value.isScalar_of_kind (hkind ▸ hv)] at hcurrent
  cases hcurrent

end Run

end VimL
