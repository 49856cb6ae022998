import VimL.Json.Exchange
import VimL.Proofs.Additions
import VimL.Proofs.Keeps
import VimL.Proofs.Kinds

/-!
# Runs on values

Conversions, new objects, copies, data of the host and of JSON, operators, and the surroundings.
-/

namespace VimL

variable {host : Host} {D : Discipline host}

/-! ## Computations without an engine -/

section Except

variable {α β : Type} {x : Except Stop α}

instance (a : α) : Except.Admitted D (.ok a) := ⟨fun _ h => nomatch h⟩

instance (a : α) : Except.Admitted D (pure a) := ⟨fun _ h => nomatch h⟩

instance (cause : Cause) [hc : cause.Regular] :
    Except.Admitted D (.error (.ofCause cause) : Except Stop α) := by
  refine ⟨fun stop h => ?_⟩
  obtain rfl := Except.error.inj h
  exact D.admits_error (fun _ => hc.stray) hc.thrown

theorem Except.admitted_internal {failure : Failure} (hf : failure ≠ .noScriptUnit)
    (h : D.strict → failure.Admitted) :
    Except.Admitted D (.error (.internal failure) : Except Stop α) := by
  refine ⟨fun stop hstop => ?_⟩
  obtain rfl := Except.error.inj hstop
  exact D.admits_internal hf h

/-- What a computation has stopped with is admitted wherever it is handed on. -/
theorem Except.Admitted.of_eq {stop : Stop} [hx : Except.Admitted D x] (h : x = .error stop) :
    Except.Admitted D (.error stop : Except Stop β) :=
  ⟨fun _ hstop => Except.error.inj hstop ▸ hx.stop stop h⟩

theorem Except.Admitted.bind [hx : Except.Admitted D x] {f : α → Except Stop β}
    (hf : ∀ a, Except.Admitted D (f a)) : Except.Admitted D (x >>= f) := by
  cases x with
  | ok a => exact hf a
  | error stop => exact hx.of_eq rfl

instance [Except.Admitted D x] {f : α → Except Stop β} [hf : ∀ a, Except.Admitted D (f a)] :
    Except.Admitted D (x >>= f) := .bind hf

instance [hx : Except.Admitted D x] (f : α → β) : Except.Admitted D (x.map f) := by
  cases x with
  | ok a => exact ⟨fun _ h => nomatch h⟩
  | error stop => exact hx.of_eq rfl

instance {c : Prop} [Decidable c] {y : Except Stop α} [Except.Admitted D x] [Except.Admitted D y] :
    Except.Admitted D (if c then x else y) := by
  split <;> infer_instance

end Except

/-! ## Conversions -/

theorem admitted_tooManyDigits {α : Type} :
    Except.Admitted D (.error (.internal .tooManyDigits) : Except Stop α) :=
  Except.admitted_internal nofun fun _ => .inl .tooManyDigits

namespace Value

instance (v : Value) : Except.Admitted D v.toText := by cases v <;> unfold toText <;> infer_instance

instance (v : Value) : Except.Admitted D v.toNumber := by
  cases v with
  | string s =>
    simp only [toNumber]
    cases Number.ofText? s with
    | some n => infer_instance
    | none => exact admitted_tooManyDigits
  | _ => unfold toNumber; infer_instance

instance (v : Value) : Except.Admitted D v.toFloat := by
  cases v <;> unfold toFloat <;> infer_instance

instance (v : Value) : Except.Admitted D v.toBool := by
  cases v <;> unfold toBool <;> infer_instance

instance (v : Value) : Except.Admitted D v.toIndex := by
  unfold toIndex
  cases htext : v.toText with
  | error stop => exact .of_eq htext
  | ok text =>
    dsimp only
    cases Number.ofText? text with
    | some n => infer_instance
    | none => exact admitted_tooManyDigits

end Value

/-! ## Objects -/

instance (n : Int) : Value.Bare (.number n) := ⟨nofun, rfl⟩

instance (n : Int) : Value.Bare (.ofInt n) := ⟨nofun, rfl⟩

instance (b : Bool) : Value.Bare (.ofBool b) := ⟨nofun, rfl⟩

instance (x : Float) : Value.Bare (.float x) := ⟨nofun, rfl⟩

instance (s : String) : Value.Bare (.string s) := ⟨nofun, rfl⟩

instance (bytes : List UInt8) : Value.Bare (.blob bytes) := ⟨nofun, rfl⟩

instance : Value.Bare (.list []) := ⟨nofun, rfl⟩

instance : Value.Bare (.dictionary .empty) := ⟨nofun, rfl⟩

namespace Run

instance (v : Value) [hv : v.Bare] : Gathers D (new v) := by
  refine ⟨fun e => .new (fun _ f hf => absurd hf (hv.ne f)) fun _ => ?_⟩
  rw [hv.parts]
  exact .refl e

instance (n : Int) : Gathers D (newInt n) := by unfold newInt; infer_instance

instance (b : Bool) : Gathers D (newBool b) := by unfold newBool; infer_instance

instance (s : String) : Gathers D (newText s) := by unfold newText; infer_instance

/-- What is handed on needs no room. -/
theorem since_handOn {e e' : Engine} (rs : List Ref) : Since D e e' (handOn rs) fun _ e'' =>
    e''.heap = e'.heap ∧ e''.functions = e'.functions ∧
      ∀ rs', e.Affords e' rs' → e.Affords e'' (rs ++ rs') := by
  refine fun he hleads => ⟨D.trans hleads (D.edit (D.holds_of_leads he hleads) (.handOn rs)), rfl,
    rfl, fun rs' h => ?_⟩
  have hhanded : e'.Affords { e' with handedOn := rs ++ e'.handedOn } [] :=
    .of_heap_eq rfl (List.subset_append_right _ _)
  have hboth := h.trans hhanded
  rw [List.append_nil] at hboth
  exact hboth.append fun r hr _ => List.mem_append_left _ hr

/-- A reference to a function that exists may be made, and other values may hold its parts. -/
theorem allows_newSharing {e : Engine} {v : Value}
    (hv : D.strict → ∀ f, v = .funcref f → f.handler.Known host e) :
    Allows D e (newSharing v) fun _ _ => True := by
  unfold newSharing
  refine (since_handOn v.parts).bind fun _ e₁ _ ⟨_, hfunctions, hhanded⟩ => ?_
  have hparts := hhanded [] (.refl e)
  rw [List.append_nil] at hparts
  refine (Since.new (fun hstrict f hf => ?_) fun _ => hparts).mono fun _ _ _ _ => trivial
  exact (hv hstrict f hf).mono (Nat.le_of_eq (congrArg _ hfunctions.symm))

theorem allows_newSharing_funcref {e : Engine} {f : Funcref}
    (hf : D.strict → f.handler.Known host e) :
    Allows D e (newSharing (.funcref f)) fun _ _ => True := by
  refine allows_newSharing fun hstrict g hg => ?_
  cases hg
  exact hf hstrict

instance (v : Value) [hv : v.Compound] : Keeps D (newSharing v) :=
  .of_allows fun _ => allows_newSharing fun _ f hf =>
    absurd hf (Value.ne_funcref_of_isCompound hv.eq f)

/-- A reference to a function that exists may be made. -/
theorem allows_newFuncref {e : Engine} {h : Handler} (hh : D.strict → h.Known host e) :
    Allows D e (new (.funcref (.ofHandler h))) fun r e' => D.linear → e.Affords e' [r] := by
  refine Since.new (fun hstrict g hg => ?_) fun _ => .refl e
  cases hg
  exact hh hstrict

instance (r : Ref) : Keeps D (value r) := by unfold value; infer_instance

instance (r : Ref) : Reads D (value r) := by unfold value; infer_instance

instance (r : Ref) : Keeps D (isLocked r) := by unfold isLocked; infer_instance

/-- Only a new object comes to be, if any. What is stored exists, and it may become a part. -/
theorem allows_stored (e : Engine) (r : Ref) : Allows D e (stored r) fun s e' =>
    e' = e.withHeap (e.heap.stored r).2 ∧ s.index < e'.heap.size ∧
      (D.linear → e.Affords e' [s]) := by
  intro he hleads
  have hexists := e.heap.stored_lt_size r
  have hrun : stored r e = .ok (e.heap.stored r).1 (e.withHeap (e.heap.stored r).2) := rfl
  unfold Reaches
  rw [hrun]
  cases hv : (e.heap.value r).isScalar with
  | true =>
    have hstored : e.heap.stored r = e.heap.new (e.heap.value r) := by
      unfold Heap.stored
      exact if_pos hv
    have hbare : (e.heap.value r).Bare := by
      cases hvalue : e.heap.value r with
      | number | float | string => infer_instance
      | _ => simp [hvalue, Value.isScalar] at hv
    obtain ⟨hnew, hroom⟩ := Gathers.allows (m := new (e.heap.value r)) e he hleads
    rw [hstored] at hexists ⊢
    exact ⟨hnew, rfl, hexists, hroom⟩
  | false =>
    have hstored : e.heap.stored r = (r, e.heap) := by
      unfold Heap.stored
      exact if_neg (by simp [hv])
    rw [hstored] at hexists ⊢
    have hshared : ∀ s ∈ [r], (e.heap.value s).isScalar = true → s ∈ e.handedOn := by
      intro s hs hscalar
      rw [List.mem_singleton.1 hs, hv] at hscalar
      cases hscalar
    exact ⟨D.refl e, rfl, hexists, fun _ => (Engine.Affords.refl e).append hshared⟩

instance (r : Ref) : Gathers D (stored r) :=
  ⟨fun e => (allows_stored e r).mono fun _ _ _ h => h.2.2⟩

instance (rs : List Ref) : Gathers D (storedAll rs) := by
  induction rs with
  | nil => unfold storedAll; infer_instance
  | cons r rest ih => unfold storedAll; infer_instance

section Adds

variable {α β : Type} [HasRefs α] {e e' : Engine} {goal : β → Engine → Prop} {m : Run α}
  [hm : Gathers D m] (hadds : Adds m) {f : α → Run β}

include hadds

/-- What only adds objects ends in a heap that has all others as they are. -/
theorem Since.extends_bind
    (hf : ∀ a e'', m e' = .ok a e'' → e'.heap.Extends e''.heap →
      (D.linear → e.Affords e'' (HasRefs.refs a)) → Since D e e'' (f a) goal) :
    Since D e e' (m >>= f) goal := by
  have hall : Allows D e' m fun a e'' => m e' = .ok a e'' ∧
      (D.linear → e'.Affords e'' (HasRefs.refs a)) := by
    intro he hleads
    have hrun := hm.allows e' he hleads
    unfold Reaches at *
    cases hended : m e' with
    | ok a e'' =>
      simp only [hended] at hrun ⊢
      exact ⟨hrun.1, trivial, hrun.2⟩
    | error stop e'' =>
      simp only [hended] at hrun ⊢
      exact hrun
  refine .of_holds fun _ hleads => (Since.of_allows hall).bind fun a e'' _ ⟨hended, ha⟩ => ?_
  refine hf a e'' hended (hadds.heap_of_ok hended) fun hlinear => ?_
  exact (D.affords hleads hlinear).trans (ha hlinear)

/-- What is only added to leaves a container as it is, in which the new objects are put. -/
theorem Since.adds_bind {r : Ref} (hr : (e'.heap.value r).isScalar = false)
    (hf : ∀ a e'', (D.linear → e.Affords e'' (HasRefs.refs a)) →
      e''.heap.value r = e'.heap.value r → Since D e e'' (f a) goal) :
    Since D e e' (m >>= f) goal :=
  .extends_bind hadds fun a e'' _ hextends ha => hf a e'' ha (hextends.value_eq hr)

end Adds

instance (r : Ref) : Keeps D (text r) := by unfold text; infer_instance

instance (r : Ref) : Reads D (text r) := by unfold text; infer_instance

instance (r : Ref) : Keeps D (number r) := by unfold number; infer_instance

instance (r : Ref) : Reads D (number r) := by unfold number; infer_instance

instance (r : Ref) : Keeps D (bool r) := by unfold bool; infer_instance

instance (r : Ref) : Keeps D (index r) := by unfold index; infer_instance

instance (r : Ref) : Reads D (index r) := by unfold index; infer_instance

instance : Keeps D isInterrupted := by unfold isInterrupted; infer_instance

end Run

/-! ## Copies -/

section Copies

variable {e : Engine} {h : Heap}

theorem Heap.isLocked_of_size_le {r : Ref} (hr : h.size ≤ r.index) : h.isLocked r = false := by
  have hnone : h.cells[r.index]? = none := Array.getElem?_eq_none hr
  simp only [isLocked, cell, Array.getD_eq_getD_getElem?, hnone, Option.getD_none]
  rfl

/-- A heap that a copy comes to leads on. What it has more objects than before are its own, known
copies are no scalars, and the parts of the next container have been gathered. -/
structure CopiesTo (D : Discipline host) (e : Engine) (state : Heap.Copies × Heap)
    (gathered : List Ref) : Prop where
  size : e.heap.size ≤ state.2.size
  leads : D.leads e (e.withHeap state.2)
  affords : D.linear → e.Affords (e.withHeap state.2) gathered
  known : ∀ p ∈ state.1, p.2.index < state.2.size ∧ (state.2.value p.2).isScalar = false

namespace CopiesTo

variable {copies : Heap.Copies} {rs : List Ref}

theorem create (hstate : CopiesTo D e (copies, h) rs) (he : D.holds e) (v : Value) [hv : v.Bare] :
    CopiesTo D e (copies, (h.new v).2) ((h.new v).1 :: rs) := by
  have hparts (rs : List Ref) (haffords : e.Affords (e.withHeap h) rs) :
      e.Affords (e.withHeap h) (v.parts ++ rs) := by rwa [hv.parts]
  refine ⟨?_, ?_, fun hlinear => .new (hparts rs (hstate.affords hlinear)), fun p hp => ?_⟩
  · have := hstate.size
    simp only [Heap.size_new] at this ⊢
    omega
  · refine D.create he hstate.leads (fun _ f hf => absurd hf (hv.ne f)) fun hlinear => ?_
    rw [hv.parts]
    exact (hstate.affords hlinear).mono fun s => Nat.zero_le _
  · obtain ⟨hin, hscalar⟩ := hstate.known p hp
    have hne : p.2 ≠ (h.new v).1 := fun heq => by
      simp [heq, Heap.new, Heap.size] at hin
    refine ⟨?_, ?_⟩
    · simp only [Heap.size_new]
      exact Nat.lt_succ_of_lt hin
    · rw [h.value_new_of_ne v hne]
      exact hscalar

/-- An object that the copy has made is not locked. It takes in what was gathered. -/
theorem overwrite {found : List Ref} (hstate : CopiesTo D e (copies, h) (found ++ rs))
    (he : D.holds e) {r : Ref} (hr : e.heap.size ≤ r.index)
    (v : Value) [hv : v.Compound] (hold : (h.value r).kind = v.kind)
    (hparts : ∀ s, v.parts.count s ≤ found.count s) :
    CopiesTo D e (copies, h.setValue r v) rs := by
  refine ⟨?_, ?_, fun hlinear => ?_, fun p hp => ?_⟩
  · simpa only [Heap.size_setValue] using hstate.size
  · have hfree : e.Permits D.toDemands (e.withHeap h) r v := by
      refine .unlocked (Heap.isLocked_of_size_le hr) (.inr hold) fun _ => ?_
      intro entries _ _ _ hentries
      exact absurd (e.heap.lt_size_of_not_isScalar r (hentries ▸ rfl)) (Nat.not_lt_of_le hr)
    refine D.write he hstate.leads hv.eq hfree fun hlinear => ?_
    exact ⟨found ++ rs, hstate.affords hlinear, fun s => by
      have := hparts s
      rw [List.count_append]
      omega⟩
  · refine (hstate.affords hlinear).setValue (Value.isScalar_of_isCompound hv.eq) fun s => ?_
    have := hparts s
    rw [List.count_append]
    omega
  · obtain ⟨hin, hscalar⟩ := hstate.known p hp
    refine ⟨by simpa only [Heap.size_setValue] using hin, ?_⟩
    rcases h.value_setValue r p.2 v with hnew | hold
    · rw [hnew]
      exact Value.isScalar_of_isCompound hv.eq
    · rw [hold]
      exact hscalar

theorem learn (hstate : CopiesTo D e (copies, h) rs) {r c : Ref} (hin : c.index < h.size)
    (hc : (h.value c).isScalar = false) : CopiesTo D e ((r, c) :: copies, h) rs := by
  refine ⟨hstate.size, hstate.leads, hstate.affords, fun p hp => ?_⟩
  rcases List.mem_cons.1 hp with rfl | hold
  · exact ⟨hin, hc⟩
  · exact hstate.known p hold

/-- What is no scalar may become a part as it is. -/
theorem share (hstate : CopiesTo D e (copies, h) rs) {c : Ref}
    (hc : (h.value c).isScalar = false) : CopiesTo D e (copies, h) (c :: rs) := by
  have hshared : ∀ s ∈ [c], ((e.withHeap h).heap.value s).isScalar = true → s ∈ e.handedOn := by
    intro s hs hscalar
    obtain rfl := List.mem_singleton.1 hs
    have hvalue : (h.value s).isScalar = true := hscalar
    rw [hc] at hvalue
    cases hvalue
  exact ⟨hstate.size, hstate.leads, fun hlinear => (hstate.affords hlinear).append hshared,
    hstate.known⟩

theorem copyEach {copy : Heap.Copies × Heap → Ref → Ref × Heap.Copies × Heap}
    (hcopy : ∀ state r rs, CopiesTo D e state rs →
      CopiesTo D e (copy state r).2 ((copy state r).1 :: rs))
    (state : Heap.Copies × Heap) (items rs : List Ref) (hstate : CopiesTo D e state rs) :
    CopiesTo D e (Heap.copyEach copy state items).2
      ((Heap.copyEach copy state items).1 ++ rs) := by
  induction items generalizing state rs with
  | nil => exact hstate
  | cons r rest ih =>
    have hfirst := hcopy state r rs hstate
    have hrest := ih (copy state r).2 ((copy state r).1 :: rs) hfirst
    refine ⟨hrest.size, hrest.leads, fun hlinear => (hrest.affords hlinear).mono fun s => ?_,
      hrest.known⟩
    simp only [Heap.copyEach, List.cons_append, List.count_cons, List.count_append]
    omega

/-- A deep copy makes new objects, and then puts the copies of the items into the new ones. -/
theorem deepCopyFrom (he : D.holds e) (fuel : Nat) (state : Heap.Copies × Heap) (r : Ref)
    (rs : List Ref) (hstate : CopiesTo D e state rs) :
    CopiesTo D e (Heap.deepCopyFrom fuel state r).2
      ((Heap.deepCopyFrom fuel state r).1 :: rs) := by
  induction fuel generalizing state r rs with
  | zero =>
    obtain ⟨copies, h⟩ := state
    simp only [Heap.deepCopyFrom, Heap.stored]
    cases hv : h.value r with
    | number n => exact hstate.create he (.number n)
    | float x => exact hstate.create he (.float x)
    | string s => exact hstate.create he (.string s)
    | _ => exact hstate.share (c := r) (by rw [hv]; rfl)
  | succ fuel ih =>
    obtain ⟨copies, h⟩ := state
    have hknown {c : Ref} (hc : copies.lookup r = some c) : (h.value c).isScalar = false := by
      obtain ⟨before, after, rfl, -⟩ := List.lookup_eq_some_iff.1 hc
      exact (hstate.known (r, c) (by simp)).2
    -- the new container is known before its items are copied, and takes them in afterwards
    have hfill (v : Value) [v.Bare] (hv : v.isScalar = false) (items : List Ref)
        {w : List Ref → Value}
        (hw : ∀ found, (w found).Compound) (hkind : ∀ found, v.kind = (w found).kind)
        (hparts : ∀ found s, (w found).parts.count s ≤ found.count s) :
        let copied := Heap.copyEach (Heap.deepCopyFrom fuel)
          ((r, (h.new v).1) :: copies, (h.new v).2) items
        CopiesTo D e (copied.2.1, copied.2.2.setValue (h.new v).1 (w copied.1))
          ((h.new v).1 :: rs) := by
      have hnew := (hstate.create he v).learn (r := r) (c := (h.new v).1)
        (by simp [Heap.new, Heap.size]) (by rwa [h.value_new_self v])
      have hitems := copyEach ih _ items _ hnew
      have := hw (Heap.copyEach (Heap.deepCopyFrom fuel)
        ((r, (h.new v).1) :: copies, (h.new v).2) items).1
      have hkept := Heap.KeepsKinds.copyEach (Heap.KeepsKinds.deepCopyFrom fuel)
        ((r, (h.new v).1) :: copies, (h.new v).2) items
      have hfilled := hkept.kind (h.new v).1 (by simp [Heap.new, Heap.size])
      have hmade : ((h.new v).2.value (h.new v).1).kind = v.kind := by rw [h.value_new_self v]
      exact hitems.overwrite he hstate.size _ (hfilled.trans (hmade.trans (hkind _))) (hparts _)
    simp only [Heap.deepCopyFrom]
    cases hvalue : h.value r with
    | list items =>
      cases hc : copies.lookup r with
      | some c => exact hstate.share (hknown hc)
      | none =>
        exact hfill (.list []) rfl items (fun _ => inferInstance) (fun _ => rfl)
          fun _ _ => Nat.le_refl _
    | dictionary entries =>
      cases hc : copies.lookup r with
      | some c => exact hstate.share (hknown hc)
      | none =>
        exact hfill (.dictionary .empty) rfl entries.values
          (w := fun found => .dictionary (entries.withValues found)) (fun _ => inferInstance)
          (fun _ => rfl) fun found => entries.count_values_withValues found
    | funcref f => exact hstate.share (by rw [hvalue]; rfl)
    | number n => exact hstate.create he (.number n)
    | float x => exact hstate.create he (.float x)
    | string s => exact hstate.create he (.string s)
    | blob bytes => exact hstate.create he (.blob bytes)

end CopiesTo

theorem leads_deepCopy (he : D.holds e) (r : Ref) :
    D.leads e (e.withHeap (e.heap.deepCopy r).2) :=
  have hstart : CopiesTo D e ([], e.heap) [] :=
    ⟨Nat.le_refl _, D.refl e, fun _ => .refl e, fun _ hp => nomatch hp⟩
  (CopiesTo.deepCopyFrom he (e.heap.size + 1) ([], e.heap) r [] hstart).leads

end Copies

/-! ## Data from outside -/

/-- What an item of data comes to may become a part, also if it is handed in as it is. -/
theorem HostData.gathers_item {α : Type} [HasRefs α] {d : HostData}
    (hd : d.handed = [] → Run.Gathers D d.toValue) {m : Run α} [hm : Run.Gathers D m]
    {g : Ref → α → α} (hg : ∀ r a, HasRefs.refs (g r a) = r :: HasRefs.refs a) :
    Run.Gathers D (d.toValue >>= fun r => Run.handOn d.handed >>= fun _ => m >>= fun a =>
      pure (g r a)) := by
  refine ⟨fun e => ?_⟩
  have hitem : Run.Allows D e d.toValue fun r e' =>
      D.linear → ∃ rs, e.Affords e' rs ∧ d.handed ++ rs = [r] := by
    by_cases hhanded : d.handed = []
    · have hgathers := (hd hhanded).allows e
      exact hgathers.mono fun r _ _ hr hlinear => ⟨[r], hr hlinear, by rw [hhanded]; rfl⟩
    · cases d with
      | script r => exact .pure fun _ => ⟨[], .refl e, rfl⟩
      | _ => exact absurd rfl hhanded
  refine Run.Since.bind hitem fun r e₁ _ hr => ?_
  refine (Run.since_handOn d.handed).bind fun _ e₂ _ hhanded => ?_
  refine (Run.Since.of_allows (hm.allows e₂)).bind fun a e₃ _ ha => .pure fun hlinear => ?_
  obtain ⟨rs, hafforded, hrs⟩ := hr hlinear
  have hfirst := hhanded.2.2 rs hafforded
  rw [hg, ← List.singleton_append, ← hrs]
  exact hfirst.trans (ha hlinear)

mutual

theorem HostData.gathers_toValue (hd : D.admits (.internal .unconvertible)) :
    (d : HostData) → d.handed = [] → Run.Gathers D d.toValue
  | .none, _ | .bool _, _ | .int _, _ | .float _, _ | .text _, _ | .binary _, _ => by
    unfold HostData.toValue
    infer_instance
  | .script r, h => nomatch h
  | .list items, _ | .tuple items, _ => by
    have := gathers_toValues hd items
    unfold HostData.toValue
    infer_instance
  | .dict entries, _ => by
    have := gathers_toEntries hd entries
    unfold HostData.toValue
    infer_instance
  | .object, _ | .cycle, _ => ⟨fun _ => .throw hd⟩

theorem HostData.gathers_toValues (hd : D.admits (.internal .unconvertible)) :
    (items : List HostData) → Run.Gathers D (toValues items)
  | [] => by unfold toValues; infer_instance
  | item :: rest => by
    have := gathers_toValues hd rest
    unfold toValues
    exact gathers_item (gathers_toValue hd item) fun _ _ => rfl

theorem HostData.gathers_toEntries (hd : D.admits (.internal .unconvertible)) :
    (entries : List (HostData × HostData)) → Run.Gathers D (toEntries entries)
  | [] => by unfold toEntries; infer_instance
  | (_, d) :: rest => by
    have := gathers_toEntries hd rest
    unfold toEntries
    exact gathers_item (gathers_toValue hd d) fun _ _ => rfl

end

theorem HostData.keeps_toValue (hd : D.admits (.internal .unconvertible)) (d : HostData) :
    Run.Keeps D d.toValue := by
  by_cases hhanded : d.handed = []
  · have := d.gathers_toValue hd hhanded
    infer_instance
  · cases d with
    | script r => unfold HostData.toValue; infer_instance
    | _ => exact absurd rfl hhanded

mutual

theorem Json.gathers_toValue : (j : Json) → Run.Gathers D j.toValue
  | .null | .boolean _ | .integer _ | .real _ | .text _ => by
    unfold Json.toValue
    infer_instance
  | .array items => by
    have := gathers_toValues items
    unfold Json.toValue
    infer_instance
  | .object entries => by
    have := gathers_toEntries entries
    unfold Json.toValue
    infer_instance

theorem Json.gathers_toValues : (items : List Json) → Run.Gathers D (toValues items)
  | [] => by unfold toValues; infer_instance
  | item :: rest => by
    have := gathers_toValue item
    have := gathers_toValues rest
    unfold toValues
    infer_instance

theorem Json.gathers_toEntries :
    (entries : List (String × Json)) → Run.Gathers D (toEntries entries)
  | [] => by unfold toEntries; infer_instance
  | (_, j) :: rest => by
    have := gathers_toValue j
    have := gathers_toEntries rest
    unfold toEntries
    infer_instance

end

instance (j : Json) : Run.Gathers D j.toValue := j.gathers_toValue

namespace Heap

variable {h : Heap}

theorem admitted_convertEach {convert : Ref → Except Stop Json}
    (hconvert : ∀ r, Except.Admitted D (convert r)) (rs : List Ref) :
    Except.Admitted D (convertEach convert rs) := by
  induction rs with
  | nil => unfold convertEach; infer_instance
  | cons r rest ih =>
    unfold convertEach
    cases hfirst : convert r with
    | error stop => exact (hconvert r).of_eq hfirst
    | ok j =>
      dsimp only
      cases hrest : convertEach convert rest with
      | error stop => exact ih.of_eq hrest
      | ok js => infer_instance

theorem admitted_toJsonFrom (fuel : Nat) (path : List Ref) (r : Ref) :
    Except.Admitted D (h.toJsonFrom fuel path r) := by
  induction fuel generalizing path r with
  | zero => unfold toJsonFrom; infer_instance
  | succ fuel ih =>
    have hitems (rs : List Ref) := admitted_convertEach (ih (r :: path)) rs
    unfold toJsonFrom
    cases h.value r <;> infer_instance

end Heap

namespace Run

instance (r : Ref) : Keeps D (encodeJson r) := by
  have (h : Heap) : Except.Admitted D (h.toJson r) := Heap.admitted_toJsonFrom _ _ r
  unfold encodeJson
  infer_instance

instance (text : String) : Keeps D (decodeJson text) := by
  unfold decodeJson
  split
  · infer_instance
  · cases Json.parse text.toList with
    | ok j => infer_instance
    | error fault =>
      cases fault with
      | «at» rest => infer_instance
      | tooManyDigits => exact keeps_internal nofun fun _ => .inl .tooManyDigits

end Run

end VimL
