import VimL.Proofs.Marks
import VimL.Proofs.Steps

/-!
# Where variables are

A name is looked up in one table and written to one. Both agree on the object that a variable is
bound to, and on the name under which the variable owns locks.
-/

namespace VimL

/-- Variables of this table can be bound anew by a script. -/
def Place.isWritable : Place → Bool
  | .globals | .script _ | .locals _ => true
  | .vim | .arguments _ => false

/-! ## Tables -/

namespace Engine

variable (e : Engine) (change : Table Ref → Table Ref) (p : Place)

theorem tableAt_changeTable :
    (e.changeTable change p).tableAt p = change (e.tableAt p) ∨
      (e.changeTable change p).tableAt p = e.tableAt p := by
  cases p with
  | globals | vim => exact .inl rfl
  | script id =>
    simp only [tableAt, script?, changeTable, Array.getElem?_modify, if_true]
    cases e.scripts[id.index]? with
    | none => exact .inr rfl
    | some s => exact .inl rfl
  | locals id | arguments id =>
    simp only [tableAt, frame?, changeTable, Array.getElem?_modify, if_true]
    cases e.frames[id.index]? with
    | none => exact .inr rfl
    | some f => exact .inl rfl

variable {p} in
theorem tableAt_changeTable_of_ne {q : Place} (h : q ≠ p) :
    (e.changeTable change p).tableAt q = e.tableAt q := by
  have hscript {id other : ScriptId} (hne : other ≠ id) : id.index ≠ other.index := by
    rintro heq
    exact hne (by cases id; cases other; exact congrArg _ heq.symm)
  have hframe {id other : FrameId} (hne : other ≠ id) : id.index ≠ other.index := by
    rintro heq
    exact hne (by cases id; cases other; exact congrArg _ heq.symm)
  cases p with
  | globals | vim =>
    cases q with
    | globals | vim => first | rfl | exact absurd rfl h
    | _ => rfl
  | script id =>
    cases q with
    | script other =>
      have hne := hscript fun heq => h (congrArg Place.script heq)
      simp only [tableAt, script?, changeTable, Array.getElem?_modify, hne, if_false]
    | _ => rfl
  | locals id =>
    cases q with
    | locals other =>
      have hne := hframe fun heq => h (congrArg Place.locals heq)
      simp only [tableAt, frame?, changeTable, Array.getElem?_modify, hne, if_false]
    | arguments other =>
      simp only [tableAt, frame?, changeTable, Array.getElem?_modify]
      split
      · cases e.frames[other.index]? <;> rfl
      · rfl
    | _ => rfl
  | arguments id =>
    cases q with
    | arguments other =>
      have hne := hframe fun heq => h (congrArg Place.arguments heq)
      simp only [tableAt, frame?, changeTable, Array.getElem?_modify, hne, if_false]
    | locals other =>
      simp only [tableAt, frame?, changeTable, Array.getElem?_modify]
      split
      · cases e.frames[other.index]? <;> rfl
      · rfl
    | _ => rfl

theorem tableAt_changeFunctions (e : Engine) (change : Table FunctionId → Table FunctionId)
    (table : FunctionTable) (p : Place) :
    (e.changeFunctions change table).tableAt p = e.tableAt p := by
  cases table with
  | globals => cases p <;> rfl
  | script id =>
    cases p with
    | script other =>
      simp only [tableAt, script?, changeFunctions, Array.getElem?_modify]
      split
      · cases e.scripts[other.index]? <;> rfl
      · rfl
    | _ => rfl

end Engine

/-! ## Scopes of places -/

namespace Context

variable {c : Context} {scope : Scope} {name : String} {p : Place}

theorem scope_of_place {writing : Bool} (h : c.place scope name writing = .ok p) :
    p.scope = scope := by
  cases scope with
  | globals | vim =>
    cases h
    rfl
  | script =>
    cases hscript : c.script with
    | none =>
      simp only [place, hscript] at h
      cases writing <;> cases h
    | some id =>
      simp only [place, hscript] at h
      cases h
      rfl
  | locals | arguments =>
    cases hframe : c.frame with
    | none =>
      simp only [place, hframe] at h
      cases h
    | some id =>
      simp only [place, hframe] at h
      cases h
      rfl

/-- Only a prefix leads to arguments or to the variables of the editor. -/
theorem scope_of_effectiveScope {scope : Option Scope}
    (h : c.effectiveScope scope = .arguments ∨ c.effectiveScope scope = .vim) :
    scope = some .arguments ∨ scope = some .vim := by
  unfold effectiveScope at h
  cases scope with
  | some s => exact h.imp (congrArg some) (congrArg some)
  | none =>
    dsimp only at h
    split at h
    · simp at h
    · split at h <;> simp at h

/-- Other variables than arguments and those of the editor are in tables that scripts may change. -/
theorem isWritable_of_scope {scope : Option Scope} (hp : p.scope = c.effectiveScope scope)
    (h : ¬(scope = some .arguments ∨ scope = some .vim)) : p.isWritable = true := by
  have heffective := fun heq => h (scope_of_effectiveScope (c := c) heq)
  rw [← hp] at heffective
  cases p with
  | arguments => exact absurd (.inl rfl) heffective
  | vim => exact absurd (.inr rfl) heffective
  | _ => rfl

/-- The locals of a context are those of its own frame. -/
theorem frame_of_place {id : FrameId} {writing : Bool}
    (h : c.place scope name writing = .ok (.locals id)) : c.frame = some id := by
  obtain rfl : Place.scope (.locals id) = scope := scope_of_place h
  unfold Place.scope place at h
  cases hframe : c.frame with
  | none => simp [hframe] at h
  | some own => simpa [hframe] using h

/-- Reading and writing differ in the error only. -/
theorem place_of_writing (h : c.place scope name true = .ok p) :
    c.place scope name false = .ok p := by
  cases scope with
  | script =>
    cases hscript : c.script with
    | none =>
      simp only [place, hscript] at h
      cases h
    | some id => simpa only [place, hscript] using h
  | _ => exact h

end Context

namespace Engine

variable {e : Engine} {c : Context} {v : Variable} {p : Place}

theorem mem_chain_self (e : Engine) (id : FrameId) : id ∈ e.chain id := by
  unfold chain chainFrom
  exact List.mem_cons_self

theorem scope_of_binder? {scope : Scope} {name : String}
    (hscope : scope = .locals ∨ scope = .arguments) (h : e.binder? c scope name = some p) :
    p.scope = scope := by
  unfold binder? at h
  cases hframe : c.frame with
  | none => simp [hframe] at h
  | some id =>
    simp only [hframe] at h
    obtain ⟨f, -, rfl⟩ := List.mem_map.1 (List.mem_of_find?_eq_some h)
    rcases hscope with rfl | rfl <;> rfl

theorem frame_isSome_of_binder? {scope : Scope} {name : String}
    (h : e.binder? c scope name = some p) : c.frame.isSome = true := by
  unfold binder? at h
  cases hframe : c.frame with
  | none => simp [hframe] at h
  | some id => rfl

/-! ### What names come to -/

/-- A name is looked up in a table that a closure reaches, or in the table of its scope. -/
theorem placeOf?_cases {scope : Option Scope} {name : String}
    (h : e.placeOf? c scope name = .ok (some p)) :
    (c.effectiveScope scope = .locals ∨ c.effectiveScope scope = .arguments) ∧
        e.binder? c (c.effectiveScope scope) name = some p ∨
      c.place (c.effectiveScope scope) name false = .ok p := by
  unfold placeOf? at h
  dsimp only at h
  split at h
  · rename_i hlocal
    exact .inl ⟨hlocal.1, Except.ok.inj h⟩
  · cases hplace : c.place (c.effectiveScope scope) name false with
    | error stop =>
      rw [hplace] at h
      cases h
    | ok q =>
      rw [hplace] at h
      cases h
      exact .inr rfl

/-- A variable is written where a closure binds it, or else in the table of its scope. -/
theorem writePlace_cases (h : e.writePlace c v = .ok p) :
    c.effectiveScope v.scope = .locals ∧ e.binder? c .locals v.name = some p ∨
      (c.effectiveScope v.scope = .locals → e.binder? c .locals v.name = none) ∧
        c.place (c.effectiveScope v.scope) v.name true = .ok p := by
  unfold writePlace at h
  dsimp only at h
  by_cases hlocal : c.effectiveScope v.scope = .locals
  · rw [if_pos hlocal, hlocal] at h
    cases hbinder : e.binder? c .locals v.name with
    | some q =>
      rw [hbinder] at h
      exact .inl ⟨hlocal, congrArg some (Except.ok.inj h)⟩
    | none =>
      rw [hbinder] at h
      exact .inr ⟨fun _ => rfl, hlocal ▸ h⟩
  · rw [if_neg hlocal] at h
    exact .inr ⟨fun heq => absurd heq hlocal, h⟩

/-- A lookup fails only where there is no table for the scope. -/
theorem place_of_resolve_error {scope : Option Scope} {name : String} {stop : Stop}
    (h : e.resolve c scope name = .error stop) :
    c.place (c.effectiveScope scope) name false = .error stop := by
  unfold resolve placeOf? at h
  dsimp only at h
  split at h
  · cases h
  · cases hplace : c.place (c.effectiveScope scope) name false with
    | ok p =>
      rw [hplace] at h
      cases h
    | error other =>
      rw [hplace] at h
      exact congrArg Except.error (Except.error.inj h)

theorem exists_placeOf? {scope : Option Scope} {name : String} {r : Ref}
    (h : e.resolve c scope name = .ok (some r)) :
    ∃ p, e.placeOf? c scope name = .ok (some p) ∧ (e.tableAt p).find? name = some r := by
  unfold resolve at h
  cases hplace : e.placeOf? c scope name with
  | error stop => simp [hplace, Except.map] at h
  | ok found =>
    cases found with
    | none => simp [hplace, Except.map] at h
    | some p => exact ⟨p, rfl, by simpa [hplace, Except.map] using h⟩

theorem scope_of_placeOf? {scope : Option Scope} {name : String}
    (h : e.placeOf? c scope name = .ok (some p)) : p.scope = c.effectiveScope scope := by
  rcases placeOf?_cases h with ⟨hlocal, hbinder⟩ | hplace
  · exact scope_of_binder? hlocal hbinder
  · exact Context.scope_of_place hplace

theorem scope_of_writePlace (h : e.writePlace c v = .ok p) :
    p.scope = c.effectiveScope v.scope := by
  rcases writePlace_cases h with ⟨hlocal, hbinder⟩ | ⟨-, hplace⟩
  · rw [hlocal]
    exact scope_of_binder? (.inl rfl) hbinder
  · exact Context.scope_of_place hplace

theorem canonicalName_of_scope (h : p.scope = c.effectiveScope v.scope) :
    Binding.canonicalName ⟨p, v.name⟩ = c.canonicalName v := by
  unfold Binding.canonicalName Context.canonicalName
  rw [h]

/-- The first frame that a closure looks into is its own. -/
theorem contains_of_binder?_eq_none {id : FrameId} {name : String} (hframe : c.frame = some id)
    (h : e.binder? c .locals name = none) : (e.tableAt (.locals id)).find? name = none := by
  simp only [binder?, hframe, List.find?_eq_none, List.mem_map] at h
  have := h (.locals id) ⟨id, e.mem_chain_self id, rfl⟩
  simpa [Table.contains] using this

/-- A variable that exists is written where it is read. -/
theorem placeOf?_of_writePlace {r : Ref} (hscope : c.effectiveScope v.scope ≠ .arguments)
    (h : e.writePlace c v = .ok p) (hr : (e.tableAt p).find? v.name = some r) :
    e.placeOf? c v.scope v.name = .ok (some p) := by
  unfold placeOf?
  dsimp only
  rcases writePlace_cases h with ⟨hlocal, hbinder⟩ | ⟨hunbound, hplace⟩
  · rw [if_pos ⟨.inl hlocal, frame_isSome_of_binder? hbinder⟩, hlocal, hbinder]
  by_cases hlocal : c.effectiveScope v.scope = .locals
  -- no frame binds the variable, not even the one that it would be written in
  · rw [hlocal] at hplace
    cases hframe : c.frame with
    | none => simp [Context.place, hframe] at hplace
    | some id =>
      simp only [Context.place, hframe, Except.ok.injEq] at hplace
      subst hplace
      rw [contains_of_binder?_eq_none hframe (hunbound hlocal)] at hr
      cases hr
  · rw [if_neg (by simp [hlocal, hscope]), Context.place_of_writing hplace]
    rfl

theorem resolve_of_placeOf? (h : e.placeOf? c v.scope v.name = .ok (some p)) :
    e.resolve c v.scope v.name = .ok ((e.tableAt p).find? v.name) := by
  unfold resolve
  rw [h]
  rfl

/-! ## What a context sees -/

/-- The context sees the variables of this table: those of its script, or those of its frame and of
the frames that a closure goes on to. -/
def InScope (e : Engine) (c : Context) : Place → Prop
  | .globals | .vim => True
  | .script id => c.script = some id
  | .locals id | .arguments id => ∃ own, c.frame = some own ∧ id ∈ e.chain own

theorem inScope_of_binder? {scope : Scope} {name : String}
    (h : e.binder? c scope name = some p) : e.InScope c p := by
  unfold binder? at h
  cases hframe : c.frame with
  | none => simp [hframe] at h
  | some id =>
    simp only [hframe] at h
    obtain ⟨f, hf, rfl⟩ := List.mem_map.1 (List.mem_of_find?_eq_some h)
    split <;> exact ⟨id, hframe, hf⟩

theorem inScope_of_place {scope : Scope} {name : String} {writing : Bool}
    (h : c.place scope name writing = .ok p) : e.InScope c p := by
  cases scope with
  | globals | vim =>
    cases h
    trivial
  | script =>
    cases hscript : c.script with
    | none =>
      simp only [Context.place, hscript] at h
      cases writing <;> cases h
    | some id =>
      simp only [Context.place, hscript] at h
      cases h
      exact hscript
  | locals | arguments =>
    cases hframe : c.frame with
    | none =>
      simp only [Context.place, hframe] at h
      cases h
    | some id =>
      simp only [Context.place, hframe] at h
      cases h
      exact ⟨id, hframe, e.mem_chain_self id⟩

theorem inScope_of_writePlace (h : e.writePlace c v = .ok p) : e.InScope c p := by
  rcases writePlace_cases h with ⟨-, hbinder⟩ | ⟨-, hplace⟩
  · exact inScope_of_binder? hbinder
  · exact inScope_of_place hplace

/-- Frames are still there, and they go on to the same frames. -/
def KeepsFrames (e e' : Engine) : Prop :=
  ∀ id f, e.frame? id = some f → ∃ f', e'.frame? id = some f' ∧ f'.closure = f.closure

/-- A frame goes on to the same frames in a later engine, and if it was not there, to more. -/
theorem KeepsFrames.chainFrom_subset {e' : Engine} (h : e.KeepsFrames e') (fuel : Nat)
    (id : FrameId) : e.chainFrom fuel id ⊆ e'.chainFrom fuel id := by
  induction fuel generalizing id with
  | zero => exact List.Subset.refl _
  | succ fuel ih =>
    unfold chainFrom
    refine List.cons_subset_cons id ?_
    cases hframe : e.frame? id with
    | none => exact List.nil_subset _
    | some f =>
      obtain ⟨f', hframe', hclosure⟩ := h id f hframe
      simp only [hframe', Option.bind_some, hclosure]
      cases f.closure with
      | none => exact List.Subset.refl _
      | some outer => exact ih outer

theorem InScope.mono {e' : Engine} (h : e.InScope c p) (hframes : e.KeepsFrames e') :
    e'.InScope c p := by
  cases p with
  | locals id | arguments id =>
    obtain ⟨own, hown, hin⟩ := h
    exact ⟨own, hown, hframes.chainFrom_subset _ own hin⟩
  | _ => exact h

/-! ## Guards -/

/-- The variable is bound to this object, and it is locked in the name of the variable. -/
structure Guards (e : Engine) (b : Binding) (r : Ref) : Prop where
  bound : (e.tableAt b.place).find? b.name = some r
  locked : e.heap.isLocked r = true
  owned : e.heap.owner r = some b.canonicalName

/-- No variable of this table was ever locked. -/
def Unnamed (e : Engine) (p : Place) : Prop := ∀ r b, .named b ∈ e.heap.notes r → b.place ≠ p

variable {r : Ref}

theorem Guards.isLockedAs (h : e.Guards ⟨p, v.name⟩ r)
    (hscope : p.scope = c.effectiveScope v.scope) : e.isLockedAs c v r = true := by
  have howner : e.heap.owner r = some (c.canonicalName v) := by
    rw [h.owned, canonicalName_of_scope hscope]
  simp [Engine.isLockedAs, h.locked, howner]

/-- An object that is made when a value is stored is not locked. -/
theorem Guards.of_stored {b : Binding} {r other : Ref}
    (h : (e.withHeap (e.heap.stored r).2).Guards b other) : e.Guards b other := by
  rcases e.heap.cell_stored r other with hold | ⟨v, hnew⟩
  · refine ⟨h.bound, ?_, ?_⟩
    · simpa only [Heap.isLocked, withHeap, hold] using h.locked
    · simpa only [Heap.owner, withHeap, hold] using h.owned
  · have hlocked := h.locked
    simp [Heap.isLocked, withHeap, hnew, Cell.fresh] at hlocked

theorem Unnamed.of_heap_eq {e' : Engine} (h : e.Unnamed p) (hheap : e'.heap = e.heap) :
    e'.Unnamed p := by
  intro r b hnamed
  exact h r b (hheap ▸ hnamed)

theorem Unnamed.stored (h : e.Unnamed p) (r : Ref) :
    (e.withHeap (e.heap.stored r).2).Unnamed p := by
  intro other b hnamed
  rcases e.heap.cell_stored r other with hold | ⟨v, hnew⟩
  · exact h other b (by simpa only [Heap.notes, withHeap, hold] using hnamed)
  · simp [Heap.notes, withHeap, hnew, Cell.fresh] at hnamed

/-! ### Variables that cannot be bound anew -/

theorem isReadOnly_of_checkWritable (h : e.checkWritable c v = .ok ()) :
    e.isReadOnly c v = false := by
  unfold checkWritable at h
  split at h
  · cases h
  split at h
  · cases h
  split at h
  · cases h
  · rename_i hfree
    simpa using hfree

/-- What is written is neither an argument nor a variable of the editor. -/
theorem isWritable_of_checkWritable (h : e.checkWritable c v = .ok ())
    (hplace : e.writePlace c v = .ok p) : p.isWritable = true := by
  have hfree := isReadOnly_of_checkWritable h
  refine Context.isWritable_of_scope (scope_of_writePlace hplace) ?_
  rintro (hscope | hscope) <;> simp [isReadOnly, hscope] at hfree

/-- A local that is called self is only written where there is no receiver. -/
theorem inDictFunction_of_checkWritable (h : e.checkWritable c v = .ok ())
    (hplace : e.writePlace c v = .ok p) (hlocal : p.scope = .locals) (hname : v.name = "self") :
    e.inDictFunction c = false := by
  have hfree := isReadOnly_of_checkWritable h
  have heffective := (scope_of_writePlace hplace).symm.trans hlocal
  cases hscope : v.scope with
  | none => simpa [isReadOnly, hscope, hname] using hfree
  | some scope =>
    obtain rfl : scope = .locals := by simpa [Context.effectiveScope, hscope] using heffective
    simpa [isReadOnly, hscope, hname] using hfree

/-- What is said to refuse a new value. -/
def refusal (e : Engine) (c : Context) (v : Variable) : Cause :=
  if e.isReadOnly c v then .readOnly v.text else .locked v.text

/-- A context in which a name is looked up allows its prefix. -/
theorem placeOf?_isOk (h : e.placeOf? c v.scope v.name = .ok (some p)) :
    ¬(v.scope = some .script ∧ c.script.isNone = true) ∧
      ¬((v.scope = some .arguments ∨ v.scope = some .locals) ∧ c.frame.isNone = true) := by
  unfold placeOf? at h
  refine ⟨?_, ?_⟩
  · rintro ⟨hscope, hscript⟩
    simp [hscope, Context.effectiveScope, Context.place, Option.isNone_iff_eq_none.1 hscript,
      Except.map] at h
  · rintro ⟨hscope | hscope, hframe⟩ <;>
      simp [hscope, Context.effectiveScope, Context.place, Option.isNone_iff_eq_none.1 hframe,
        Except.map] at h

/-- A variable that is guarded, or that cannot be bound anew at all, refuses a new value. -/
theorem checkWritable_of_guards (hplace : e.placeOf? c v.scope v.name = .ok (some p))
    (h : p.isWritable = true → ∃ r, e.Guards ⟨p, v.name⟩ r) :
    e.checkWritable c v = .error (.ofCause (e.refusal c v)) := by
  obtain ⟨hscript, hframe⟩ := placeOf?_isOk hplace
  have hscope := scope_of_placeOf? hplace
  unfold checkWritable refusal
  rw [if_neg hscript, if_neg hframe]
  by_cases hreadOnly : e.isReadOnly c v = true
  · rw [if_pos hreadOnly, if_pos hreadOnly]
  · rw [if_neg hreadOnly, if_neg hreadOnly]
    have hwritable : p.isWritable = true := by
      refine Context.isWritable_of_scope hscope fun heq => hreadOnly ?_
      rcases heq with heq | heq <;> simp [isReadOnly, heq]
    obtain ⟨r, hguards⟩ := h hwritable
    rw [resolve_of_placeOf? hplace, hguards.bound]
    simp only [hguards.isLockedAs hscope, if_true]

/-- A check keeps a variable that is guarded from being written. -/
theorem not_guards_of_checkWritable (hwritable : e.checkWritable c v = .ok ())
    (hplace : e.writePlace c v = .ok p) : ¬e.Guards ⟨p, v.name⟩ r := by
  intro hguards
  have hscope : c.effectiveScope v.scope ≠ .arguments := by
    intro heq
    have hfree := isReadOnly_of_checkWritable hwritable
    rcases Context.scope_of_effectiveScope (.inl heq) with hscope | hscope <;>
      simp [isReadOnly, hscope] at hfree
  have hfound := placeOf?_of_writePlace hscope hplace hguards.bound
  rw [checkWritable_of_guards hfound fun _ => ⟨r, hguards⟩] at hwritable
  cases hwritable

end Engine

end VimL
