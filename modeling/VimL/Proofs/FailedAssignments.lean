import VimL.Proofs.Bindings
import VimL.Proofs.Parts
import VimL.Proofs.ReadOnly

/-!
# Assignments that fail

An assignment evaluates the parts of its target and the new value, from left to right. It checks
names, locks, bounds, sizes and types before it writes anything. So if it ends in an error, then
whatever has changed was changed by what it evaluated. One check follows a write: a List or a Blob
that is added to in place is stored in its variable again. This check passes if the evaluation of
the right side has left the variable as it was.
-/

namespace VimL

theorem Value.isScalar_of_optionKind {v : Value} (h : v.kind = .number ∨ v.kind = .string) :
    v.isScalar = true := by
  cases v with
  | number | float | string => rfl
  | _ => rcases h with h | h <;> cases h

namespace Engine

/-- The options hold Numbers and Strings. -/
structure HasPlainOptions (e : Engine) : Prop where
  globals : ∀ name r, e.options.globals.find? name = some r → r.index < e.heap.size ∧
    ((e.heap.value r).kind = .number ∨ (e.heap.value r).kind = .string)
  locals : ∀ name r, e.options.locals.find? name = some r → r.index < e.heap.size ∧
    ((e.heap.value r).kind = .number ∨ (e.heap.value r).kind = .string)

theorem HasPlainOptions.of_find? {e : Engine} (he : e.HasPlainOptions) {scope : Option Scope}
    {name : String} {r : Ref} (h : e.options.find? scope name = some r) : r.index < e.heap.size ∧
      ((e.heap.value r).kind = .number ∨ (e.heap.value r).kind = .string) := by
  unfold Options.find? at h
  split at h
  · cases h
  rename_i global hglobal
  split at h
  · exact he.globals name r (hglobal.trans h)
  cases hlocal : e.options.locals.find? name with
  | none =>
    rw [hlocal] at h
    exact he.globals name r (hglobal.trans h)
  | some local' =>
    rw [hlocal] at h
    exact he.locals name r (hlocal.trans h)

/-- Frames, scripts and functions are as they were, with all that is bound in them, and so are the
other tables of names. -/
structure KeepsBindings (e e' : Engine) : Prop where
  frames : ∀ id f, e.frame? id = some f → e'.frame? id = some f
  scripts : ∀ id s, e.script? id = some s → e'.script? id = some s
  functions : ∀ id f, e.function? id = some f → e'.function? id = some f
  globals : e'.globals = e.globals
  vim : e'.vim = e.vim
  globalFunctions : e'.globalFunctions = e.globalFunctions

/-- All that there was is as it was: objects with their values and locks, what is bound anywhere,
options, registers and the environment. There may be new objects, frames, scripts and functions. -/
structure Unchanged (e e' : Engine) : Prop extends e.KeepsBindings e' where
  heap : e.heap.Extends e'.heap
  options : e'.options = e.options
  registers : e'.registers = e.registers
  environment : e'.environment = e.environment

variable {e e' e'' : Engine} {c : Context} {v : Variable} {p : Place} {r : Ref}

theorem OnlyAdds.unchanged (h : e.OnlyAdds e') : e.Unchanged e' := by
  obtain ⟨hheap, hrest⟩ := h
  rw [hrest]
  exact ⟨⟨fun _ _ => id, fun _ _ => id, fun _ _ => id, rfl, rfl, rfl⟩, hheap, rfl, rfl, rfl⟩

theorem KeepsBindings.trans (h : e.KeepsBindings e') (h' : e'.KeepsBindings e'') :
    e.KeepsBindings e'' where
  frames id f hf := h'.frames id f (h.frames id f hf)
  scripts id s hs := h'.scripts id s (h.scripts id s hs)
  functions id f hf := h'.functions id f (h.functions id f hf)
  globals := h'.globals.trans h.globals
  vim := h'.vim.trans h.vim
  globalFunctions := h'.globalFunctions.trans h.globalFunctions

theorem Unchanged.trans (h : e.Unchanged e') (h' : e'.Unchanged e'') : e.Unchanged e'' where
  toKeepsBindings := h.toKeepsBindings.trans h'.toKeepsBindings
  heap := h.heap.trans h'.heap
  options := h'.options.trans h.options
  registers := h'.registers.trans h.registers
  environment := h'.environment.trans h.environment

namespace KeepsBindings

/-! ## Lookups -/

theorem tableAt_of_contains (h : e.KeepsBindings e') {name : String}
    (hp : (e.tableAt p).contains name = true) : e'.tableAt p = e.tableAt p := by
  have hplace := hasPlace_of_contains hp
  cases p with
  | globals => exact h.globals
  | vim => exact h.vim
  | script id =>
    have hs : e.script? id = some e.scripts[id.index] := Array.getElem?_eq_getElem hplace
    simp only [tableAt, hs, h.scripts id _ hs]
  | locals id | arguments id =>
    have hf : e.frame? id = some e.frames[id.index] := Array.getElem?_eq_getElem hplace
    simp only [tableAt, hf, h.frames id _ hf]

/-- Up to the frame that binds the name, the frames of a closure are there. -/
theorem find?_chainFrom (h : e.KeepsBindings e') {placeOf : FrameId → Place}
    (hplaceOf : placeOf = .locals ∨ placeOf = .arguments) {name : String} {fuel : Nat}
    {own id : FrameId}
    (hfound : (e.chainFrom fuel own).find? (fun f => (e.tableAt (placeOf f)).contains name) =
      some id) :
    (e'.chainFrom fuel own).find? (fun f => (e'.tableAt (placeOf f)).contains name) = some id := by
  induction fuel generalizing own with
  | zero => cases hfound
  | succ fuel ih =>
    unfold chainFrom at hfound ⊢
    rw [List.find?_cons] at hfound ⊢
    cases hbinds : (e.tableAt (placeOf own)).contains name with
    | true =>
      rw [hbinds] at hfound
      rw [h.tableAt_of_contains hbinds, hbinds]
      exact hfound
    | false =>
      rw [hbinds] at hfound
      cases hframe : e.frame? own with
      | none => simp [hframe] at hfound
      | some f =>
        have hframe' := h.frames own f hframe
        have hsame : e'.tableAt (placeOf own) = e.tableAt (placeOf own) := by
          rcases hplaceOf with rfl | rfl <;> simp only [tableAt, hframe, hframe']
        rw [hsame, hbinds, hframe']
        rw [hframe] at hfound
        cases hclosure : f.closure with
        | none => simp [hclosure] at hfound
        | some outer =>
          simp only [Option.bind_some, hclosure] at hfound ⊢
          exact ih hfound

theorem binder?_eq (h : e.KeepsBindings e') {scope : Scope} {name : String}
    (hp : e.binder? c scope name = some p) : e'.binder? c scope name = some p := by
  unfold binder? at hp ⊢
  cases hframe : c.frame with
  | none => simp [hframe] at hp
  | some own =>
    simp only [hframe, List.find?_map] at hp ⊢
    obtain ⟨id, hid, rfl⟩ := Option.map_eq_some_iff.1 hp
    refine Option.map_eq_some_iff.2 ⟨id, ?_, rfl⟩
    by_cases hscope : scope = .arguments
    · simp only [hscope, if_true] at hid ⊢
      exact h.find?_chainFrom (.inr rfl) hid
    · simp only [hscope, if_false] at hid ⊢
      exact h.find?_chainFrom (.inl rfl) hid

theorem placeOf?_eq (h : e.KeepsBindings e') {scope : Option Scope} {name : String}
    (hp : e.placeOf? c scope name = .ok (some p)) : e'.placeOf? c scope name = .ok (some p) := by
  unfold placeOf? at hp ⊢
  dsimp only at hp ⊢
  split at hp
  · rename_i hlocal
    rw [if_pos hlocal, h.binder?_eq (Except.ok.inj hp)]
  · rename_i hother
    rw [if_neg hother]
    exact hp

theorem runs (h : e.KeepsBindings e') {own : FrameId} {needs : Bool} (hruns : e.Runs own needs) :
    e'.Runs own needs := by
  obtain ⟨f, g, hf, hg, hneeds⟩ := hruns
  exact ⟨f, g, h.frames own f hf, h.functions _ g hg, hneeds⟩

end KeepsBindings

/-- A frame in which a closure finds a name is there. -/
theorem lt_size_of_binder? {scope : Scope} {name : String} {own : FrameId}
    (hp : e.binder? c scope name = some p) (hframe : c.frame = some own) :
    own.index < e.frames.size := by
  have hcontains := hasPlace_of_contains (contains_of_binder? hp)
  unfold binder? at hp
  simp only [hframe, List.find?_map] at hp
  obtain ⟨id, hid, rfl⟩ := Option.map_eq_some_iff.1 hp
  by_cases hown : own = id
  · subst hown
    split at hcontains <;> exact hcontains
  · exact lt_size_of_mem_chain (List.mem_of_find?_eq_some hid) hown

/-- The table that a variable was found in can be written, whatever has been added since. -/
theorem exists_writePlace (hp : e.placeOf? c v.scope v.name = .ok (some p)) :
    ∃ q, e.writePlace c v = .ok q := by
  unfold writePlace
  dsimp only
  split
  · exact ⟨_, rfl⟩
  · unfold placeOf? at hp
    dsimp only at hp
    cases hscope : c.effectiveScope v.scope with
    | globals | vim => exact ⟨_, rfl⟩
    | script =>
      cases hscript : c.script with
      | none => simp [hscope, Context.place, hscript, Except.map] at hp
      | some id => exact ⟨.script id, by simp [Context.place, hscript]⟩
    | locals | arguments =>
      cases hframe : c.frame with
      | none => simp [hscope, Context.place, hframe, Except.map] at hp
      | some id => exact ⟨_, by simp only [Context.place, hframe]; rfl⟩

/-- The function that is running is the same wherever a local is found. -/
theorem KeepsBindings.isReadOnly_eq (h : e.KeepsBindings e')
    (hrunning : ∀ id : FrameId, id.index < e.frames.size → ∃ needs, e.Runs id needs)
    (hp : e.placeOf? c v.scope v.name = .ok (some p)) : e'.isReadOnly c v = e.isReadOnly c v := by
  unfold isReadOnly
  by_cases hlocal : v.scope = none ∨ v.scope = some .locals
  · suffices hdict : e'.inDictFunction c = e.inDictFunction c by rw [hdict]
    cases hframe : c.frame with
    | none => simp [inDictFunction, hframe]
    | some own =>
      have hscope : c.effectiveScope v.scope = .locals := by
        rcases hlocal with hnone | hlocals
        · simp [hnone, Context.effectiveScope, hframe]
        · simp [hlocals, Context.effectiveScope]
      have hbinder : e.binder? c .locals v.name = some p := by
        simpa [placeOf?, hscope, hframe] using hp
      obtain ⟨needs, hruns⟩ := hrunning own (lt_size_of_binder? hbinder hframe)
      rw [hruns.inDictFunction_eq hframe, (h.runs hruns).inDictFunction_eq hframe]
  · simp [not_or.1 hlocal]

/-- A variable that was writable is still so if nothing else is bound now. -/
theorem KeepsBindings.checkWritable_eq (h : e.KeepsBindings e')
    (hrunning : ∀ id : FrameId, id.index < e.frames.size → ∃ needs, e.Runs id needs)
    (hwritable : e.checkWritable c v = .ok ()) (hr : e.resolve c v.scope v.name = .ok (some r))
    (hfree : e'.heap.isLocked r = false) : e'.checkWritable c v = .ok () := by
  obtain ⟨p, hplace, hfound⟩ := exists_placeOf? hr
  have hcontains : (e.tableAt p).contains v.name = true := by
    unfold Table.contains
    rw [hfound]
    rfl
  have hr' : e'.resolve c v.scope v.name = .ok (some r) := by
    rw [resolve_of_placeOf? (h.placeOf?_eq hplace), h.tableAt_of_contains hcontains, hfound]
  unfold checkWritable at hwritable ⊢
  rw [h.isReadOnly_eq hrunning hplace]
  split at hwritable
  · cases hwritable
  split at hwritable
  · cases hwritable
  split at hwritable
  · cases hwritable
  rename_i hscript hframe hreadonly
  rw [if_neg hscript, if_neg hframe, if_neg hreadonly, hr']
  simp [isLockedAs, hfree]

end Engine

/-! ## Parts and what comes after them -/

namespace Run

open Engine

variable {α β : Type} {eval : Expr → Run Ref} {e₀ e e' : Engine} {xs : List Expr} {m : Run α}

/-- Expressions are evaluated one after the other. The last of them may fail. -/
inductive Evaluates (eval : Expr → Run Ref) : List Expr → Engine → Engine → Prop where
  | nil (e : Engine) : Evaluates eval [] e e
  | cons {x : Expr} {xs : List Expr} {r : Ref} {e e₁ e₂ : Engine} (hx : eval x e = .ok r e₁)
      (hrest : Evaluates eval xs e₁ e₂) : Evaluates eval (x :: xs) e e₂
  | failed {x : Expr} {stop : Stop} {e e₁ : Engine} (hx : eval x e = .error stop e₁) :
      Evaluates eval [x] e e₁

/-- If the run ends in an error of the script, it has evaluated some of the expressions first, and
has only added objects since then, unless something has changed before. -/
def FailsAfter (eval : Expr → Run Ref) (e₀ : Engine) (xs : List Expr) (m : Run α) (e : Engine) :
    Prop :=
  ∀ err e', m e = .error (.error err) e' → ∃ ys e₁, ys <+: xs ∧ Evaluates eval ys e e₁ ∧
    (e₀.Unchanged e₁ → e₁.OnlyAdds e')

/-- No script sees the run fail. -/
def NeverFails (m : Run α) : Prop := ∀ e err e', m e ≠ .error (.error err) e'

namespace NeverFails

theorem pure (a : α) : NeverFails (pure a) := fun _ _ _ h => nomatch h

theorem modifyGet (change : Engine → α × Engine) : NeverFails (modifyGet change : Run α) :=
  fun _ _ _ h => nomatch h

theorem internal (failure : Failure) : NeverFails (internal failure : Run α) := by
  rintro e err e' ⟨⟩

theorem bind (hm : NeverFails m) {f : α → Run β} (hf : ∀ a, NeverFails (f a)) :
    NeverFails (m >>= f) := by
  intro e err e' h
  rcases of_bind_error h with h | ⟨a, e₁, -, h⟩
  · exact hm e err e' h
  · exact hf a e₁ err e' h

theorem get : NeverFails (get : Run Engine) := fun _ _ _ h => nomatch h

theorem value (r : Ref) : NeverFails (value r) := fun _ _ _ h => nomatch h

theorem storedAll (rs : List Ref) : NeverFails (storedAll rs) := by
  intro e err e' h
  obtain ⟨copies, e₁, hcopies, -⟩ := exists_storedAll rs e
  rw [hcopies] at h
  cases h

end NeverFails

/-- However the run ends, it has only looked at the engine. -/
def Looks (m : Run α) : Prop := ∀ e ended e', m.Ends e ended e' → e' = e

namespace Looks

theorem settle (x : Except Stop α) : Looks (settle x) := by
  intro e ended e' h
  exact ((Ends.settle x e).unique h).2.symm

theorem pure (a : α) : Looks (pure a) := settle (.ok a)

theorem raise (cause : Cause) : Looks (raise cause : Run α) := settle (.error _)

theorem internal (failure : Failure) : Looks (internal failure : Run α) := settle (.error _)

theorem bind (hm : Looks m) {f : α → Run β} (hf : ∀ a, Looks (f a)) : Looks (m >>= f) := by
  intro e answer e'' h
  obtain ⟨ended, e', hfirst⟩ := exists_ends m e
  obtain rfl := hm e ended e' hfirst
  cases ended with
  | error stop => exact (hfirst.bind_error.unique h).2.symm
  | ok a =>
    obtain ⟨answer', e₂, hrest⟩ := exists_ends (f a) e'
    obtain ⟨-, rfl⟩ := (hfirst.bind hrest).unique h
    exact hf a e' answer' e₂ hrest

theorem get : Looks (get : Run Engine) := by
  intro e ended e' h
  exact ((ends_ok_iff.2 (get_eq e)).unique h).2.symm

theorem value (r : Ref) : Looks (value r) := get.bind fun _ => pure _

theorem text (r : Ref) : Looks (text r) := (value r).bind fun _ => settle _

theorem number (r : Ref) : Looks (number r) := (value r).bind fun _ => settle _

theorem index (r : Ref) : Looks (index r) := (value r).bind fun _ => settle _

theorem checkUnlocked (r : Ref) (name : String) : Looks (checkUnlocked r name) := by
  refine (get.bind fun _ => pure _).bind fun locked => ?_
  split
  · exact raise _
  · exact pure ()

end Looks

namespace FailsAfter

theorem of_unchanged (h : ∀ err e', m e = .error (.error err) e' → e₀.Unchanged e → e.OnlyAdds e') :
    FailsAfter eval e₀ xs m e := fun err e' hrun => ⟨[], e, List.nil_prefix, .nil e, h err e' hrun⟩

theorem of_adds (hm : Adds m) : FailsAfter eval e₀ xs m e :=
  of_unchanged fun _ e' h _ => hm.ends e _ e' (ends_error_iff.2 h)

theorem of_never (hm : NeverFails m) : FailsAfter eval e₀ xs m e :=
  fun err e' h => absurd h (hm e err e')

theorem eval_bind {x : Expr} {f : Ref → Run α}
    (h : ∀ r e₁, FailsAfter eval e₀ xs (f r) e₁) :
    FailsAfter eval e₀ (x :: xs) (eval x >>= f) e := by
  intro err e' hrun
  rcases of_bind_error hrun with hfailed | ⟨r, e₁, hx, hrest⟩
  · exact ⟨[x], e', List.prefix_append [x] xs, .failed hfailed, fun _ => .refl e'⟩
  · obtain ⟨ys, e₂, hbegins, hevaluates, hadds⟩ := h r e₁ err e' hrest
    exact ⟨x :: ys, e₂, List.cons_prefix_cons.2 ⟨rfl, hbegins⟩, .cons hx hevaluates, hadds⟩

theorem looks_bind (hm : Looks m) {f : α → Run β}
    (h : ∀ a, m e = .ok a e → FailsAfter eval e₀ xs (f a) e) :
    FailsAfter eval e₀ xs (m >>= f) e := by
  intro err e' hrun
  rcases of_bind_error hrun with hfailed | ⟨a, e₁, hok, hrest⟩
  · obtain rfl := hm e _ e' (ends_error_iff.2 hfailed)
    exact ⟨[], e', List.nil_prefix, .nil e', fun _ => .refl e'⟩
  · obtain rfl := hm e _ e₁ (ends_ok_iff.2 hok)
    exact h a hok err e' hrest

theorem raise_if {cond : Prop} [Decidable cond] {cause : Cause} {rest : Unit → Run α}
    (h : ¬cond → FailsAfter eval e₀ xs (rest ()) e) :
    FailsAfter eval e₀ xs (if cond then raise cause >>= rest else rest ()) e := by
  split
  · exact looks_bind (.raise cause) fun a hraised => nomatch hraised
  · exact h ‹_›

theorem onlyAdds (h : FailsAfter eval e₀ [] m e) {err : ScriptError}
    (hrun : m e = .error (.error err) e') (hsame : e₀.Unchanged e) : e.OnlyAdds e' := by
  obtain ⟨ys, e₁, hbegins, hevaluates, hadds⟩ := h err e' hrun
  obtain rfl := List.prefix_nil.1 hbegins
  cases hevaluates
  exact hadds hsame

theorem of_same (h : e₀.Unchanged e → FailsAfter eval e₀ [] m e) : FailsAfter eval e₀ [] m e :=
  of_unchanged fun _ _ hrun hsame => (h hsame).onlyAdds hrun hsame

/-- Once everything is evaluated, objects may be added before the next check. -/
theorem adds_bind (hm : ∀ ended e₁, m.Ends e ended e₁ → e.OnlyAdds e₁) {f : α → Run β}
    (h : ∀ a e₁, m e = .ok a e₁ → FailsAfter eval e₀ [] (f a) e₁) :
    FailsAfter eval e₀ [] (m >>= f) e := by
  refine of_unchanged fun err e' hrun hsame => ?_
  rcases of_bind_error hrun with hfailed | ⟨a, e₁, hok, hrest⟩
  · exact hm _ e' (ends_error_iff.2 hfailed)
  · have hadds := hm _ e₁ (ends_ok_iff.2 hok)
    exact hadds.trans ((h a e₁ hok).onlyAdds hrest (hsame.trans hadds.unchanged))

end FailsAfter

variable {c : Context} {v : Variable} {op : AssignOperator} {x : Expr}

theorem onlyAdds_of_combine_error {current : Option Ref} {right : Ref} {name : String} {stop : Stop}
    (h : combine op current right name e = .error stop e') : e.OnlyAdds e' := by
  refine (of_combine (ends_error_iff.2 h)).resolve_right ?_
  rintro ⟨r, e₁, v, -, ⟨⟩, -⟩

/-- Nothing fails after a new value was combined. -/
theorem FailsAfter.combine_bind {current : Option Ref} {right : Ref} {name : String}
    {f : Ref → Run α} (hf : ∀ r, NeverFails (f r)) :
    FailsAfter eval e₀ [] (combine op current right name >>= f) e := by
  refine of_unchanged fun err e' h _ => ?_
  rcases of_bind_error h with h | ⟨r, e₁, -, h⟩
  · exact onlyAdds_of_combine_error h
  · exact absurd h (hf r e₁ err e')

/-- An operator works on a new object for what is no object itself. -/
theorem FailsAfter.fresh_bind {v : Value} {right : Ref} {name : String}
    (hv : v.isScalar = true) {f : Ref → Run α} (h : ∀ r e₁, FailsAfter eval e₀ [] (f r) e₁) :
    FailsAfter eval e₀ []
      (new v >>= fun current => combine op (some current) right name >>= f) e := by
  refine .adds_bind ((Adds.new v).ends e) fun current e₁ hnew => ?_
  obtain ⟨rfl, rfl⟩ := EStateM.Result.ok.inj hnew
  refine .adds_bind (fun ended e₂ hcombined => onlyAdds_combine ?_ hcombined) fun r e₂ _ => h r e₂
  exact (congrArg Value.isScalar (e.heap.value_new_self v)).trans hv

/-! ## Variables -/

theorem store_of_writable {p : Place} {r : Ref} (hwritable : e.checkWritable c v = .ok ())
    (hr : e.isFuncref r = false) (hp : e.writePlace c v = .ok p) :
    store c v r e = .ok () (e.storing c v r p) := by
  unfold store
  rw [bind_of_ok (get_eq e)]
  simp only [hwritable, hr, hp, Bool.false_and, Bool.false_eq_true, if_false]
  rfl

/-- A List or a Blob that was added to in place is stored in its variable again. -/
theorem exists_store_inPlace {r : Ref} {new : Value} {e₁ : Engine} (hsame : e.KeepsBindings e₁)
    (hrunning : ∀ id : FrameId, id.index < e.frames.size → ∃ needs, e.Runs id needs)
    (hwritable : e.checkWritable c v = .ok ()) (hr : e.resolve c v.scope v.name = .ok (some r))
    (hfree : e₁.heap.isLocked r = false) (hin : r.index < e₁.heap.size)
    (hnew : new.kind = .list ∨ new.kind = .blob) :
    ∃ e', store c v r (e₁.withHeap (e₁.heap.setValue r new)) = .ok () e' := by
  have hbindings : e.KeepsBindings (e₁.withHeap (e₁.heap.setValue r new)) :=
    ⟨hsame.frames, hsame.scripts, hsame.functions, hsame.globals, hsame.vim, hsame.globalFunctions⟩
  obtain ⟨p, hplace, -⟩ := exists_placeOf? hr
  obtain ⟨q, hq⟩ := exists_writePlace (hbindings.placeOf?_eq hplace)
  have hcell := e₁.heap.cell_modifyCell_self r (fun c => { c with value := new }) hin
  have hlock : (e₁.withHeap (e₁.heap.setValue r new)).heap.isLocked r = false :=
    (congrArg Cell.locked hcell).trans hfree
  have hplain : (e₁.withHeap (e₁.heap.setValue r new)).isFuncref r = false := by
    have hvalue : (e₁.withHeap (e₁.heap.setValue r new)).heap.value r = new :=
      e₁.heap.value_setValue_self new hin
    unfold isFuncref
    rw [hvalue]
    cases new <;> first | rfl | simp [Value.kind] at hnew
  exact ⟨_, store_of_writable (hbindings.checkWritable_eq hrunning hwritable hr hlock) hplain hq⟩

theorem failsAfter_assignVariable
    (hrunning : ∀ id : FrameId, id.index < e.frames.size → ∃ needs, e.Runs id needs) :
    FailsAfter eval e [x] (assignVariable eval c v op x) e := by
  unfold assignVariable
  refine .looks_bind .get fun _ hget => ?_
  obtain rfl := (EStateM.Result.ok.inj hget).1
  refine .looks_bind (.settle _) fun _ hwritable => ?_
  obtain ⟨hwritable, -⟩ := of_settle_ok hwritable
  refine .looks_bind (Looks.get.bind fun _ => .settle _) fun current hcurrent => ?_
  obtain ⟨hcurrent, -⟩ := of_settle_ok (x := e.resolve c v.scope v.name) hcurrent
  refine .raise_if fun _ => .eval_bind fun right e₁ => .of_unchanged fun err e' h hsame => ?_
  rcases of_bind_error h with h | ⟨r, e₂, hcombined, hstore⟩
  · exact onlyAdds_of_combine_error h
  obtain ⟨rfl, -⟩ := of_store_error hstore
  rcases of_combine (ends_ok_iff.2 hcombined) with hadds | hplace
  · exact hadds
  -- the variable was checked before, and nothing that the check looks at has changed
  · obtain ⟨s, e₃, new, hs, hended, hfree, hadds, hnew, hkind, rfl⟩ := hplace
    obtain rfl := Except.ok.inj hended
    have hin : r.index < e₁.heap.size :=
      e₁.heap.lt_size_of_not_isScalar r (Value.isScalar_of_kind (hkind ▸ hnew))
    have hfree' : e₃.heap.isLocked r = false :=
      (congrArg Cell.locked (hadds.heap.cell r hin)).trans hfree
    obtain ⟨e₄, hstored⟩ := exists_store_inPlace
      (hsame.toKeepsBindings.trans hadds.unchanged.toKeepsBindings) hrunning hwritable
      (hs ▸ hcurrent) hfree' (Nat.lt_of_lt_of_le hin hadds.heap.size) hnew
    rw [hstored] at hstore
    cases hstore

/-! ## Elements -/

theorem neverFails_boundOnStore (dictionary r : Ref) : NeverFails (boundOnStore dictionary r) := by
  have hsharing (v : Value) : NeverFails (newSharing v) :=
    (NeverFails.modifyGet _).bind fun _ => .modifyGet _
  unfold boundOnStore
  refine (NeverFails.value r).bind fun v => ?_
  split
  · refine NeverFails.get.bind fun e => ?_
    split
    · exact hsharing _
    · exact .pure r
  · exact .pure r

theorem neverFails_setEntry (dictionary : Ref) (key : String) (r : Ref) :
    NeverFails (setEntry dictionary key r) := by
  unfold setEntry
  refine (NeverFails.value dictionary).bind fun v => ?_
  split
  · exact .modifyGet _
  · exact .pure ()

theorem neverFails_setItem (list : Ref) (i : Nat) (r : Ref) : NeverFails (setItem list i r) := by
  unfold setItem
  refine (NeverFails.value list).bind fun v => ?_
  split
  · split
    · exact .modifyGet _
    · exact .internal _
  · exact .internal _

theorem neverFails_bytes (r : Ref) : NeverFails (bytes r) := by
  unfold bytes
  refine (NeverFails.value r).bind fun v => ?_
  split
  · exact .pure _
  · exact .internal _

theorem looks_bytes (r : Ref) : Looks (bytes r) := by
  unfold bytes
  refine (Looks.value r).bind fun v => ?_
  split
  · exact .pure _
  · exact .internal _

theorem looks_lookup (dictionary : Ref) (key : String) : Looks ( entry? dictionary key) := by
  unfold entry?
  refine (Looks.value dictionary).bind fun v => ?_
  split <;> exact .pure _

theorem failsAfter_assignEntry {dictionary key : Ref} :
    FailsAfter eval e₀ [x] (assignEntry eval dictionary key op x) e := by
  have hfinish (k : String) (r : Ref) : NeverFails (do
      let bound ← boundOnStore dictionary r
      setEntry dictionary k (← stored bound)) :=
    (neverFails_boundOnStore dictionary r).bind fun bound =>
      (NeverFails.modifyGet _).bind fun s => neverFails_setEntry dictionary k s
  unfold assignEntry
  refine .looks_bind (.text key) fun k _ => .looks_bind (looks_lookup dictionary k) fun _ _ => ?_
  refine .raise_if fun _ => .eval_bind fun right e₁ => ?_
  refine .looks_bind (looks_lookup dictionary k) fun found _ => ?_
  cases found with
  | some current =>
    exact .looks_bind (.checkUnlocked current k) fun _ _ => .combine_bind fun r => hfinish k r
  | none =>
    exact .looks_bind (.checkUnlocked dictionary k) fun _ _ => .of_never (hfinish k right)

theorem failsAfter_assignItem {list key : Ref} {items : List Ref} :
    FailsAfter eval e₀ [x] (assignItem eval list items key op x) e := by
  unfold assignItem
  refine .looks_bind (.index key) fun n _ => ?_
  split
  · exact .of_adds (.raise _)
  split
  · exact .of_adds (.raise _)
  refine .looks_bind (.checkUnlocked _ _) fun _ _ => .eval_bind fun right e₁ => ?_
  exact .combine_bind fun r => (NeverFails.modifyGet _).bind fun s => neverFails_setItem list _ s

theorem failsAfter_assignByte {blob key : Ref} {size : Nat} :
    FailsAfter eval e₀ [x] (assignByte eval blob size key op x) e := by
  have hbyteAt (i : Nat) : Looks (byteAt blob i) := by
    unfold byteAt
    refine (looks_bytes blob).bind fun found => ?_
    split
    · exact .pure _
    · exact .internal _
  unfold assignByte
  refine .looks_bind (.index key) fun n _ => ?_
  split
  · exact .of_adds (.raise _)
  refine .looks_bind (.checkUnlocked _ _) fun _ _ => .eval_bind fun right e₁ => ?_
  refine .looks_bind (hbyteAt _) fun b _ => .fresh_bind rfl fun combined e₂ => ?_
  refine .looks_bind (.number combined) fun byte _ => .raise_if fun _ => .of_never ?_
  exact (neverFails_bytes blob).bind fun _ => .modifyGet _

theorem failsAfter_assignElement {container key : Expr} :
    FailsAfter eval e₀ [container, key, x] (assignElement eval container key op x) e := by
  unfold assignElement
  refine .eval_bind fun target e₁ => .eval_bind fun k e₂ => ?_
  refine .looks_bind (.value target) fun v _ => ?_
  split
  · exact failsAfter_assignEntry
  · exact failsAfter_assignItem
  · exact failsAfter_assignByte
  · exact .of_adds (.raise _)

/-! ## Ranges -/

theorem failsAfter_replaceRange {target source : Ref} {size : Nat} {first last : Int}
    {isOpen : Bool} :
    FailsAfter eval e₀ [] (replaceRange target source size first last isOpen) e := by
  have hcount (available : Nat) (count : Int) (few many : Cause) :
      Looks (checkCount available count isOpen few many) := by
    unfold checkCount
    dsimp only
    split
    · exact (Looks.raise _).bind fun _ => by split <;> first | exact .raise _ | exact .pure ()
    · split <;> first | exact .raise _ | exact .pure ()
  have hunlocked (items : List Ref) (name : String) : Looks (checkAllUnlocked items name) := by
    unfold checkAllUnlocked
    refine Looks.get.bind fun e => ?_
    dsimp only
    split
    · exact .raise _
    · exact .pure ()
  unfold replaceRange
  refine .looks_bind (.value target) fun v _ => .looks_bind (.value source) fun w _ => ?_
  split
  · refine .looks_bind (hcount _ _ _ _) fun _ _ => .looks_bind (hunlocked _ _) fun _ _ => ?_
    exact .of_never ((NeverFails.storedAll _).bind fun copies => .modifyGet _)
  · exact .looks_bind (hcount _ _ _ _) fun _ _ => .of_never (.modifyGet _)
  · exact .of_adds (.raise _)

theorem failsAfter_bound {bound? : Option Expr} {default : Int} {f : Int → Run α}
    (h : ∀ n e₁, FailsAfter eval e₀ xs (f n) e₁) :
    FailsAfter eval e₀ (bound?.toList ++ xs) (bound eval bound? default >>= f) e := by
  cases bound? with
  | none => exact h default e
  | some y =>
    have hrun : (bound eval (some y) default >>= f) = (eval y >>= fun r => index r >>= f) := by
      unfold bound
      rw [bind_assoc]
    rw [hrun]
    exact .eval_bind fun r e₁ => .looks_bind (.index r) fun n _ => h n e₁

theorem failsAfter_assignRange {container : Expr} {first last : Option Expr} :
    FailsAfter eval e₀ (container :: (first.toList ++ (last.toList ++ [x])))
      (assignRange eval container first last op x) e := by
  have hsize (r : Ref) : Looks (rangeTargetSize r) := by
    unfold rangeTargetSize
    refine (Looks.value r).bind fun v => ?_
    split <;> first | exact .pure _ | exact .raise _
  unfold assignRange
  refine .eval_bind fun target e₁ => .looks_bind (hsize target) fun size _ => .raise_if fun _ => ?_
  refine failsAfter_bound fun a e₂ => failsAfter_bound fun b e₃ => ?_
  refine .raise_if fun _ => .raise_if fun _ => ?_
  refine .looks_bind (.checkUnlocked _ _) fun _ _ => .eval_bind fun source e₄ => ?_
  exact failsAfter_replaceRange

/-! ## Options, registers and the environment -/

theorem looks_option (scope : Option Scope) (name : String) : Looks (option scope name) := by
  unfold option
  refine Looks.get.bind fun e => ?_
  split
  · exact .pure _
  · exact .raise _

theorem find?_of_option_ok {scope : Option Scope} {name : String} {r : Ref}
    (h : option scope name e = .ok r e') : e.options.find? scope name = some r := by
  unfold option at h
  rw [bind_of_ok (get_eq e)] at h
  cases hfound : e.options.find? scope name with
  | none =>
    simp only [hfound] at h
    cases h
  | some found =>
    simp only [hfound] at h
    cases h
    rfl

theorem failsAfter_setOption {scope : Option Scope} {name : String} {r : Ref} :
    FailsAfter eval e₀ xs (setOption scope name r) e := by
  have hkeep (v : Value) : NeverFails (do
      let kept ← new v
      modify fun e => { e with options := e.options.set scope name kept }) :=
    (NeverFails.modifyGet _).bind fun _ => .modifyGet _
  unfold setOption
  refine .looks_bind .get fun e₁ _ => ?_
  split
  · exact .of_adds (.raise _)
  refine .looks_bind (.value _) fun v _ => ?_
  split
  · exact .looks_bind (.number r) fun n _ => .of_never (hkeep _)
  · exact .looks_bind (.text r) fun s _ => .of_never (hkeep _)

theorem failsAfter_assignOption {scope : Option Scope} {name : String} (he : e.HasPlainOptions) :
    FailsAfter eval e [x] (assignOption eval scope name op x) e := by
  unfold assignOption
  dsimp only
  refine .raise_if fun _ => .raise_if fun _ => ?_
  refine .looks_bind (looks_option scope name) fun current hfound => .eval_bind fun right e₁ => ?_
  obtain ⟨hin, hkind⟩ := he.of_find? (find?_of_option_ok hfound)
  -- the current value is still no List and no Blob
  refine .of_same fun hsame => .adds_bind (fun ended e₂ hcombined => ?_) fun r e₂ _ => ?_
  · refine onlyAdds_combine ?_ hcombined
    rw [Heap.value, hsame.heap.cell current hin]
    exact Value.isScalar_of_optionKind hkind
  · exact failsAfter_setOption

theorem failsAfter_assignRegister {name : String} :
    FailsAfter eval e₀ [x] (assignRegister eval name op x) e := by
  unfold assignRegister
  dsimp only
  refine .raise_if fun _ => .raise_if fun _ => .eval_bind fun right e₁ => ?_
  refine .looks_bind ((Looks.get.bind fun _ => .pure _).bind fun _ => .pure _) fun before _ => ?_
  refine .fresh_bind rfl fun combined e₂ => .looks_bind (.text combined) fun s _ => ?_
  exact .of_never (.modifyGet _)

theorem failsAfter_assignEnvironment {name : String} :
    FailsAfter eval e₀ [x] (assignEnvironment eval name op x) e := by
  unfold assignEnvironment
  refine .raise_if fun _ => .eval_bind fun right e₁ => ?_
  refine .looks_bind (Looks.get.bind fun _ => .pure _) fun before _ => ?_
  refine .fresh_bind rfl fun combined e₂ => .looks_bind (.text combined) fun s _ => .of_never ?_
  unfold setEnvironment
  split
  · exact .modifyGet _
  · exact .internal _

/-! ## All targets -/

theorem failsAfter_assign
    (hrunning : ∀ id : FrameId, id.index < e.frames.size → ∃ needs, e.Runs id needs)
    (hplain : e.HasPlainOptions) (target : Expr) :
    FailsAfter eval e (target.targetParts ++ [x]) (assign eval c target op x) e := by
  unfold assign
  cases target with
  | var v => exact failsAfter_assignVariable hrunning
  | index container key => exact failsAfter_assignElement
  | slice container first last =>
    simp only [Expr.targetParts, List.cons_append, List.append_assoc]
    exact failsAfter_assignRange
  | option scope name => exact failsAfter_assignOption hplain
  | register name => exact failsAfter_assignRegister
  | environment name => exact failsAfter_assignEnvironment
  | _ => exact .looks_bind .get fun _ _ => .of_adds (.raise _)

/-- The mark of a statement does not change how it ends. -/
theorem of_marked_error {command : String} {err : ScriptError}
    (h : marked command m e = .error (.error err) e') :
    ∃ err', m e = .error (.error err') e' := by
  unfold marked at h
  split at h
  · cases h
  · rename_i stop e₁ hrun
    obtain ⟨hstop, rfl⟩ := EStateM.Result.error.inj h
    cases stop with
    | error err' => exact ⟨err', hrun⟩
    | _ => cases hstop

end Run

namespace Engine

/-- If an assignment here ends in an error of the script, it has evaluated its target and its right
side in part or as a whole. It has only added objects since then, and nothing is changed unless
that evaluation has changed it. -/
def FailsCleanly (host : Host) (e : Engine) : Prop :=
  ∀ fuel c target op x err e',
    (Interp.ofFuel host (fuel + 1)).exec c (.assign target op x) e = .error (.error err) e' →
      ∃ parts e₁, parts <+: target.targetParts ++ [x] ∧
        Run.Evaluates ((Interp.ofFuel host fuel).eval c) parts
          (e.record (.began c (.assign target op x))) e₁ ∧
        (e.Unchanged e₁ → e₁.OnlyAdds e' ∧ e.Unchanged e')

theorem TrueToNamings.failsCleanly {e : Engine} (he : e.TrueToNamings) (hplain : e.HasPlainOptions)
    (host : Host) : e.FailsCleanly host := by
  intro fuel c target op x err e' hrun
  obtain ⟨err', hfailed⟩ := Run.of_marked_error hrun
  have hassign : Run.assign ((Interp.ofFuel host fuel).eval c) c target op x
      (e.record (.began c (.assign target op x))) = .error (.error err') e' := by
    have hrecord : Run.record (.began c (.assign target op x)) e =
      .ok () (e.record (.began c (.assign target op x))) := rfl
    rw [Run.bind_of_ok hrecord] at hfailed
    unfold Run.execute Run.proceeding at hfailed
    exact (Run.of_bind_error hfailed).resolve_right fun ⟨_, _, _, hnormal⟩ => nomatch hnormal
  obtain ⟨parts, e₁, hbegins, hevaluates, hadds⟩ :=
    Run.failsAfter_assign (e := e.record (.began c (.assign target op x))) he.running
      ⟨hplain.globals, hplain.locals⟩ target err' e' hassign
  refine ⟨parts, e₁, hbegins, hevaluates, fun hsame => ?_⟩
  have hadded := hadds ⟨⟨hsame.frames, hsame.scripts, hsame.functions, hsame.globals, hsame.vim,
    hsame.globalFunctions⟩, hsame.heap, hsame.options, hsame.registers, hsame.environment⟩
  exact ⟨hadded, hsame.trans hadded.unchanged⟩

end Engine

/-! ## In a session -/

/-- Data that comes to a Number or to a String. -/
def HostData.isPlain : HostData → Bool
  | .none | .bool _ | .int _ | .text _ => true
  | _ => false

theorem HostData.toValue_of_isPlain {d : HostData} (hd : d.isPlain = true) (e : Engine) : ∃ v,
    (v.kind = .number ∨ v.kind = .string) ∧
      d.toValue e = .ok (e.heap.new v).1 (e.withHeap (e.heap.new v).2) := by
  cases d with
  | none => exact ⟨.ofInt 0, .inl rfl, by unfold toValue; rfl⟩
  | bool b => exact ⟨.ofBool b, .inl rfl, by unfold toValue; rfl⟩
  | int n => exact ⟨.ofInt n, .inl rfl, by unfold toValue; rfl⟩
  | text s => exact ⟨.string s, .inr rfl, by unfold toValue; rfl⟩
  | _ => cases hd

namespace Session

open Run

variable {host : Host} {e : Engine}

theorem objects_of_isPlain {data : List (String × HostData)}
    (hdata : ∀ entry ∈ data, entry.2.isPlain = true) (e : Engine) : ∃ named e',
      objects data e = .ok named e' ∧ e.heap.Extends e'.heap ∧ ∀ entry ∈ named,
        entry.2.index < e'.heap.size ∧
          ((e'.heap.value entry.2).kind = .number ∨ (e'.heap.value entry.2).kind = .string) := by
  induction data generalizing e with
  | nil => exact ⟨[], e, rfl, .refl _, fun _ h => nomatch h⟩
  | cons entry rest ih =>
    obtain ⟨v, hkind, hvalue⟩ := HostData.toValue_of_isPlain (hdata entry List.mem_cons_self) e
    obtain ⟨named, e', hrest, hextends, hnamed⟩ :=
      ih (fun other hother => hdata other (List.mem_cons_of_mem _ hother))
        (e.withHeap (e.heap.new v).2)
    refine ⟨(entry.1, (e.heap.new v).1) :: named, e', ?_, (Heap.Extends.new e.heap v).trans hextends,
      fun other hother => ?_⟩
    · unfold objects
      rw [bind_of_ok hvalue, bind_of_ok hrest]
      rfl
    · rcases List.mem_cons.1 hother with rfl | hother
      · have hin : (e.heap.new v).1.index < (e.heap.new v).2.size := by simp [Heap.new, Heap.size]
        have hsame : e'.heap.value (e.heap.new v).1 = v :=
          (congrArg Cell.value (hextends.cell _ hin)).trans (e.heap.value_new_self v)
        exact ⟨Nat.lt_of_lt_of_le hin hextends.size, by rwa [hsame]⟩
      · exact hnamed other hother

/-- The options of the first engine. -/
theorem of_start {config : Config} {options : List (String × HostData)}
    {registers environment : List (String × String)}
    (h : start config options registers environment = .ok e) : ∃ e₁ globals e₂,
      objects options e₁ = .ok globals e₂ ∧ e.heap = e₂.heap ∧
        e.options = ⟨.ofList globals, .empty⟩ := by
  unfold start at h
  split at h
  · rename_i e' hfurnish
    obtain rfl := Except.ok.inj h
    unfold furnish at hfurnish
    obtain ⟨vim, e₁, -, hfurnish⟩ := of_bind_ok hfurnish
    obtain ⟨globals, e₂, hobjects, hfurnish⟩ := of_bind_ok hfurnish
    cases hfurnish
    exact ⟨e₁, globals, e₂, hobjects, rfl, rfl⟩
  · cases h

/-- The options of a session start as Numbers and Strings if the data for them is plain. -/
theorem hasPlainOptions_start {config : Config} {options : List (String × HostData)}
    {registers environment : List (String × String)}
    (h : start config options registers environment = .ok e)
    (hplain : ∀ entry ∈ options, entry.2.isPlain = true) : e.HasPlainOptions := by
  obtain ⟨e₁, globals, e₂, hobjects, hheap, hoptions⟩ := of_start h
  obtain ⟨named, e', hnamed, -, hkinds⟩ := objects_of_isPlain hplain e₁
  obtain ⟨rfl, rfl⟩ := EStateM.Result.ok.inj (hnamed.symm.trans hobjects)
  refine ⟨fun name r hr => ?_, fun name r hr => ?_⟩
  · rw [hoptions] at hr
    rw [hheap]
    exact hkinds (name, r) (Table.mem_of_find?_ofList hr)
  · rw [hoptions] at hr
    cases hr

/-- Whatever a session asks for, an assignment that fails changes nothing but what its expressions
change, between the requests and in every step of them, as long as the options are Numbers and
Strings. -/
theorem perform_failsCleanly (he : Arrives host e) :
    (e.HasPlainOptions → e.FailsCleanly host) ∧
    ∀ (fuel : Nat) (r : Request) (hit : Task → Engine → Bool),
      (∀ task e₁, (e₁.HasPlainOptions → e₁.FailsCleanly host) → hit task e₁ = false) →
        r.perform (.watching host hit fuel) e = r.perform (.ofFuel host fuel) e := by
  refine ⟨fun hplain => he.atRest.trueToNamings.failsCleanly hplain host, fun fuel r hit hhit => ?_⟩
  exact perform_watching_recording he.atRest fuel r fun task e₁ htrue _ _ =>
    hhit task e₁ fun hplain => htrue.failsCleanly hplain host

/-! ### A List for an option -/

/-- An engine with one option, which holds a Number. -/
def tabbed : Engine :=
  match start .standard [("tabstop", .int 8)] [] [] with
  | .ok e => e
  | .error _ => blank .standard

theorem start_tabbed : start .standard [("tabstop", .int 8)] [] [] = .ok tabbed := by
  have hstarts : (start .standard [("tabstop", .int 8)] [] []).isOk = true := by decide +kernel
  unfold tabbed
  cases h : start .standard [("tabstop", .int 8)] [] [] with
  | ok e => rfl
  | error stop =>
    rw [h] at hstarts
    cases hstarts

theorem hasPlainOptions_tabbed : tabbed.HasPlainOptions :=
  hasPlainOptions_start start_tabbed (by decide)

/-- Does the run end in a script error? -/
def refuses {α : Type} (m : Run α) (e : Engine) : Bool :=
  match m e with
  | .error (.error _) _ => true
  | _ => false

theorem exists_of_refuses {α : Type} {m : Run α} {e : Engine} (h : refuses m e = true) :
    ∃ err e', m e = .error (.error err) e' := by
  unfold refuses at h
  split at h
  · exact ⟨_, _, by assumption⟩
  · cases h

theorem perform_failsCleanly_option : Arrives ⟨[]⟩ tabbed ∧ tabbed.HasPlainOptions ∧ ∃ err e',
    (Interp.ofFuel ⟨[]⟩ 2).exec .commandLine (.assign (.option none "tabstop") .set (.list []))
      tabbed = .error (.error err) e' ∧ tabbed.Unchanged e' := by
  have harrives : Arrives ⟨[]⟩ tabbed := .start start_tabbed
  have hplain := hasPlainOptions_tabbed
  have hclean := (perform_failsCleanly harrives).1 hplain
  have hrefused : refuses ((Interp.ofFuel ⟨[]⟩ 2).exec .commandLine
      (.assign (.option none "tabstop") .set (.list []))) tabbed = true := by decide +kernel
  -- the engine is not to be evaluated any more
  generalize tabbed = e at harrives hplain hclean hrefused ⊢
  obtain ⟨err, e', hrun⟩ := exists_of_refuses hrefused
  refine ⟨harrives, hplain, ?_⟩
  obtain ⟨parts, e₁, hbegins, hevaluates, hclean⟩ := hclean 1 _ _ _ _ err e' hrun
  refine ⟨err, e', hrun, (hclean ?_).2⟩
  have hrecorded (event : Event) : e.Unchanged (e.record event) :=
    ⟨⟨fun _ _ => id, fun _ _ => id, fun _ _ => id, rfl, rfl, rfl⟩, .refl _, rfl, rfl, rfl⟩
  have hlist (e : Engine) : (Interp.ofFuel ⟨[]⟩ 1).eval .commandLine (.list []) e =
    .ok (e.heap.new (.list [])).1 (e.withHeap (e.heap.new (.list [])).2) := rfl
  -- the right side adds a List, and there is no other part
  cases hevaluates with
  | nil => exact hrecorded _
  | failed hx =>
    obtain rfl := (List.cons_prefix_cons.1 hbegins).1
    cases (hlist _).symm.trans hx
  | cons hx hrest =>
    obtain ⟨rfl, hnone⟩ := List.cons_prefix_cons.1 hbegins
    obtain rfl := List.prefix_nil.1 hnone
    obtain ⟨rfl, rfl⟩ := EStateM.Result.ok.inj ((hlist _).symm.trans hx)
    cases hrest
    exact (hrecorded _).trans (Engine.OnlyAdds.withHeap (.new _ _)).unchanged

end Session

end VimL
