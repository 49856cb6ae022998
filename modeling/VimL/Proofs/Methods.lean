import VimL.Proofs.CallDepth
import VimL.Proofs.CompoundAssignments
import VimL.Proofs.Funcrefs
import VimL.Proofs.Receivers
import VimL.Proofs.Registry

/-!
# Methods

A function that needs a receiver, and that is called as an entry of a Dictionary, gets this
Dictionary, wherever the reference to it comes from. Only a receiver that the reference was bound to
explicitly is preferred. Either is bound before the defaults of parameters are evaluated, and it is
still bound when the body begins.
-/

namespace VimL

variable {host : Host}

/-- The receiver of a function that is called as an entry of this Dictionary. -/
def Funcref.receiverIn (f : Funcref) (d : Ref) : Ref := if f.fixed then f.receiver.getD d else d

theorem Funcref.kind_receiverIn {h : Heap} {d : Ref} (f : Funcref)
    (hd : (h.value d).kind = .dictionary)
    (hfixed : f.fixed = true → ∀ x, f.receiver = some x → (h.value x).kind = .dictionary) :
    (h.value (f.receiverIn d)).kind = .dictionary := by
  unfold receiverIn
  split
  · rename_i hf
    cases hreceiver : f.receiver with
    | none => exact hd
    | some x => exact hfixed hf x hreceiver
  · exact hd

namespace Run

variable {e e' : Engine} {c : Context} {d k r : Ref} {f : Funcref}

theorem value_of_newSharing {v : Value} (h : newSharing v e = .ok r e') : e'.heap.value r = v := by
  cases h
  exact e.heap.value_new_self v

/-! ## Entries -/

/-- What a Dictionary gives for a method is a reference that may have been bound to it. -/
theorem bindTo_of_method (hr : e.heap.value r = .funcref f) (hmethod : e.isDictFunction f = true) :
    ∃ s g e', bindTo d r e = .ok s e' ∧ e'.heap.value s = .funcref g ∧ g.handler = f.handler ∧
      g.arguments = f.arguments ∧ g.receiver.or (some d) = some (f.receiverIn d) := by
  unfold bindTo
  rw [bind_of_ok (value_of_eq hr)]
  dsimp only
  rw [bind_of_ok (get_eq e)]
  by_cases hfixed : f.fixed = true
  · rw [if_neg (by simp [hfixed])]
    refine ⟨r, f, e, rfl, hr, rfl, rfl, ?_⟩
    cases hreceiver : f.receiver <;> simp [Funcref.receiverIn, hfixed, hreceiver]
  · have hself : f.receiverIn d = d := by simp [Funcref.receiverIn, hfixed]
    rw [hself]
    by_cases hbound : f.receiver = some d
    · rw [if_neg (by simp [hbound])]
      refine ⟨r, f, e, rfl, hr, rfl, rfl, ?_⟩
      rw [hbound]
      rfl
    · rw [if_pos (by simp [hfixed, hbound, hmethod])]
      refine ⟨_, { f with receiver := some d }, _, rfl, ?_, rfl, rfl, rfl⟩
      exact e.heap.value_new_self _

theorem element_of_entry {entries : Table Ref} {name : String}
    (hd : e.heap.value d = .dictionary entries) (htext : text k e = .ok name e)
    (hentry : entries.find? name = some r) : element d k e = bindTo d r e := by
  unfold element
  rw [bind_of_ok (value_of_eq hd)]
  dsimp only
  rw [bind_of_ok htext, hentry]

end Run

/-! ## Explicit receivers -/

namespace Library

open Run

variable {env : NativeEnv} {e e' : Engine} {d r s : Ref} {cause : Cause}

theorem of_checkReceiver_ok (h : checkReceiver (some d) cause e = .ok () e') :
    e' = e ∧ (e.heap.value d).kind = .dictionary := by
  unfold checkReceiver at h
  dsimp only at h
  rw [bind_of_ok (value_of_eq rfl)] at h
  cases hd : e.heap.value d <;> rw [hd] at h <;> cases h
  exact ⟨rfl, rfl⟩

theorem of_boundArguments_ok {arguments : Option Ref} {extra : List Ref}
    (h : boundArguments arguments e = .ok extra e') : e' = e := by
  unfold boundArguments at h
  cases arguments with
  | none =>
    cases h
    rfl
  | some r =>
    dsimp only at h
    rw [bind_of_ok (value_of_eq rfl)] at h
    cases hr : e.heap.value r <;> rw [hr] at h <;> cases h
    rfl

/-- A reference that is made for a Dictionary is bound to it explicitly. -/
theorem function_fixes {name : Ref} {second third arguments : Option Ref}
    (hbindings : bindings second third e = .ok (arguments, some d) e)
    (h : function env name second third e = .ok s e') :
    ∃ f entries, e'.heap.value s = .funcref f ∧ f.fixed = true ∧ f.receiver = some d ∧
      e'.heap.value d = .dictionary entries := by
  have hkeeps : Keeps (Invariant.typing.discipline env.host) (function env name second third) :=
    inferInstance
  have hkinds : e.heap.KeepsKinds e'.heap := keepsKinds_of_ok hkeeps h
  unfold function at h
  rw [bind_of_ok hbindings] at h
  dsimp only at h
  obtain ⟨extra, _, hextra, hchecked⟩ := of_bind_ok h
  rw [of_boundArguments_ok hextra] at hchecked
  obtain ⟨_, _, hcheck, hmake⟩ := of_bind_ok hchecked
  obtain ⟨hsame, hd⟩ := of_checkReceiver_ok hcheck
  rw [hsame, bind_of_ok (value_of_eq rfl)] at hmake
  obtain ⟨entries, hentries⟩ := hkinds.exists_entries hd
  have hnew (g : Funcref) {e₁ : Engine}
      (h : newSharing (.funcref { g with receiver := some d, fixed := true }) e₁ = .ok s e') :
      ∃ f entries, e'.heap.value s = .funcref f ∧ f.fixed = true ∧ f.receiver = some d ∧
        e'.heap.value d = .dictionary entries :=
    ⟨_, entries, value_of_newSharing h, rfl, rfl, hentries⟩
  cases hname : e.heap.value name <;> rw [hname] at hmake
  case funcref f => exact hnew { f with arguments := f.arguments ++ extra } hmake
  all_goals
    obtain ⟨_, _, -, hnamed⟩ := of_bind_ok hmake
    obtain ⟨f, _, -, hmade⟩ := of_bind_ok hnamed
    exact hnew { f with arguments := f.arguments ++ extra } hmade

end Library

namespace Run

variable {e e' : Engine} {c : Context} {d k r : Ref} {f : Funcref}

/-! ## Arguments -/

section Arguments

open Discipline

variable {kept : Option (FrameId × Ref)} {runs : Context → Prop} {frame : FrameId} {g : Function}
  {eval : Context → Expr → Run Ref}

/-- An argument is not bound where the receiver is. -/
instance (name : String) : Keeps (sheltering host kept runs) (bindArgument frame name r) := by
  refine keeps_modifyGet fun e _ => ?_
  have hne : ∀ id x, kept = some (id, x) → Place.arguments frame ≠ .locals id := by
    intro id x _
    exact nofun
  have hkeeps : e.KeepsSheltered kept (e.changeTable (·.insert name r) (.arguments frame)) :=
    .changeTable hne
  exact hkeeps

theorem keeps_bindExtras (position : Nat) (rs : List Ref) :
    Keeps (sheltering host kept runs) (bindExtras frame position rs) := by
  induction rs generalizing position with
  | nil =>
    unfold bindExtras
    infer_instance
  | cons r rest ih =>
    have := ih (position + 1)
    unfold bindExtras
    infer_instance

variable (heval : ∀ c x, Keeps (sheltering host kept runs) (eval c x)) (hg : g.isLambda = false)

include heval hg

theorem keeps_bindParameters (parameters : List String) (rs : List Ref) :
    Keeps (sheltering host kept runs) (bindParameters eval g frame parameters rs) := by
  induction parameters generalizing rs with
  | nil =>
    unfold bindParameters
    infer_instance
  | cons name rest ih =>
    have hbind (given : Ref) : Keeps (sheltering host kept runs) (do
        bindParameter frame g.isLambda name (← stored given)
        bindParameters eval g frame rest rs.tail) := by
      have := ih rs.tail
      unfold bindParameter
      simp only [hg, Bool.false_eq_true, if_false]
      infer_instance
    have hmissing : Keeps (sheltering host kept runs) (internal (.missingDefault name) : Run Ref) :=
      keeps_internal nofun False.elim
    unfold bindParameters
    cases hhead : rs.head? with
    | some r => exact hbind r
    | none =>
      cases hdefault : g.defaults.find? name with
      | none => exact .bind hbind
      | some x =>
        have hx := heval ⟨g.script, some frame⟩ x
        exact .bind hbind

theorem keeps_bindArguments (rs : List Ref) :
    Keeps (sheltering host kept runs) (bindArguments eval g frame rs) := by
  have hparameters : Keeps (sheltering host kept runs)
      (bindParameters eval g frame g.definition.parameters rs) :=
    keeps_bindParameters heval hg g.definition.parameters rs
  have hextras (extras : List Ref) : Keeps (sheltering host kept runs) (do
      bindArgument frame "0" (← newInt extras.length)
      bindArgument frame "000" (← new (.list extras))
      bindExtras frame 1 extras) := by
    have hpositions : Keeps (sheltering host kept runs) (bindExtras frame 1 extras) :=
      keeps_bindExtras 1 extras
    have hnew : Keeps (sheltering host kept runs) (new (.list extras)) :=
      ⟨fun _ => (Since.newList False.elim).mono fun _ _ _ _ => trivial⟩
    infer_instance
  unfold bindArguments
  infer_instance

end Arguments

end Run

namespace Engine

variable {e : Engine} {id : FunctionId} {g : Function} {x r : Ref} {own : FrameId} {name : String}

/-- A variable of the innermost frame is found with and without its prefix. -/
theorem Binds.lookup (h : e.Binds ⟨.locals own, name⟩ r) (script : Option ScriptId)
    {scope : Option Scope} (hscope : scope = none ∨ scope = some .locals) :
    Run.lookup ⟨script, some own⟩ ⟨scope, name⟩ e = .ok r e := by
  let c : Context := ⟨script, some own⟩
  have hlocals : c.effectiveScope scope = .locals := by
    rcases hscope with rfl | rfl
    · rfl
    · rfl
  have hcontains : (e.tableAt (.locals own)).contains name = true := by
    have hfind : (e.tableAt (.locals own)).find? name = some r := h
    simp [Table.contains, hfind]
  have hbinder : e.binder? c .locals name = some (.locals own) :=
    (innermost_self hcontains).binder?_eq rfl
  have hplace : e.placeOf? c scope name = .ok (some (.locals own)) := by
    unfold placeOf?
    rw [hlocals, if_pos ⟨.inl rfl, rfl⟩, hbinder]
  apply Run.lookup_of_resolve
  rw [resolve_of_placeOf? (v := ⟨scope, name⟩) hplace]
  exact congrArg Except.ok h

/-! ## Invocations -/

/-- The function is called: there is a new frame, in which the arguments are to be bound. -/
def opening (e : Engine) (id : FunctionId) (g : Function) (receiver : Option Ref) : Engine :=
  (e.invoke ⟨id, .empty, Run.firstLocals e.heap g receiver, g.closure⟩).enter
    (.defined g.displayName)

/-- The function is called on this receiver: there is a new frame, in which the receiver is bound.
-/
def calling (e : Engine) (id : FunctionId) (g : Function) (x : Ref) : Engine :=
  (e.invoke ⟨id, .empty, Table.empty.insert "self" x, g.closure⟩).enter (.defined g.displayName)

theorem Shelters.calling (he : e.Shelters none) (id : FunctionId) (g : Function) (x : Ref) :
    (e.calling id g x).Shelters (some (⟨e.frames.size⟩, x)) := by
  constructor
  · rintro _ _ ⟨⟩
    have hframe := e.frame?_new ⟨id, .empty, Table.empty.insert "self" x, g.closure⟩
    have htable : (e.calling id g x).tableAt (.locals ⟨e.frames.size⟩) =
        Table.empty.insert "self" x := by
      exact congrArg (fun found : Option Frame => (found.map (·.locals)).getD .empty) hframe
    unfold Binds
    rw [htable, Table.find?_insert_self]
  · intro n f hf
    have hstays : f.StaysApart e none := he.functions n f hf
    refine ⟨fun hplain k hk => ?_, hstays.expression⟩
    have hapart := (hstays.apart hplain k hk).invoke
      ⟨id, .empty, Table.empty.insert "self" x, g.closure⟩ x
    exact hapart.mono (.of_eq rfl)

end Engine

namespace Run

open Discipline EStateM

variable {i : Interp} {c : Context} {id : FunctionId} {g : Function} {x : Ref} {rs : List Ref}
  {e e' : Engine}

/-- The function is called on this receiver. The call is not allowed, or an argument fails, or the
body runs and finds the receiver. -/
inductive Invokes (i : Interp) (id : FunctionId) (g : Function) (x : Ref) (rs : List Ref)
    (e : Engine) : Result Stop Engine Ref → Prop where
  | refused {stop : Stop} {e' : Engine} (hcheck : checkCall g rs.length true e = .error stop e') :
      Invokes i id g x rs e (.error stop e')
  | unbound {stop : Stop} {e' : Engine} (hcheck : checkCall g rs.length true e = .ok () e)
      (hbind : bindArguments i.eval g ⟨e.frames.size⟩ rs (e.calling id g x) = .error stop e') :
      Invokes i id g x rs e (.error stop (e.leave e'))
  | body {e' : Engine} (hcheck : checkCall g rs.length true e = .ok () e)
      (hbind : bindArguments i.eval g ⟨e.frames.size⟩ rs (e.calling id g x) = .ok () e')
      (hself : ∀ scope, scope = none ∨ scope = some .locals →
        lookup ⟨g.script, some ⟨e.frames.size⟩⟩ ⟨scope, "self"⟩ (e'.noteCall ⟨e.frames.size⟩) =
          .ok x (e'.noteCall ⟨e.frames.size⟩)) :
      Invokes i id g x rs e
        ((afterwards (block i.exec ⟨g.script, some ⟨e.frames.size⟩⟩ g.definition.body) e.leave >>=
          resultOf) (e'.noteCall ⟨e.frames.size⟩))

theorem isLambda_of_dict (hdict : g.definition.dict = true) : g.isLambda = false := by
  by_contra hlambda
  rw [g.free (by simpa using hlambda)] at hdict
  cases hdict

theorem of_checkCall_ok {count : Nat} {hasReceiver : Bool}
    (h : checkCall g count hasReceiver e = .ok () e') : e' = e := by
  unfold checkCall at h
  rw [bind_of_ok (get_eq e)] at h
  dsimp only at h
  split at h
  · cases h
  split at h
  · cases h
  split at h
  · cases h
  split at h
  · cases h
  · cases h
    rfl

theorem firstLocals_of_method {entries : Table Ref} (hdict : g.definition.dict = true)
    (hx : e.heap.value x = .dictionary entries) :
    firstLocals e.heap g (some x) = Table.empty.insert "self" x := by
  simp [firstLocals, hx, hdict]

theorem opening_of_method {entries : Table Ref} (hdict : g.definition.dict = true)
    (hx : e.heap.value x = .dictionary entries) :
    e.opening id g (some x) = e.calling id g x := by
  unfold Engine.opening Engine.calling
  rw [firstLocals_of_method hdict hx]

/-- What runs inside of a call: the arguments are bound, and then the body runs. -/
def invocation (i : Interp) (g : Function) (frame : FrameId) (rs : List Ref) : Run Signal := do
  bindArguments i.eval g frame rs
  modify (·.noteCall frame)
  block i.exec ⟨g.script, some frame⟩ g.definition.body

/-- A call that is allowed has a new frame, and runs in it. -/
theorem callDefined_of_checked (hg : e.function? id = some g) (receiver : Option Ref)
    (hcheck : checkCall g rs.length receiver.isSome e = .ok () e) :
    callDefined i id rs receiver e =
      (afterwards (invocation i g ⟨e.frames.size⟩ rs) e.leave >>= resultOf)
        (e.opening id g receiver) := by
  have hframe : newFrame id g receiver e = .ok ⟨e.frames.size⟩
      (e.invoke ⟨id, .empty, firstLocals e.heap g receiver, g.closure⟩) := rfl
  unfold callDefined
  rw [bind_of_ok (get_eq e), hg]
  dsimp only
  rw [bind_of_ok hcheck, bind_of_ok hframe]
  rfl

section Invocation

variable {frame : FrameId} {start bound : Engine}

/-- If an argument fails, the body does not run. -/
theorem invocation_of_unbound {stop : Stop}
    (hbind : bindArguments i.eval g frame rs start = .error stop bound) :
    (afterwards (invocation i g frame rs) e.leave >>= resultOf) start =
      .error stop (e.leave bound) := by
  have hfails : invocation i g frame rs start = .error stop bound := bind_of_error hbind
  exact bind_of_error (afterwards_of_error hfails e.leave)

theorem invocation_of_bound (hbind : bindArguments i.eval g frame rs start = .ok () bound) :
    (afterwards (invocation i g frame rs) e.leave >>= resultOf) start =
      (afterwards (block i.exec ⟨g.script, some frame⟩ g.definition.body) e.leave >>= resultOf)
        (bound.noteCall frame) := by
  have hbody : invocation i g frame rs start =
      block i.exec ⟨g.script, some frame⟩ g.definition.body (bound.noteCall frame) :=
    bind_of_ok hbind
  simp only [Bind.bind, EStateM.bind, afterwards, hbody]

end Invocation

/-- The receiver is bound in the frame of the call before the arguments are, and evaluating the
defaults of parameters leaves it alone. -/
theorem invokes_callDefined (he : e.Shelters none) (hg : e.function? id = some g)
    (hdict : g.definition.dict = true) {entries : Table Ref}
    (hx : e.heap.value x = .dictionary entries) (host : Host) (fuel : Nat) (rs : List Ref) :
    Invokes (.ofFuel host fuel) id g x rs e (callDefined (.ofFuel host fuel) id rs (some x) e) := by
  let i := Interp.ofFuel host fuel
  let frame : FrameId := ⟨e.frames.size⟩
  cases hcheck : checkCall g rs.length true e with
  | error stop e₁ =>
    rw [callDefined_of_refused hg (some x) hcheck]
    exact .refused hcheck
  | ok _ e₁ =>
    rw [of_checkCall_ok hcheck] at hcheck
    rw [callDefined_of_checked hg (some x) hcheck, opening_of_method hdict hx]
    cases hbind : bindArguments i.eval g frame rs (e.calling id g x) with
    | error stop e₂ =>
      rw [invocation_of_unbound hbind]
      exact .unbound hcheck hbind
    | ok _ e₂ =>
      rw [invocation_of_bound hbind]
      have hsheltered : (e.calling id g x).Shelters (some (frame, x)) := he.calling id g x
      have hobeys := (Interp.shelters_ofFuel host (some (frame, x)) fuel).obeys
      have hkeeps := hsheltered.keeps_of_ok
        (keeps_bindArguments (fun c y => hobeys.eval c y trivial) (isLambda_of_dict hdict) rs) hbind
      have hbinds : (e₂.noteCall frame).Binds ⟨.locals frame, "self"⟩ x :=
        (hkeeps.shelters hsheltered).receiver frame x rfl
      exact .body hcheck hbind fun scope hscope => hbinds.lookup g.script hscope

/-! ## Calls of entries -/

/-- The expressions of an entry give a Dictionary and a key, and the entry refers to a function that
needs a receiver. If it was bound to one explicitly, this is a Dictionary. -/
inductive FindsMethod (i : Interp) (c : Context) (container key : Expr) (e : Engine) (d k : Ref)
    (f : Funcref) (e' : Engine) : Prop where
  | intro {e₁ : Engine} {entries : Table Ref} {name : String} {r : Ref}
      (hcontainer : i.eval c container e = .ok d e₁) (hkey : i.eval c key e₁ = .ok k e')
      (hd : e'.heap.value d = .dictionary entries) (htext : text k e' = .ok name e')
      (hentry : entries.find? name = some r) (hr : e'.heap.value r = .funcref f)
      (hmethod : e'.isDictFunction f = true)
      (hfixed : f.fixed = true → ∀ x, f.receiver = some x →
        (e'.heap.value x).kind = .dictionary) : FindsMethod i c container key e d k f e'

/-- A method is looked for as an entry. -/
def methodAt? (i : Interp) (c : Context) (container key : Expr) (e : Engine) :
    Option (Ref × Ref × Funcref × Engine) :=
  match i.eval c container e with
  | .error _ _ => none
  | .ok d e₁ =>
    match i.eval c key e₁ with
    | .error _ _ => none
    | .ok k e' =>
      match e'.heap.value d, (e'.heap.value k).toText with
      | .dictionary entries, .ok name =>
        match (entries.find? name).map e'.heap.value with
        | some (.funcref f) =>
          if e'.isDictFunction f && (!f.fixed || f.receiver.all fun x =>
            (e'.heap.value x).kind = .dictionary) then some (d, k, f, e') else none
        | _ => none
      | _, _ => none

theorem findsMethod_of_methodAt? {i : Interp} {container key : Expr} {d k : Ref} {f : Funcref}
    (h : methodAt? i c container key e = some (d, k, f, e')) :
    FindsMethod i c container key e d k f e' := by
  unfold methodAt? at h
  cases hcontainer : i.eval c container e with
  | error => simp [hcontainer] at h
  | ok d' e₁ =>
    cases hkey : i.eval c key e₁ with
    | error => simp [hcontainer, hkey] at h
    | ok k' e₂ =>
      simp only [hcontainer, hkey] at h
      split at h
      · rename_i entries name hd hname
        split at h
        · rename_i f' hentry
          split at h
          · rename_i hmethod
            cases h
            obtain ⟨r, hr, hvalue⟩ := Option.map_eq_some_iff.1 hentry
            have htext : text k e' = .ok name e' := by
              change settle (e'.heap.value k).toText e' = _
              rw [hname]
              rfl
            obtain ⟨hneeds, hexplicit⟩ := (Bool.and_eq_true _ _).mp hmethod
            refine .intro hcontainer hkey hd htext hr hvalue hneeds fun hfixed x hx => ?_
            simpa [hfixed, hx] using hexplicit
          · cases h
        · cases h
      · cases h

/-- A function is called on this receiver, once its arguments are evaluated, unless it has been
deleted. Its parts run with less fuel. -/
inductive CallsOn (i part : Interp) (c : Context) (f : Funcref) (x : Ref) (arguments : List Expr)
    (e : Engine) : Result Stop Engine Ref → Prop where
  | unevaluated {stop : Stop} {e' : Engine} (hstop : evalAll i c arguments e = .error stop e') :
      CallsOn i part c f x arguments e (.error stop e')
  | deleted {rs : List Ref} {e' : Engine} {id : FunctionId} {name : String} {g : Function}
      (harguments : evalAll i c arguments e = .ok rs e') (hf : f.handler = .defined id name)
      (hg : e'.function? id = some g) (hdeleted : g.deleted = true) :
      CallsOn i part c f x arguments e (.error (.ofCause (.deletedFunction name)) e')
  | invoked {rs : List Ref} {e' : Engine} {id : FunctionId} {name : String} {g : Function}
      {result : Result Stop Engine Ref}
      (harguments : evalAll i c arguments e = .ok rs e') (hf : f.handler = .defined id name)
      (hg : e'.function? id = some g) (halive : g.deleted = false)
      (hinvokes : Invokes part id g x (f.arguments ++ rs) e' result) :
      CallsOn i part c f x arguments e result

theorem evalCallValue_of_entry {i : Interp} {container key : Expr} {arguments : List Expr}
    {e₁ e₂ e₃ : Engine} {d k s : Ref} {g : Funcref} {entries : Table Ref}
    (hcontainer : i.eval c container e = .ok d e₁) (hkey : i.eval c key e₁ = .ok k e₂)
    (hentry : element d k e₂ = .ok s e₃) (hd : e₃.heap.value d = .dictionary entries)
    (hs : e₃.heap.value s = .funcref g) :
    evalCallValue host i c (.index container key) arguments e =
      (evalAll i c arguments >>= fun rs => callFuncref (i.call c) g rs (some d)) e₃ := by
  have hcallee : evalCallee i c (.index container key) e = .ok (s, some d) e₃ := by
    unfold evalCallee
    dsimp only
    rw [bind_of_ok hcontainer, bind_of_ok hkey, bind_of_ok hentry, bind_of_ok (value_of_eq hd)]
    rfl
  have hfuncref : funcrefOf host c s e₃ = .ok g e₃ := by
    unfold funcrefOf
    rw [bind_of_ok (value_of_eq hs)]
    rfl
  unfold evalCallValue
  rw [bind_of_ok hcallee]
  dsimp only
  rw [bind_of_ok hfuncref]

end Run

namespace Engine

open Run

/-- Whoever calls an entry of a Dictionary that is a method calls it on this Dictionary, or on the
one that the method was bound to explicitly. -/
def BindsReceivers (host : Host) (e : Engine) : Prop :=
  ∀ fuel c container key arguments d k f e₂,
    FindsMethod (.ofFuel host (fuel + 1)) c container key e d k f e₂ →
      ∃ s e₃, element d k e₂ = .ok s e₃ ∧
        CallsOn (.ofFuel host (fuel + 1)) (.ofFuel host fuel) c f (f.receiverIn d) arguments e₃
          ((Interp.ofFuel host (fuel + 2)).eval c (.callValue (.index container key) arguments) e)

theorem exists_of_isDictFunction {e : Engine} {f : Funcref} (h : e.isDictFunction f = true) :
    ∃ id name g, f.handler = .defined id name ∧ e.function? id = some g ∧
      g.definition.dict = true := by
  unfold isDictFunction at h
  split at h
  · rename_i id name hhandler
    obtain ⟨g, hg, hdict⟩ := (Option.any_eq_true _ _).1 h
    exact ⟨id, name, g, hhandler, hg, hdict⟩
  · cases h

/-- With its arguments, a method is called on its receiver, or it turns out to be deleted. -/
theorem Shelters.callsOn {e e' : Engine} (he' : e'.Shelters none) {i : Interp} {c : Context}
    {f g : Funcref} {arguments : List Expr} {rs : List Ref} {d x : Ref} {id : FunctionId}
    {name : String} {p : Function} {entries : Table Ref}
    (harguments : evalAll i c arguments e = .ok rs e') (hf : f.handler = .defined id name)
    (hp : e'.function? id = some p) (hdict : p.definition.dict = true)
    (hhandler : g.handler = f.handler) (hbound : g.arguments = f.arguments)
    (hreceiver : g.receiver.or (some d) = some x) (hx : e'.heap.value x = .dictionary entries)
    (host : Host) (fuel : Nat) :
    CallsOn i (.ofFuel host fuel) c f x arguments e
      (callFuncref ((Interp.ofFuel host (fuel + 1)).call c) g rs (some d) e') := by
  rw [hf] at hhandler
  cases hdeleted : p.deleted with
  | true =>
    have hdead : ¬g.handler.Alive e' := by
      intro halive
      rw [hhandler] at halive
      simp [halive p hp] at hdeleted
    obtain ⟨_, _, hsame, hfails⟩ := callFuncref_of_deleted
      ((Interp.ofFuel host (fuel + 1)).call c) rs (some d) hdead
    cases hhandler.symm.trans hsame
    rw [hfails]
    exact .deleted harguments hf hp hdeleted
  | false =>
    have halive : g.handler.Alive e' := by
      rw [hhandler]
      intro p' hp'
      cases hp.symm.trans hp'
      exact hdeleted
    rw [callFuncref_of_alive _ _ _ halive, hhandler, hbound, hreceiver]
    exact .invoked harguments hf hp hdeleted (invokes_callDefined he' hp hdict hx host fuel _)

/-- The receiver is a Dictionary when the entry is found. So it is one when the call begins, and the
function is there, whatever evaluating the arguments does. -/
theorem Shelters.bindsReceivers {e : Engine} (he : e.Shelters none) (host : Host) :
    e.BindsReceivers host := by
  intro fuel c container key arguments d k f e₂ hfinds
  cases hfinds with
  | @intro e₁ entries _ r hcontainer hkey hd htext hentry hr hmethod hfixed =>
    obtain ⟨s, g, e₃, hbind, hs, hhandler, hbound, hreceiver⟩ :=
      bindTo_of_method (d := d) hr hmethod
    have helement : element d k e₂ = .ok s e₃ := (element_of_entry hd htext hentry).trans hbind
    refine ⟨s, e₃, helement, ?_⟩
    -- the run keeps to both disciplines at every step, so what holds of `e` is carried to the call
    have hsheltering := (Interp.shelters_ofFuel host none (fuel + 1)).obeys
    have htyping := Invariant.typing.obeys host (fuel + 1)
    have hkeeps (D : Discipline host) : Keeps D (element d k) := inferInstance
    have he₁ := (he.keeps_of_ok (hsheltering.eval c container trivial) hcontainer).shelters he
    have he₂ := (he₁.keeps_of_ok (hsheltering.eval c key trivial) hkey).shelters he₁
    have hfound := he₂.keeps_of_ok (hkeeps _) helement
    have hkinds := keepsKinds_of_ok (hkeeps _) helement
    have hkind : (e₂.heap.value d).kind = .dictionary := by
      rw [hd]
      rfl
    obtain ⟨_, hd₃⟩ := hkinds.exists_entries hkind
    let call := (Interp.ofFuel host (fuel + 1)).call c
    have hcall : (Interp.ofFuel host (fuel + 2)).eval c
        (.callValue (.index container key) arguments) e =
          (evalAll (.ofFuel host (fuel + 1)) c arguments >>= fun rs =>
            callFuncref call g rs (some d)) e₃ :=
      evalCallValue_of_entry hcontainer hkey helement hd₃ hs
    rw [hcall]
    cases hall : evalAll (.ofFuel host (fuel + 1)) c arguments e₃ with
    | error stop e' =>
      rw [bind_of_error hall]
      exact .unevaluated hall
    | ok rs e' =>
      rw [bind_of_ok hall]
      have hsheltered := hfound.trans ((hfound.shelters he₂).keeps_of_ok
        (keeps_evalAll c fun y _ => hsheltering.eval c y trivial) hall)
      have hkept := hkinds.trans
        (keepsKinds_of_ok (keeps_evalAll c fun y _ => htyping.eval c y trivial) hall)
      obtain ⟨id, name, p, hdefined, hp, hdict⟩ := exists_of_isDictFunction hmethod
      obtain ⟨deleted, hp'⟩ := hsheltered.definitions id p hp
      obtain ⟨_, hx⟩ := hkept.exists_entries (f.kind_receiverIn hkind hfixed)
      exact (hsheltered.shelters he₂).callsOn hall hdefined hp' hdict hhandler hbound hreceiver hx
        host fuel

end Engine

/-! ## Sessions -/

namespace Engine

variable {e e' : Engine} {c : Context}

/-- The context has no frame, or its frame is there, as are those that it goes on to. -/
def Seats (e : Engine) (c : Context) : Prop := ∀ own, c.frame = some own → e.Apart none own

theorem Seats.mono (hc : e.Seats c) (hframes : e.KeepsFrames e') : e'.Seats c :=
  fun own hown => (hc own hown).mono hframes

end Engine

namespace Session

open Discipline

variable {e : Engine}

/-- The engines between the runs of a session whose host only uses contexts that are there. -/
inductive Proceeds (host : Host) : Engine → Prop where
  | start {e : Engine} {config : Config} {options : List (String × HostData)}
      {registers environment : List (String × String)}
      (h : start config options registers environment = .ok e) : Proceeds host e
  | constant {e e' : Engine} (h : Proceeds host e) {v : Value} {ended : Except Stop Ref}
      (hnew : (Run.newSharing v).Ends e ended e') : Proceeds host e'
  | newScript {e : Engine} (h : Proceeds host e) (name : String) :
      Proceeds host (newScript name e).2
  | setVariable {e e' : Engine} (h : Proceeds host e) {c : Context} (hc : e.Seats c)
      {v : Variable} {d : HostData} {ended : Except Stop Unit}
      (hset : (setVariable c v d).Ends e ended e') : Proceeds host e'
  | cancel {e : Engine} (h : Proceeds host e) : Proceeds host (cancel e)
  | perform {e : Engine} (h : Proceeds host e) (fuel : Nat) (r : Request)
      (hr : e.Seats (r.context e)) : Proceeds host (r.perform (.ofFuel host fuel) e).2

theorem shelters_blank (config : Config) : (blank config).Shelters none := by
  refine ⟨fun _ _ hkept => ?_, fun n f hf => ?_⟩
  · cases hkept
  · simp [blank, Engine.function?] at hf

theorem Request.holds_start (he : e.Shelters none) {r : Request} (hr : e.Seats (r.context e)) :
    (sheltering host none (· = r.context e)).holds (r.start e) := by
  have hframes : (r.start e).frames = e.frames := by cases r <;> rfl
  have hfunctions : (r.start e).functions = e.functions := by cases r <;> rfl
  refine ⟨he.of_eq hframes hfunctions, ?_⟩
  rintro _ own rfl hown
  exact hr.mono (.of_eq hframes) own hown

/-- No function goes on to a frame that is yet to come. -/
theorem Proceeds.shelters (h : Proceeds host e) : e.Shelters none := by
  induction h with
  | start h =>
    have hholds := Session.holds_start (D := sheltering host none fun _ => False) h
      ⟨shelters_blank _, fun _ _ => False.elim⟩
      fun _ _ _ _ _ he => ⟨he.1.of_eq rfl rfl, fun _ _ => False.elim⟩
    exact hholds.1
  | constant _ hnew ih =>
    have hleads := leads_newSharing (D := sheltering host none fun _ => False) id hnew
      ⟨ih, fun _ _ => False.elim⟩
    exact hleads.shelters ih
  | newScript _ name ih => exact ih.of_eq rfl rfl
  | @setVariable e e' _ c hc v d ended hset ih =>
    have hholds : (sheltering host none (· = c)).holds e := by
      refine ⟨ih, ?_⟩
      rintro _ own rfl hown
      exact hc own hown
    exact (leads_setVariable rfl hset hholds).shelters ih
  | cancel _ ih => exact ih.of_eq rfl rfl
  | @perform e _ fuel r hr ih =>
    have hobeys := (Interp.shelters_ofFuel host none fuel).obeysIn (r.context e)
    have hholds : (sheltering host none (· = r.context e)).holds (r.start e) :=
      Request.holds_start ih hr
    obtain ⟨e₁, _, _, hleads, hended, -⟩ := Request.leads_performIn hobeys r.judged_any hholds
    rw [hended]
    exact (hleads.shelters hholds.1).of_eq rfl rfl

/-- In whatever a session asks for, and in every step of it, a method that is called as an entry of
a Dictionary runs with this Dictionary, wherever the reference to it was before, unless it was bound
to another one explicitly. No run changes a reference to a function. -/
theorem perform_bindsReceivers (he : Proceeds host e) :
    e.BindsReceivers host ∧
    (∀ fuel (r : Request), e.Seats (r.context e) →
      (∀ hit : Task → Engine → Bool,
        (∀ task e₁, e₁.BindsReceivers host → hit task e₁ = false) →
          r.perform (.watching host hit fuel) e = r.perform (.ofFuel host fuel) e) ∧
      e.heap.KeepsFuncrefs (r.perform (.ofFuel host fuel) e).2.heap) ∧
    (∀ fuel, (Interp.ofFuel host fuel).KeepsFuncrefs) ∧
    ∀ env name second third arguments d s e₁ e₂,
      Library.bindings second third e₁ = .ok (arguments, some d) e₁ →
        Library.function env name second third e₁ = .ok s e₂ →
          ∃ f entries, e₂.heap.value s = .funcref f ∧ f.fixed = true ∧ f.receiver = some d ∧
            e₂.heap.value d = .dictionary entries := by
  refine ⟨he.shelters.bindsReceivers host, fun fuel r hr => ⟨fun hit hhit => ?_, ?_⟩,
    Interp.keepsFuncrefs_ofFuel host, fun _ _ _ _ _ _ _ _ _ => Library.function_fixes⟩
  · have hshelters : (Interp.watching host hit fuel).Shelters host none :=
      Interp.shelters_watching (fun task e₁ he₁ => hhit task e₁ (he₁.bindsReceivers host)) fuel
    exact Request.perform_watching_of_obeysIn (hshelters.obeysIn _) (fun h => h rfl) r.judged_any
      (Request.holds_start he.shelters hr)
  · exact Invariant.referring.keeps_perform trivial host fuel r

/-! ### A method that is moved -/

/-- The first Dictionary. -/
def owner : Expr := .var ⟨some .globals, "owner"⟩

/-- The second Dictionary. -/
def holder : Expr := .var ⟨some .globals, "holder"⟩

/-- What a method of the first Dictionary is called in the second one, as it is and bound
explicitly. -/
def methodKey (explicit : Bool) : Expr :=
  if explicit then .var ⟨some .vim, "version"⟩ else .register "a"

/-- A method is moved from one Dictionary to another one. -/
def movingMethod : Request :=
  let method : Expr := .index owner (methodKey false)
  .run .commandLine [
    .assign owner .set (.dict []),
    .dictFunction method
      ⟨[], [], [.giveBack (some (.var ⟨none, "self"⟩))], false, false, false, false⟩,
    .assign holder .set (.dict [(methodKey false, method),
      (methodKey true, .call none "function" [method, owner])])]

def moved : Engine := (movingMethod.perform (.ofFuel ⟨[]⟩ 8) (holding "get")).2

/-- The method gives back its receiver. -/
def callingMoved (explicit : Bool) : Expr := .callValue (.index holder (methodKey explicit)) []

/-- The call gives back this object. -/
def givesBack (explicit : Bool) (x : Ref) : Bool :=
  match (Interp.ofFuel ⟨[]⟩ 4).eval .commandLine (callingMoved explicit) moved with
  | .ok r _ => r == x
  | .error _ _ => false

theorem exists_of_givesBack {explicit : Bool} {x : Ref} (h : givesBack explicit x = true) :
    ∃ e', (Interp.ofFuel ⟨[]⟩ 4).eval .commandLine (callingMoved explicit) moved = .ok x e' := by
  unfold givesBack at h
  split at h
  · rename_i r e' hcall
    obtain rfl := eq_of_beq h
    exact ⟨e', hcall⟩
  · cases h

theorem seats_commandLine (e : Engine) : e.Seats .commandLine := nofun

/-- Both entries are bound to the first Dictionary, but only one of them is called on it. -/
theorem perform_bindsReceivers_moved : Proceeds ⟨[]⟩ moved ∧ ∀ explicit,
    moved.heap.KeepsFuncrefs ((Request.evaluate .commandLine (callingMoved explicit)).perform
      (.ofFuel ⟨[]⟩ 4) moved).2.heap ∧
    ∃ d k f other e₂ s e₃ e',
      Run.FindsMethod (.ofFuel ⟨[]⟩ 3) .commandLine holder (methodKey explicit) moved d k f e₂ ∧
        f.fixed = explicit ∧ f.receiver = some other ∧ other ≠ d ∧
          Run.element d k e₂ = .ok s e₃ ∧
            Run.CallsOn (.ofFuel ⟨[]⟩ 3) (.ofFuel ⟨[]⟩ 2) .commandLine f
              (if explicit then other else d) [] e₃
              (.ok (if explicit then other else d) e') := by
  have hproceeds : Proceeds ⟨[]⟩ moved :=
    (Proceeds.start (start_holding "get")).perform 8 movingMethod (seats_commandLine _)
  obtain ⟨hbinds, hperforms, -⟩ := perform_bindsReceivers hproceeds
  refine ⟨hproceeds, fun explicit => ⟨(hperforms 4 _ (seats_commandLine _)).2, ?_⟩⟩
  have hfound : ((Run.methodAt? (.ofFuel ⟨[]⟩ 3) .commandLine holder (methodKey explicit)
      moved).any fun (d, _, f, _) => f.fixed == explicit && f.receiver.any fun other =>
        other != d && givesBack explicit (if explicit then other else d)) = true := by
    cases explicit <;> decide +kernel
  obtain ⟨⟨d, k, f, e₂⟩, hmethod, h⟩ := (Option.any_eq_true _ _).1 hfound
  obtain ⟨hfixed, hreceiver⟩ := (Bool.and_eq_true _ _).mp h
  obtain ⟨other, hother, hends⟩ := (Option.any_eq_true _ _).1 hreceiver
  obtain ⟨hne, hgives⟩ := (Bool.and_eq_true _ _).mp hends
  obtain ⟨e', hcall⟩ := exists_of_givesBack hgives
  have hfinds := Run.findsMethod_of_methodAt? hmethod
  have hfixed : f.fixed = explicit := eq_of_beq hfixed
  have hself : f.receiverIn d = if explicit then other else d := by
    rw [Funcref.receiverIn, hfixed, hother]
    rfl
  obtain ⟨s, e₃, helement, hcalls⟩ := hbinds 2 _ _ _ [] d k f e₂ hfinds
  unfold callingMoved at hcall
  rw [hself, hcall] at hcalls
  exact ⟨d, k, f, other, e₂, s, e₃, e', hfinds, hfixed, hother, bne_iff_ne.1 hne, helement, hcalls⟩

end Session

end VimL
