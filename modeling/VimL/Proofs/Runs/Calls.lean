import VimL.Interpreter
import VimL.Proofs.Runs.Callbacks

/-!
# Runs of statements in a row and of calls

The interpreter for the parts of a program is one whose runs keep to a discipline. A statement only
starts while no cancellation is pending, which is what a row of statements looks at. A call may
keep to a discipline of its own.
-/

namespace VimL

variable {host : Host} {D D' : Discipline host} {T : Trees}

/-- An interpreter whose runs keep to a discipline, for trees that are judged well. A statement
ends in a way that fits its zone, if the trees are placed. -/
structure Interp.Obeys (D : Discipline host) (T : Trees) (i : Interp) : Prop where
  eval : ∀ c x, T.expr x → Run.Keeps D (i.eval c x)
  exec : ∀ e c z s, T.stmt z s → (D.placed → c.StandsIn z) → e.interrupted = false →
    Run.Allows D e (i.exec c s) fun signal _ => D.placed → signal.Fits z
  call : ∀ e c h arguments receiver, D.MayCall h e →
    Run.Allows D e (i.call c h arguments receiver) fun _ _ => True

/-- An interpreter that keeps to a discipline in one context, in which the parts of a tree run as
the tree does. -/
structure Interp.ObeysIn (D : Discipline host) (T : Trees) (i : Interp) (c : Context) : Prop where
  eval : ∀ x, T.expr x → Run.Keeps D (i.eval c x)
  exec : ∀ e z s, T.stmt z s → (D.placed → c.StandsIn z) → e.interrupted = false →
    Run.Allows D e (i.exec c s) fun signal _ => D.placed → signal.Fits z
  call : ∀ e h arguments receiver, D.MayCall h e →
    Run.Allows D e (i.call c h arguments receiver) fun _ _ => True

theorem Interp.Obeys.obeysIn {i : Interp} (hi : i.Obeys D T) (c : Context) : i.ObeysIn D T c where
  eval := hi.eval c
  exec e := hi.exec e c
  call e := hi.call e c

theorem Engine.frame?_new (e : Engine) (f : Frame) :
    (e.invoke f).frame? ⟨e.frames.size⟩ = some f := by
  simp [frame?, invoke, note]

namespace Run

variable {α : Type} {e : Engine} {m : Run α} {post : α → Engine → Prop} {i : Interp}

/-- Marks change no cause of an error. -/
theorem Allows.marked (hm : Allows D e m post) (command : String) :
    Allows D e (m.marked command) post := by
  intro he hleads
  have hrun := hm he hleads
  unfold Reaches at *
  simp only [Run.marked]
  cases h : m e with
  | ok a e' => simpa only [h] using hrun
  | error stop e' =>
    simp only [h] at hrun ⊢
    exact ⟨hrun.1, D.admits_mark hrun.2 _ _⟩

/-! ## Rows of statements -/

theorem allows_blockIn {c : Context} (hi : i.ObeysIn D T c) {z : Zone} {body : List Stmt}
    (hbody : T.body z body) (hc : D.placed → c.StandsIn z) (e : Engine) :
    Allows D e (block i.exec c body) fun signal _ => D.placed → signal.Fits z := by
  induction body generalizing e with
  | nil => exact .pure fun _ => trivial
  | cons s rest ih =>
    have hs : T.stmt z s := hbody s List.mem_cons_self
    have hrest : T.body z rest := fun t ht => hbody t (List.mem_cons_of_mem _ ht)
    unfold block
    refine .isInterrupted_bind ?_
    split
    · exact .pure fun _ => trivial
    · rename_i hpending
      have hexec := hi.exec e z s hs hc (by simpa using hpending)
      refine hexec.bind fun signal e' _ hsignal => ?_
      cases signal with
      | normal => exact ih hrest e'
      | _ => exact .pure hsignal

theorem allows_block (hi : i.Obeys D T) {c : Context} {z : Zone} {body : List Stmt}
    (hbody : T.body z body) (hc : D.placed → c.StandsIn z) (e : Engine) :
    Allows D e (block i.exec c body) fun signal _ => D.placed → signal.Fits z :=
  allows_blockIn (hi.obeysIn c) hbody hc e

theorem keeps_body (hi : i.Obeys D T) {c : Context} {z : Zone} {body : List Stmt}
    (hbody : T.body z body) (hc : D.placed → c.StandsIn z) : Keeps D (block i.exec c body) :=
  .of_allows fun e => allows_block hi hbody hc e

/-! ## Calls -/

theorem allows_within {entry : CallEntry} (hopens : D.Opens D' entry) (hroom : e.HasRoom entry)
    {good : α → Prop} (hm : Allows D' (e.enter entry) m fun a _ => good a) :
    Allows D e (within entry m) fun a _ => good a := by
  intro he _
  have hinner := hm (hopens.enter he hroom) (D'.refl _)
  exact .bracket rfl hinner (fun _ h => hopens.admits h) (fun _ h => hopens.leave he hroom h)
    fun _ _ h => h

variable {f : Function} (frame : FrameId)

theorem lt_size_of_firstLocals {h : Heap} {receiver : Option Ref} {name : String} {r : Ref}
    (hr : (firstLocals h f receiver).find? name = some r) : r.index < h.size := by
  unfold firstLocals at hr
  split at hr
  · simp at hr
  · rename_i d
    split at hr
    · rename_i hd
      split at hr
      · rcases Table.find?_insert_eq_some hr with heq | hnone
        · cases heq
          exact h.lt_size_of_not_isScalar r (by simp [hd, Value.isScalar])
        · simp at hnone
      · simp at hr
    · simp at hr

/-- Only a function that needs a receiver finds it in its locals. -/
theorem dict_of_firstLocals {h : Heap} {receiver : Option Ref} {name : String} {r : Ref}
    (hr : (firstLocals h f receiver).find? name = some r) : f.definition.dict = true := by
  unfold firstLocals at hr
  split at hr
  · simp at hr
  · split at hr
    · split at hr
      · assumption
      · simp at hr
    · simp at hr

/-- What is known of a frame while the arguments of its invocation are bound. No variable of a
lambda was locked, and it has no receiver. -/
structure Fillable (D : Discipline host) (isLambda : Bool) (e : Engine) : Prop where
  unnamed : D.named → isLambda = true → e.Unnamed (.locals frame)
  filling : D.minded → e.Filling frame
  receiverless : D.minded → isLambda = true → e.Receiverless frame

namespace Fillable

variable {frame} {isLambda : Bool} {e' : Engine}

theorem of_eq (h : Fillable frame D isLambda e) (hheap : e'.heap = e.heap)
    (hframes : e'.frames.size = e.frames.size) (hnamings : e'.namings = e.namings) :
    Fillable frame D isLambda e' where
  unnamed hnamed hlambda := (h.unnamed hnamed hlambda).of_heap_eq hheap
  filling hminded := (h.filling hminded).of_eq hframes hnamings
  receiverless hminded hlambda := (h.receiverless hminded hlambda).of_eq hnamings

theorem stored (h : Fillable frame D isLambda e) (r : Ref) :
    Fillable frame D isLambda (e.withHeap (e.heap.stored r).2) where
  unnamed hnamed hlambda := (h.unnamed hnamed hlambda).stored r
  filling hminded := (h.filling hminded).of_eq rfl rfl
  receiverless := h.receiverless

theorem changeTable (h : Fillable frame D isLambda e) (change : Table Ref → Table Ref)
    (p : Place) : Fillable frame D isLambda (e.changeTable change p) :=
  h.of_eq (e.changeTable_heap change p) (e.frames_size_changeTable change p)
    (e.changeTable_namings change p)

theorem enter (h : Fillable frame D isLambda e) (hopens : D.Opens D' (.defined f.displayName)) :
    Fillable frame D' isLambda (e.enter (.defined f.displayName)) where
  unnamed hnamed hlambda := (h.unnamed (hopens.named hnamed) hlambda).of_heap_eq rfl
  filling hminded := (h.filling (hopens.minded hminded)).of_eq rfl rfl
  receiverless hminded hlambda := (h.receiverless (hopens.minded hminded) hlambda).of_eq rfl

end Fillable

/-- A new frame is no call yet, and nothing is bound in it but the receiver. -/
theorem allows_newFrame {id : FunctionId} (hfound : e.function? id = some f)
    (receiver : Option Ref) {entry : CallEntry} (hroom : e.HasRoom entry) :
    Allows D e (newFrame id f receiver) fun frame e' =>
      e'.HasRoom entry ∧ D.fresh frame ∧ Fillable frame D f.isLambda e' ∧
        ∃ own, e'.frame? frame = some own ∧ own.closure = f.closure := by
  refine .of_holds fun he _ => ?_
  refine Allows.edit rfl (.invoke _ (fun _ _ => lt_size_of_firstLocals)
    ⟨f, hfound, fun _ => dict_of_firstLocals⟩) ⟨hroom, D.newFrame he, ?_, _, e.frame?_new _, rfl⟩
  refine ⟨fun hnamed _ => D.unnamed he hnamed, fun hminded => (D.unentered he hminded).filling _,
    fun hminded hlambda => (D.unentered he hminded).receiverless ?_⟩
  cases hself : (firstLocals e.heap f receiver).find? "self" with
  | none => rfl
  | some r => simpa [f.free hlambda] using dict_of_firstLocals hself

/-! ### Arguments -/

section Leaving

variable {frame} {β : Type} {g : α → Run β} {goal : β → Engine → Prop} {e' : Engine}

/-- An invocation is still to be filled after a run that leaves it so. -/
theorem Since.also_filling (hm : D.minded → LeavesFilling m)
    (hfilling : D.minded → e'.Filling frame) (h : Since D e e' m post) :
    Since D e e' m fun a e'' => post a e'' ∧ (D.minded → e''.Filling frame) := by
  intro he hleads
  have hrun := h he hleads
  unfold Reaches at *
  cases hends : m e' with
  | ok a e'' =>
    simp only [hends] at hrun ⊢
    exact ⟨hrun.1, hrun.2, fun hminded => (hm hminded).filling hends (hfilling hminded)⟩
  | error stop e'' => simpa only [hends] using hrun

/-- What was gathered before is still there as well. -/
theorem Since.filling_bind {rs : List Ref} [LeavesFilling m] (hm : Allows D e' m fun _ _ => True)
    (h : D.linear → e.Affords e' rs) (hfilling : D.minded → e'.Filling frame)
    (hf : ∀ a e'', D.leads e e'' → (D.linear → e.Affords e'' rs) →
      (D.minded → e''.Filling frame) → Since D e e'' (g a) goal) :
    Since D e e' (m >>= g) goal := by
  have hleads : Allows D e' m fun _ e'' => D.leads e' e'' := hm.mono fun _ _ hleads _ => hleads
  refine ((Since.of_allows hleads).also_filling (fun _ => inferInstance) hfilling).bind
    fun a e'' hsince ⟨hleads, hfilling⟩ => hf a e'' hsince (fun hlinear => ?_) hfilling
  have hboth := (h hlinear).trans (D.affords hleads hlinear)
  rwa [List.append_nil] at hboth

end Leaving

section Frame

variable [hfresh : D.Fresh frame]

theorem allows_bindArgument (hfilling : D.minded → e.Filling frame) (name : String) (r : Ref) :
    Allows D e (bindArgument frame name r) fun _ e' =>
      e' = e.changeTable (·.insert name r) (.arguments frame) ∧ (D.minded → e'.Filling frame) := by
  refine .edit rfl (.argument frame name r hfresh.fresh hfilling) ⟨rfl, fun hminded => ?_⟩
  exact (hfilling hminded).of_eq (e.frames_size_changeTable _ _) (e.changeTable_namings _ _)

theorem allows_bindParameter {isLambda : Bool} (hnew : Fillable frame D isLambda e) (name : String)
    {r : Ref} (hr : r.index < e.heap.size) : Allows D e (bindParameter frame isLambda name r)
      fun _ e' => Fillable frame D isLambda e' := by
  unfold bindParameter
  refine (allows_bindArgument frame hnew.filling name r).bind fun _ e₁ _ ⟨he₁, _⟩ => ?_
  subst he₁
  have hstill := hnew.changeTable (·.insert name r) (.arguments frame)
  split
  · rename_i hlambda
    refine .edit rfl (.parameter frame name r hr (fun hnamed => hstill.unnamed hnamed hlambda)
      hfresh.fresh fun hminded => hstill.receiverless hminded hlambda) (hstill.changeTable _ _)
  · exact .pure hstill

theorem allows_bindExtras (hfilling : D.minded → e.Filling frame) (position : Nat)
    (rs : List Ref) : Allows D e (bindExtras frame position rs)
      fun _ e' => D.minded → e'.Filling frame := by
  induction rs generalizing position e with
  | nil => exact .pure hfilling
  | cons r rest ih =>
    unfold bindExtras
    exact (allows_bindArgument frame hfilling _ r).bind fun _ _ _ ⟨_, hfilling⟩ =>
      ih hfilling (position + 1)

section Arguments

variable {eval : Context → Expr → Run Ref}
  (hdefaults : ∀ name x, f.defaults.find? name = some x → ∀ c, Keeps D (eval c x))
  (hleaves : D.minded → ∀ c x, LeavesFilling (eval c x))
  (hf : D.strict → f.WellFormed) {arguments : List Ref}
  (hcount : f.requiredCount ≤ arguments.length)

include hdefaults hleaves hf hcount

/-- A parameter that gets no argument has a default, since enough arguments are given. A lambda has
none, so nothing is evaluated while its parameters are bound. -/
theorem allows_bindParameters {before parameters : List String}
    (hsplit : f.definition.parameters = before ++ parameters)
    (hnew : Fillable frame D f.isLambda e) :
    Allows D e (bindParameters eval f frame parameters (arguments.drop before.length))
      fun _ e' => D.minded → e'.Filling frame := by
  induction parameters generalizing before e with
  | nil => exact .pure hnew.filling
  | cons p rest ih =>
    -- the arguments that are left belong to the parameters after those bound before
    have hrest {e'} := @ih e' (before ++ [p]) (by simpa using hsplit)
    rw [List.length_append, List.length_singleton, ← List.tail_drop] at hrest
    have hbind (given : Ref) {e' : Engine} (hnew : Fillable frame D f.isLambda e') :
        Allows D e' (do
          bindParameter frame f.isLambda p (← stored given)
          bindParameters eval f frame rest (arguments.drop before.length).tail)
          fun _ e'' => D.minded → e''.Filling frame := by
      refine (allows_stored e' given).bind fun s e₁ _ hstored => ?_
      obtain ⟨rfl, hs, -⟩ := hstored
      exact (allows_bindParameter frame (hnew.stored given) p hs).bind fun _ _ _ => hrest
    unfold bindParameters
    cases hhead : (arguments.drop before.length).head? with
    | some r => exact .pure_bind (hbind r hnew)
    | none =>
      cases hdefault : f.defaults.find? p with
      | some x =>
        have hplain : f.isLambda = false := by
          by_contra hlambda
          simp [f.plain (by simpa using hlambda)] at hdefault
        have heval : Allows D e (eval ⟨f.script, some frame⟩ x) fun _ _ => True :=
          (hdefaults p x hdefault _).allows e
        refine Allows.bind (heval.also_filling (fun hminded => hleaves hminded _ x) hnew.filling)
          fun given e' _ ⟨_, hfilling⟩ => hbind given ?_
        exact ⟨fun _ hlambda => by simp [hplain] at hlambda, hfilling,
          fun _ hlambda => by simp [hplain] at hlambda⟩
      | none =>
        refine Since.throw_bind (D.admits_internal nofun fun hstrict => ?_)
        have hout : arguments.length ≤ before.length := by simpa using hhead
        -- all parameters without a default have an argument
        obtain ⟨x, hx⟩ := (hf hstrict).defaultsLast.exists_default hcount hsplit hout
        exact absurd (hdefault.symm.trans hx) (by simp)

theorem allows_bindArguments (hnew : Fillable frame D f.isLambda e) :
    Allows D e (bindArguments eval f frame arguments) fun _ e' => D.minded → e'.Filling frame := by
  have hbind : Allows D e (bindParameters eval f frame f.definition.parameters arguments)
      fun _ e' => D.minded → e'.Filling frame :=
    allows_bindParameters frame hdefaults hleaves hf hcount (List.nil_append _).symm hnew
  unfold bindArguments
  refine hbind.bind fun _ e' _ hfilling => ?_
  split
  · have hextras := Gathers.allows (D := D) (m := storedAll
      (arguments.drop f.definition.parameters.length)) e'
    refine Since.bind (hextras.also_filling (fun _ => inferInstance) hfilling)
      fun extras e₁ _ ⟨hextras, hfilling⟩ => ?_
    refine .filling_bind .keeps hextras hfilling fun n e₂ _ hextras hfilling => ?_
    refine .filling_bind ((allows_bindArgument frame hfilling _ _).mono fun _ _ _ _ => trivial)
      hextras hfilling fun _ e₃ _ hextras hfilling => ?_
    refine ((Since.newList hextras).also_filling (fun _ => inferInstance) hfilling).bind
      fun r e₄ _ ⟨_, hfilling⟩ => .of_allows ?_
    exact (allows_bindArgument frame hfilling _ r).bind fun _ _ _ ⟨_, hfilling⟩ =>
      allows_bindExtras frame hfilling 1 extras
  · exact .pure hfilling

end Arguments

end Frame

/-- A call that is checked has enough arguments, and there is room for it. -/
theorem allows_checkCall (count : Nat) (hasReceiver : Bool) (name : String) :
    Allows D e (checkCall f count hasReceiver)
      fun _ e' => e' = e ∧ f.requiredCount ≤ count ∧ e.HasRoom (.defined name) := by
  unfold checkCall
  refine .get_bind ?_
  dsimp only
  split
  · exact .raise_bind
  rename_i hroom
  split
  · exact .raise_bind
  split
  · exact .raise_bind
  rename_i hleast
  split
  · exact .raise
  · exact .pure ⟨rfl, Int.not_lt.1 hleast, Nat.lt_of_not_le hroom⟩

/-- A body that is placed does not end with a stray break or continue. -/
theorem keeps_resultOf {signal : Signal} (hsignal : D.placed → signal.Fits .function) :
    Keeps D (resultOf signal) := by
  unfold resultOf
  cases signal with
  | finish => exact ⟨fun e => .throw D.admits_finished⟩
  | loopBreak | loopContinue =>
    exact ⟨fun e => .throw (D.admits_error (fun hplaced => absurd (hsignal hplaced) nofun) rfl)⟩
  | _ => infer_instance

end Run

/-- While it evaluates, the arguments of an invocation that are still to be bound stay so. -/
def Interp.LeavesFilling (i : Interp) : Prop := ∀ c x, Run.LeavesFilling (i.eval c x)

/-- The interpreter can run the bodies of functions, each under the discipline of its call. -/
def Interp.ServesDefined (D : Discipline host) (i : Interp) : Prop :=
  ∀ name f, D.fits f → ∃ D' T, i.Obeys D' T ∧ D.Opens D' (.defined name) ∧ T.Callable f ∧
    (D'.minded → i.LeavesFilling)

/-- The interpreter can be called back by native functions. -/
def Interp.ServesNative (D : Discipline host) (i : Interp) : Prop :=
  ∀ name, ∃ D' T, i.Obeys D' T ∧ D.Opens D' (.native name)

namespace Run

variable {e : Engine} {i : Interp}

/-- A call of a function that exists. Its defaults and its body may keep to a discipline of their
own. -/
theorem allows_callDefinedOf {id : FunctionId} {f : Function} (hfound : e.function? id = some f)
    (hopens : D.Opens D' (.defined f.displayName))
    (hdefaults : ∀ name x, f.defaults.find? name = some x → ∀ c, Keeps D' (i.eval c x))
    (hleaves : D'.minded → i.LeavesFilling)
    (hbody : ∀ frame e₁ e₂, D.fresh frame → D.leads e e₁ →
      (∃ own, e₁.frame? frame = some own ∧ own.closure = f.closure) →
      D'.leads (e₁.enter (.defined f.displayName)) e₂ →
      Allows D' e₂ (block i.exec ⟨f.script, some frame⟩ f.definition.body)
        fun signal _ => D'.placed → signal.Fits .function)
    (arguments : List Ref) (receiver : Option Ref) :
    Allows D e (callDefined i id arguments receiver) fun _ _ => True := by
  refine .of_holds fun he _ => ?_
  have hwellFormed : D'.strict → f.WellFormed :=
    fun h => D.wellFormed (D.function he hfound) (hopens.strict h)
  unfold callDefined
  refine .get_bind ?_
  rw [hfound]
  refine (allows_checkCall arguments.length receiver.isSome f.displayName).bind
    fun _ e₁ _ hchecked => ?_
  obtain ⟨rfl, hcount, hroom⟩ := hchecked
  refine (allows_newFrame hfound receiver hroom).bind fun frame e₂ hstart hframe => ?_
  obtain ⟨hroom, hfresh, hnew, hown⟩ := hframe
  have : D'.Fresh frame := ⟨hopens.fresh hfresh⟩
  have hinner : Allows D' (e₂.enter (.defined f.displayName)) (do
      bindArguments i.eval f frame arguments
      modify (·.noteCall frame)
      block i.exec ⟨f.script, some frame⟩ f.definition.body)
      fun signal _ => D.placed → signal.Fits .function := by
    have hbind := allows_bindArguments frame hdefaults hleaves hwellFormed hcount
      (hnew.enter hopens)
    refine hbind.bind fun _ e₃ hbound hfilling => ?_
    have hnote : Allows D' e₃ (modify (·.noteCall frame)) fun _ e₄ => D'.leads e₃ e₄ := by
      intro he₃ _
      have hcalled : D'.leads e₃ (e₃.noteCall frame) :=
        D'.edit he₃ (.called frame (hopens.fresh hfresh) hfilling)
      exact ⟨hcalled, hcalled⟩
    refine hnote.bind fun _ e₄ _ hcalled => ?_
    have hblock := hbody frame e₂ e₄ hfresh hstart hown (D'.trans hbound hcalled)
    exact hblock.mono fun _ _ _ hsignal hplaced => hsignal (hopens.placed hplaced)
  refine (allows_within hopens hroom hinner).bind fun signal e₃ _ hsignal => ?_
  exact (keeps_resultOf hsignal).allows e₃

theorem allows_callDefined (hi : i.ServesDefined D) {id : FunctionId} (arguments : List Ref)
    (receiver : Option Ref) (hid : D.strict → id.index < e.functions.size) :
    Allows D e (callDefined i id arguments receiver) fun _ _ => True := by
  refine .of_holds fun he _ => ?_
  cases hfound : e.function? id with
  | none =>
    unfold callDefined
    refine .get_bind ?_
    rw [hfound]
    refine Since.throw (D.admits_internal nofun fun hstrict => ?_)
    exact absurd (hid hstrict) (by simpa [Engine.function?] using hfound)
  | some f =>
    obtain ⟨D', T, hobeys, hopens, hcallable, hleaves⟩ :=
      hi f.displayName f (D.function he hfound)
    refine allows_callDefinedOf hfound hopens
      (fun name x hx c => hobeys.eval c x (hcallable.defaults name x hx)) hleaves
      (fun frame _ e₂ _ _ _ _ => ?_) arguments receiver
    exact allows_block hobeys hcallable.body (fun _ _ => rfl) e₂

theorem allows_callNative {name : String} (hopens : D.Opens D' (.native name)) {arity : Arity}
    {count : Nat} {body : Run Ref}
    (hbody : arity.Accepts count → Allows D' (e.enter (.native name)) body fun _ _ => True) :
    Allows D e (callNative name arity count body) fun _ _ => True := by
  unfold callNative
  refine (Library.allows_checkCount e name arity count).bind fun _ e' _ hchecked => ?_
  obtain ⟨rfl, haccepts⟩ := hchecked
  exact allows_within hopens trivial (hbody haccepts)

/-- A call of a function that exists, which is none of the host if failures matter. -/
theorem allows_callHandler (hhost : D.strict → host.functions = []) (c : Context) {h : Handler}
    (hdefined : ∀ id name, h = .defined id name → i.ServesDefined D)
    (hnative : (∀ id name, h ≠ .defined id name) → i.ServesNative D)
    (arguments : List Ref) (hmeets : h.Meets D.toDemands e arguments)
    (receiver : Option Ref) (hh : D.strict → h.Known host e) :
    Allows D e (callHandler host i c h arguments receiver) fun _ _ => True := by
  unfold callHandler
  cases h with
  | defined id name => exact allows_callDefined (hdefined id name rfl) arguments receiver hh
  | builtin b =>
    obtain ⟨D', T, hobeys, hopens⟩ := hnative nofun b.name
    have henv : NativeEnv.CallsKeep ⟨host, c, i.call c⟩ D' := fun e' h' arguments receiver hh' =>
      hobeys.call e' c h' arguments receiver hh'
    exact allows_callNative hopens fun haccepts =>
      Library.allows_runBuiltin henv (hmeets.opens hopens) haccepts
  | host name =>
    dsimp only
    cases hfound : host.function? name with
    | some f =>
      have hlenient : ¬D.strict := fun hstrict => by
        simp [Host.function?, hhost hstrict] at hfound
      obtain ⟨D', T, hobeys, hopens⟩ := hnative nofun f.name
      refine allows_callNative hopens fun _ => ?_
      have hlenient' : ¬D'.strict := fun hstrict => hlenient (hopens.strict hstrict)
      exact (@Library.keeps_runHosted ⟨host, c, i.call c⟩ D' hlenient' f arguments).allows _
    | none =>
      refine Since.throw (D.admits_internal nofun fun hstrict => ?_)
      exact absurd (hh hstrict) (by simp [Handler.Known, hfound])

end Run

end VimL
