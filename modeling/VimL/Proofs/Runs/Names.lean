import VimL.Interp
import VimL.Proofs.Runs.Values

/-!
# Runs on names

Options, registers and the environment, variables, and the tables of functions. A handler that is
found under a name may be called: it is that of a function that exists, and that is not taken out.
-/

namespace VimL

variable {host : Host} {D : Discipline host}

/-! ## The surroundings -/

namespace Run

instance (scope : Option Scope) (name : String) : Keeps D (option scope name) := by
  unfold option
  refine .bind fun e => ?_
  cases e.options.find? scope name <;> infer_instance

/-- The new value has the kind that the option asks for. -/
theorem allows_keepOption {e : Engine} (scope : Option Scope) {name : String} {current : Ref}
    (hcurrent : e.options.globals.find? name = some current) {v : Value} (hv : v.parts = [])
    (hkind : v.kind = (e.heap.value current).optionKind) :
    Allows D e (do
      let kept ← new v
      modify fun e => { e with options := e.options.set scope name kept }) fun _ _ => True := by
  have hplain : ∀ f, v ≠ .funcref f := by
    rintro f rfl
    cases hold : e.heap.value current <;> rw [hold] at hkind <;> cases hkind
  have hmade : Allows D e (new v) fun r e' =>
      e' = e.withHeap (e.heap.new v).2 ∧ r = (e.heap.new v).1 := by
    intro he hleads
    have hnew : Since D e e (new v) fun _ _ => True :=
      (Since.new (fun _ f hf => absurd hf (hplain f)) fun _ => hv ▸ .refl e).mono
        fun _ _ _ _ => trivial
    exact ⟨(hnew he hleads).1, rfl, rfl⟩
  refine hmade.bind fun r e' _ hboth => ?_
  obtain ⟨rfl, rfl⟩ := hboth
  have hself : (e.heap.new v).2.value (e.heap.new v).1 = v := e.heap.value_new_self v
  refine .edit rfl (.option scope name hcurrent ?_ ?_) trivial
  · exact (Nat.lt_succ_self _).trans_eq (e.heap.size_new v).symm
  · by_cases heq : current = (e.heap.new v).1
    · subst heq
      exact (congrArg Value.kind hself).trans
        ((Value.optionKind_of_kind_eq hkind).symm.trans (congrArg Value.optionKind hself.symm))
    · exact (congrArg Value.kind hself).trans
        (hkind.trans (congrArg Value.optionKind (e.heap.value_new_of_ne v heq).symm))

instance (scope : Option Scope) (name : String) (r : Ref) :
    Keeps D (setOption scope name r) := by
  refine ⟨fun e => ?_⟩
  unfold setOption
  refine .get_bind ?_
  cases hcurrent : e.options.globals.find? name with
  | none => exact .raise
  | some current =>
    refine .value_bind ?_
    cases hvalue : e.heap.value current with
    | number =>
      exact .reads_bind fun m => allows_keepOption scope hcurrent rfl (by rw [hvalue]; rfl)
    | _ => exact .reads_bind fun s => allows_keepOption scope hcurrent rfl (by rw [hvalue]; rfl)

instance : Keeps D ignoresCase := by
  unfold ignoresCase
  refine .bind fun e => ?_
  cases e.config.ignoreCaseOption.bind (e.options.find? none) <;> infer_instance

instance (name : String) : Keeps D (register? name) := by unfold register?; infer_instance

instance (name : String) : Keeps D (register name) := by unfold register; infer_instance

theorem keeps_setRegister {name : String} (hname : D.lettered → isRegisterName name = true)
    (text : String) : Keeps D (setRegister name text) :=
  keeps_modify fun _ => .register name text hname

instance (name : String) : Keeps D (variableOfEnvironment? name) := by
  unfold variableOfEnvironment?
  infer_instance

instance (name text : String) : Keeps D (setEnvironment name text) := by
  unfold setEnvironment
  split
  · exact keeps_modify fun _ => .environment _
  · rename_i hrefused
    exact keeps_internal nofun fun _ => .inl (.refusedVariable (by simpa using hrefused))

instance (name : String) : Keeps D (unsetEnvironment name) :=
  keeps_modify fun _ => .environment _

end Run

/-! ## Variables -/

instance (c : Context) (scope : Scope) (name : String) (writing : Bool) :
    Except.Admitted D (c.place scope name writing) := by
  unfold Context.place
  cases scope with
  | script => cases c.script <;> infer_instance
  | locals | arguments => cases c.frame <;> infer_instance
  | _ => infer_instance

namespace Engine

variable (e : Engine) (c : Context)

instance (scope : Option Scope) (name : String) : Except.Admitted D (e.placeOf? c scope name) := by
  unfold placeOf?
  infer_instance

instance (scope : Option Scope) (name : String) : Except.Admitted D (e.resolve c scope name) := by
  unfold resolve
  infer_instance

instance (v : Variable) : Except.Admitted D (e.checkWritable c v) := by
  unfold checkWritable
  cases h : e.resolve c v.scope v.name with
  | error stop =>
    have : Except.Admitted D (.error stop : Except Stop Unit) := .of_eq h
    infer_instance
  | ok found => cases found <;> infer_instance

instance (v : Variable) : Except.Admitted D (e.writePlace c v) := by
  unfold writePlace
  dsimp only
  split <;> infer_instance

end Engine

namespace Run

instance (c : Context) (scope : Option Scope) (name : String) :
    Keeps D (resolve c scope name) := by
  unfold resolve
  infer_instance

instance (c : Context) (v : Variable) : Keeps D (lookup c v) := by
  unfold lookup
  refine .bind fun r => ?_
  cases r <;> infer_instance

/-- What is checked before is what a variable has to be to be bound anew. -/
instance (c : Context) [hc : D.Runs c] (v : Variable) (r : Ref) : Keeps D (store c v r) := by
  refine ⟨fun e => ?_⟩
  unfold store
  refine .get_bind (.settle_bind fun _ hwritable => ?_)
  dsimp only
  split
  · exact .raise_bind
  · refine .settle_bind fun p hplace => (allows_stored e r).bind fun s e₁ _ ⟨he₁, hs, _⟩ => ?_
    subst he₁
    have hin : (e.withHeap (e.heap.stored r).2).InScope c p :=
      (Engine.inScope_of_writePlace hplace).mono fun _ f hf => ⟨f, hf, rfl⟩
    have hp := Engine.isWritable_of_checkWritable hwritable hplace
    have hself := Engine.inDictFunction_of_checkWritable hwritable hplace
    refine .edit rfl (.bind p hp v.name s hs (fun other hguards => ?_) hc.runs hin hself) trivial
    exact Engine.not_guards_of_checkWritable hwritable hplace hguards.of_stored

instance (c : Context) [hc : D.Runs c] (v : Variable) : Keeps D (unbind c v) := by
  refine ⟨fun e => ?_⟩
  unfold unbind
  by_cases hrefused : v.scope = some .arguments ∨ v.scope = some .vim
  · rw [if_pos hrefused]
    exact .raise_bind
  rw [if_neg hrefused]
  refine .pure_bind (.settle_bind fun p hplace => .get_bind ?_)
  have hscope := Context.scope_of_place hplace
  cases hbound : (e.tableAt p).find? v.name with
  | none => exact .raise
  | some r =>
    dsimp only
    split
    · exact .raise_bind
    · rename_i hlocked
      have hin := Engine.inScope_of_place (e := e) hplace
      have hp := Context.isWritable_of_scope hscope hrefused
      refine .pure_bind
        (Allows.edit rfl (.unbind p hp v.name (fun other hguards => ?_) hc.runs hin ?_) trivial)
      · obtain rfl := Option.some.inj (hguards.bound.symm.trans hbound)
        exact hlocked (hguards.isLockedAs hscope)
      · rintro id rfl
        exact Context.frame_of_place hplace

end Run

/-! ## Functions -/

theorem Host.mayCall_of_native? {e : Engine} {name : String} {h : Handler}
    (hnative : host.native? name = some h) : D.MayCall h e := by
  unfold Host.native? at hnative
  cases hf : host.function? name with
  | some f =>
    simp only [hf, Option.some.injEq] at hnative
    have hname : f.name = name := by simpa using List.find?_some hf
    subst hnative
    exact ⟨fun _ => by simp [Handler.Known, hname, hf], fun _ => trivial⟩
  | none =>
    simp only [hf, Option.map_eq_some_iff] at hnative
    obtain ⟨b, -, rfl⟩ := hnative
    exact ⟨fun _ => trivial, fun _ => trivial⟩

theorem Engine.Sound.known_handlerOf {e : Engine} (he : e.Sound host) {c : Context}
    {scope : Option Scope} {name : String} {id : FunctionId}
    (h : e.definedFunction? c scope name = .ok (some id)) : (e.handlerOf id).Known host e := by
  obtain ⟨table, -, -, hlisted⟩ := exists_listed h
  exact he.tables table name id hlisted

instance (e : Engine) (c : Context) (scope : Option Scope) (name : String) :
    Except.Admitted D (e.definedFunction? c scope name) := by
  unfold Engine.definedFunction?
  cases scope with
  | none => cases e.globalFunctions.find? name <;> infer_instance
  | some scope =>
    cases scope with
    | script => cases c.script <;> infer_instance
    | _ => infer_instance

namespace Function

variable (name : String) (scope : Scope) (definition : Procedure Stmt) (c : Context)

instance (script : Option ScriptId) (closure : Option FrameId) :
    Except.Admitted D (Function.make name scope definition script closure) := by
  unfold Function.make
  dsimp only
  cases misplacedParameter? (.ofList definition.defaults) false definition.parameters <;>
    infer_instance

instance : Except.Admitted D (Function.checkName scope name) := by
  unfold Function.checkName
  infer_instance

instance : Except.Admitted D (Function.table scope name c) := by
  unfold Function.table
  cases c.script <;> infer_instance

variable {name scope definition c} in
/-- A closure is one over the frame of the context that it is defined in. -/
theorem closesOver_of_make {runs : Context → Prop} {closes : Bool} {f : Function}
    (hf : make name scope definition c.script (if closes then c.frame else none) = .ok f)
    (hc : runs c) : f.ClosesOver runs := by
  right
  intro k hk
  have hclosure : (if closes then c.frame else none) = some k :=
    (declared_of_make hf).2.2.2.1.symm.trans hk
  refine ⟨c, hc, ?_⟩
  split at hclosure
  · exact hclosure
  · cases hclosure

end Function

namespace Run

variable (e : Engine) (c : Context) (scope : Option Scope) (name : String)

theorem allows_handler? : Allows D e (handler? host.native? c scope name)
    fun found e' => ∀ h, found = some h → D.MayCall h e' := by
  refine .of_holds fun he _ => ?_
  unfold handler?
  cases hnative : (if scope.isNone then host.native? name else none) with
  | some h =>
    refine .pure fun found hfound => ?_
    obtain rfl := Option.some.inj hfound
    split at hnative
    · exact Host.mayCall_of_native? hnative
    · cases hnative
  | none =>
    refine .get_bind (.settle_bind fun found hfound => ?_)
    cases found with
    | none => exact .pure nofun
    | some id =>
      refine .pure fun h hh => ?_
      obtain rfl := Option.some.inj hh
      exact ⟨fun hstrict => (D.sound he hstrict).known_handlerOf hfound,
        fun hlisted => (D.registry he hlisted).alive_handlerOf hfound⟩

theorem allows_handler : Allows D e (handler host.native? c scope name)
    fun h e' => D.MayCall h e' := by
  unfold handler
  refine (allows_handler? e c scope name).bind fun found e' _ hfound => ?_
  cases found with
  | some h => exact .pure (hfound h rfl)
  | none => exact .raise

/-- A new function is known under its number. -/
theorem allows_newFunction {f : Function} (hf : D.fits f) (hnew : f.deleted = false)
    (hcloses : f.ClosesOver D.runs) : Allows D e (newFunction f)
      fun id e' => id.index < e'.functions.size ∧ e'.function? id = some f := by
  refine .edit rfl (.define f hf hnew hcloses) ?_
  simp [Engine.function?]

variable {definition : Procedure Stmt} [hc : D.Runs c]

theorem keeps_defineFunction (hfits : ∀ {name scope script closure f},
    Function.make name scope definition script closure = .ok f → D.fits f) :
    Keeps D (defineFunction c scope name definition) := by
  unfold defineFunction
  dsimp only
  split
  · infer_instance
  · refine ⟨fun e => ?_⟩
    refine .settle_bind fun f hf => .settle_bind fun _ hname => .settle_bind fun table htable => ?_
    obtain ⟨hbelongs, hin⟩ := Function.belongsIn_of_make hf hname htable
    refine .get_bind ?_
    split
    · exact .raise_bind
    · have hcloses := Function.closesOver_of_make hf hc.runs
      exact Allows.edit rfl (.declare table name f (hfits hf) hc.runs hin hbelongs hcloses) trivial

theorem allows_deleteFunction {force : Bool}
    (hbegan : .began c (.deleteFunction scope name force) ∈ e.history) :
    Allows D e (deleteFunction c scope name force) fun _ _ => True := by
  unfold deleteFunction
  dsimp only
  split
  · exact .raise_bind
  split
  · exact .raise_bind
  refine .get_bind (.settle_bind fun found hfound => ?_)
  cases found with
  | none =>
    dsimp only
    split
    · exact .pure trivial
    · exact .raise
  | some id =>
    dsimp only
    cases hf : e.function? id with
    | some f =>
      exact Allows.edit rfl (.withdraw (homeOf f) name id hc.runs hbegan hfound hf rfl) trivial
    | none =>
      have hsame : D.leads e { e with
          functions := e.functions.modify id.index fun f => { f with deleted := true } } :=
        (Engine.retire_of_none hf).symm ▸ D.refl e
      exact fun _ _ => ⟨hsame, trivial⟩

end Run

end VimL
