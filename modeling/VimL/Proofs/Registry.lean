import VimL.Proofs.Declarations
import VimL.Proofs.Invariants

/-!
# The registry of functions

In the course of runs, tables list only functions that belong there under their names. So a function
that is called by name was not deleted. A function is marked only when it is deleted by a statement
that means it; one that has left its table in another way stays as it is, since nothing lists it
again. References to it go on working.
-/

namespace VimL

@[reducible] def Demands.registering : Demands where
  strict := False
  named := False
  listed := True
  minded := False
  lettered := False
  sparing := False
  fits _ := True
  runs _ := True
  fresh _ := True

namespace Engine

/-- What a run does to functions. Those that there are stay as they are but for a mark, which they
get only if a statement to delete them has begun. A function that no table lists is not listed
again, and it is not marked any more. -/
structure KeepsFunctions (e e' : Engine) : Prop where
  registered : e.Registered → e'.Registered
  kept : ∀ id f, e.function? id = some f →
    e'.function? id = some f ∨ e'.function? id = some { f with deleted := true }
  meant : ∀ id f, e'.function? id = some f → f.deleted = true →
    (∃ g, e.function? id = some g ∧ g.deleted = true) ∨ e'.Saw f.IsMeantBy
  unlisted : ∀ id, e.Unlisted id → e'.Unlisted id ∧ e'.function? id = e.function? id

variable {e e' e'' : Engine}

namespace KeepsFunctions

theorem of_eq (hfunctions : e'.functions = e.functions)
    (htables : e'.functionsAt = e.functionsAt) : e.KeepsFunctions e' := by
  have hsame (id : FunctionId) : e'.function? id = e.function? id := by
    simp only [function?, hfunctions]
  refine ⟨fun he => he.of_eq hfunctions htables, fun id f hf => .inl ((hsame id).trans hf),
    fun id f hf hmarked => .inl ⟨f, (hsame id).symm.trans hf, hmarked⟩,
    fun id hid => ⟨?_, hsame id⟩⟩
  exact ⟨hfunctions ▸ hid.lt_size, htables ▸ hid.find?_ne⟩

/-- Whether a function is marked makes no difference to which statements mean it. -/
theorem isMeantBy_of_kept (h : e.KeepsFunctions e') {id : FunctionId} {f f' : Function}
    (hf : e.function? id = some f) (hf' : e'.function? id = some f') :
    f'.IsMeantBy = f.IsMeantBy := by
  rcases h.kept id f hf with hsame | hmarked
  · obtain rfl := Option.some.inj (hsame.symm.trans hf')
    rfl
  · obtain rfl := Option.some.inj (hmarked.symm.trans hf')
    rfl

theorem trans (h : e.KeepsFunctions e') (h' : e'.KeepsFunctions e'')
    (hhistory : e'.history <:+ e''.history) : e.KeepsFunctions e'' := by
  refine ⟨fun he => h'.registered (h.registered he), fun id f hf => ?_, fun id f hf hmarked => ?_,
    fun id hid => ?_⟩
  · rcases h.kept id f hf with hsame | hmarked
    · exact h'.kept id f hsame
    · exact .inr ((h'.kept id _ hmarked).elim (fun h => h) fun h => h)
  · rcases h'.meant id f hf hmarked with ⟨g, hg, hbefore⟩ | hmeant
    · refine (h.meant id g hg hbefore).imp_right fun hmeant => ?_
      rw [h'.isMeantBy_of_kept hg hf]
      exact hmeant.mono hhistory
    · exact .inr hmeant
  · obtain ⟨hid', hsame⟩ := h.unlisted id hid
    obtain ⟨hid'', hsame'⟩ := h'.unlisted id hid'
    exact ⟨hid'', hsame'.trans hsame⟩

theorem define (e : Engine) {f : Function} (hnew : f.deleted = false) :
    e.KeepsFunctions { e with functions := e.functions.push f } := by
  refine ⟨fun he => ListsOnly.define he f, fun id g hg => .inl ?_, fun id g hg hmarked => .inl ?_,
    fun id hid => ⟨⟨?_, hid.find?_ne⟩, function?_define_of_lt f hid.lt_size⟩⟩
  · exact (function?_define_of_lt f (lt_size_of_function? hg)).trans hg
  · rw [function?_define] at hg
    split at hg
    · cases hg
      simp [hnew] at hmarked
    · exact ⟨g, hg, hmarked⟩
  · exact Nat.lt_of_lt_of_le hid.lt_size (by simp)

/-- What is listed anew is a new function. -/
theorem declare (e : Engine) {table : FunctionTable} {name : String} {f : Function}
    (hf : f.BelongsIn table name) : e.KeepsFunctions (e.declare table name f) := by
  have hdefine : e.KeepsFunctions { e with functions := e.functions.push f } :=
    .define e hf.alive
  have hfunctions (id : FunctionId) := function?_declare e table name f id
  have hhistory : (e.declare table name f).history = e.history := by cases table <;> rfl
  refine ⟨fun he => Registered.declare he hf, fun id g hg => ?_, fun id g hg hmarked => ?_,
    fun id hid => ⟨⟨?_, fun other name' hlisted => ?_⟩, ?_⟩⟩
  · rw [hfunctions]
    exact hdefine.kept id g hg
  · rw [hfunctions] at hg
    refine (hdefine.meant id g hg hmarked).imp_right fun hmeant => ?_
    unfold Saw at hmeant ⊢
    rwa [hhistory]
  · rw [Engine.declare, changeFunctions_functions]
    exact (hdefine.unlisted id hid).1.lt_size
  · rcases eq_of_listed_declare hlisted with hnew | hbefore
    · exact absurd hnew (Nat.ne_of_lt hid.lt_size)
    · exact hid.find?_ne other name' hbefore
  · rw [hfunctions]
    exact (hdefine.unlisted id hid).2

/-- What is marked was listed before, and it was meant. -/
theorem withdraw {table : FunctionTable} {name : String} {id : FunctionId} {f : Function}
    {event : Event} (hlisted : (e.functionsAt table).find? name = some id)
    (hf : e.function? id = some f) (hin : event ∈ e.history) (hmeant : f.IsMeantBy event) :
    e.KeepsFunctions (e.withdraw table name id) := by
  have hout : e.TakesOut table name id (e.withdraw table name id) := takesOut_withdraw hlisted
  have hgrows : e.Grows (e.withdraw table name id) := by
    refine (grows_retire e id).trans ?_
    cases table <;> exact .of_eq rfl rfl rfl
  refine ⟨fun he => he.withdraw hlisted, fun other g hg => ?_, fun other g hg hmarked => ?_,
    fun other hother => ?_⟩
  · by_cases heq : other = id
    · subst heq
      exact .inr (hout.marked g hg)
    · exact .inl ((hout.others other heq).trans hg)
  · by_cases heq : other = id
    · subst heq
      obtain rfl := Option.some.inj ((hout.marked f hf).symm.trans hg)
      exact .inr (Saw.mono ⟨event, hin, .here hmeant⟩ hgrows.history)
    · exact .inl ⟨g, (hout.others other heq).symm.trans hg, hmarked⟩
  · have hne : other ≠ id := by
      rintro rfl
      exact hother.find?_ne table name hlisted
    refine ⟨⟨Nat.lt_of_lt_of_le hother.lt_size hgrows.functions, fun table' name' hstill => ?_⟩,
      hout.others other hne⟩
    rw [hout.entries] at hstill
    split at hstill
    · cases hstill
    · exact hother.find?_ne table' name' hstill

theorem of_edit {d : Demands} (he : e.Registered) (h : e.Edit d e') : e.KeepsFunctions e' := by
  cases h with
  | define f _ hnew => exact define e hnew
  | declare table name f _ _ _ hbelongs => exact declare e hbelongs
  | withdraw table name id _ hbegan hfound hf hhome =>
    obtain ⟨g, hg, hbelongs, hlisted, hin, hscope⟩ := he.exists_found hfound
    obtain rfl := Option.some.inj (hf.symm.trans hg)
    exact withdraw (hhome ▸ hlisted) hf hbegan ⟨hbelongs.name_eq, hin, hscope⟩
  | bind p | unbind p =>
    exact .of_eq (changeTable_functions e _ p) (funext (functionsAt_changeTable e _ p))
  | _ => exact .of_eq rfl rfl

end KeepsFunctions

/-- A run that starts in the first engine leads to the other one. -/
structure LeadsFunctions (e e' : Engine) : Prop where
  grows : e.Grows e'
  keeps : e.KeepsFunctions e'

namespace LeadsFunctions

theorem of_eq (hgrows : e.Grows e') (hfunctions : e'.functions = e.functions)
    (htables : e'.functionsAt = e.functionsAt) : e.LeadsFunctions e' :=
  ⟨hgrows, .of_eq hfunctions htables⟩

theorem trans (h : e.LeadsFunctions e') (h' : e'.LeadsFunctions e'') : e.LeadsFunctions e'' :=
  ⟨h.grows.trans h'.grows, h.keeps.trans h'.keeps h'.grows.history⟩

theorem leave {entry : CallEntry} (h : (e.enter entry).LeadsFunctions e') :
    e.LeadsFunctions (e.leave e') := by
  have henter : e.LeadsFunctions (e.enter entry) := by
    cases entry <;> exact .of_eq (.of_eq rfl rfl rfl) rfl rfl
  exact henter.trans (h.trans (.of_eq (.of_eq rfl rfl rfl) rfl rfl))

theorem restoreVim {err : ScriptError} {exception throwpoint : Ref}
    (h : (e.catching err exception throwpoint).LeadsFunctions e') :
    e.LeadsFunctions (e.restoreVim e') := by
  have hshow : e.LeadsFunctions (e.catching err exception throwpoint) :=
    .of_eq (.of_eq rfl rfl rfl) rfl rfl
  exact hshow.trans (h.trans (.of_eq (.of_eq rfl rfl rfl) rfl rfl))

/-- What a final block deletes is meant by a statement in the history of the block. -/
theorem leaveFinal {event : Event} (htry : (e.record event).LeadsFunctions e')
    (hfinal : e'.enterFinal.LeadsFunctions e'') (c : Context) (body : List Stmt) :
    e.LeadsFunctions (e'.leaveFinal c body e'') := by
  have hbegan : e.LeadsFunctions (e.record event) := .of_eq (grows_record e event) rfl rfl
  have hkeeps : e'.KeepsFunctions (e'.leaveFinal c body e'') := by
    refine ⟨fun he => (hfinal.keeps.registered (he.of_eq rfl rfl)).of_eq rfl rfl,
      hfinal.keeps.kept, fun id f hf hmarked => ?_, fun id hid => ?_⟩
    · refine (hfinal.keeps.meant id f hf hmarked).imp_right fun hmeant => ?_
      exact (saw_leaveFinal_iff (fun _ _ _ h => h) c body).2 (.inl hmeant)
    · obtain ⟨hid', hsame⟩ := hfinal.keeps.unlisted id ⟨hid.lt_size, hid.find?_ne⟩
      exact ⟨⟨hid'.lt_size, hid'.find?_ne⟩, hsame⟩
  exact hbegan.trans (htry.trans ⟨hfinal.grows.leaveFinal c body, hkeeps⟩)

end LeadsFunctions

end Engine

/-! ## The discipline -/

namespace Discipline

def registering (host : Host) : Discipline host where
  toDemands := .registering
  placed := False
  linear := False
  holds := Engine.Registered
  leads := Engine.LeadsFunctions
  admits stop := stop ≠ .alarm
  sound _ := False.elim
  wellFormed _ := False.elim
  function _ _ := trivial
  unnamed _ := False.elim
  unentered _ := False.elim
  newFrame _ := trivial
  registry he _ := he
  refl e := .of_eq (.refl e) rfl rfl
  trans h h' := h.trans h'
  holds_of_leads he h := h.keeps.registered he
  grows h := h.grows
  affords _ := False.elim
  edit he h := ⟨h.grows, .of_edit he h⟩
  create _ h _ _ := h.trans (.of_eq (.of_eq rfl rfl rfl) rfl rfl)
  write _ h _ _ _ := h.trans (.of_eq (.of_eq rfl rfl rfl) rfl rfl)
  began _ _ _ _ := .of_eq (Engine.grows_record _ _) rfl rfl
  cancelled _ := .of_eq (Engine.grows_requestCancel _) rfl rfl
  holds_catching he _ := he.of_eq rfl rfl
  caught _ h := h.restoreVim
  holds_enterFinal he := he.of_eq rfl rfl
  final _ _ htry hfinal := htry.leaveFinal hfinal _ _
  admits_error _ _ := Stop.error_ne_alarm _
  admits_mark h := Stop.mark_ne_alarm h
  admits_finished := Stop.finished_ne_alarm
  admits_internal hf _ := Stop.internal_ne_alarm hf

variable {host : Host}

theorem uniform_registering : (registering host).Uniform .any :=
  uniform_any id id (fun _ => trivial) (fun _ => trivial)
    (fun entry => .same (fun he => by cases entry <;> exact he.of_eq rfl rfl) fun h => h.leave)
    Stop.exhausted_ne_alarm (fun _ => Stop.error_ne_alarm _) id id False.elim

theorem obeys_registering (host : Host) (fuel : Nat) :
    (Interp.ofFuel host fuel).Obeys (registering host) .any :=
  Interp.obeys_ofFuel uniform_registering False.elim fuel

end Discipline

/-! ## Functions that are called -/

variable {host : Host} {e e' : Engine} {c : Context} {scope : Option Scope} {name : String}

/-- The function of a name. Without a prefix, it is first the name of a native function. -/
def Engine.handlerNamed? (e : Engine) (natives : String → Option Handler) (c : Context)
    (scope : Option Scope) (name : String) : Except Stop (Option Handler) :=
  match if scope.isNone then natives name else none with
  | some h => .ok (some h)
  | none =>
    match e.definedFunction? c scope name with
    | .ok found => .ok (found.map e.handlerOf)
    | .error stop => .error stop

namespace Run

theorem handler?_eq (natives : String → Option Handler) (c : Context) (scope : Option Scope)
    (name : String) (e : Engine) :
    handler? natives c scope name e = settle (e.handlerNamed? natives c scope name) e := by
  unfold handler? Engine.handlerNamed?
  cases (if scope.isNone then natives name else none) with
  | some h => rfl
  | none =>
    dsimp only
    rw [bind_of_ok (get_eq e)]
    cases e.definedFunction? c scope name with
    | error stop => rfl
    | ok found => cases found <;> rfl

theorem alive_of_handler? (he : e.Registered) {h : Handler}
    (hfound : handler? host.native? c scope name e = .ok (some h) e') : e' = e ∧ h.Alive e := by
  rw [handler?_eq] at hfound
  obtain ⟨hnamed, rfl⟩ := of_settle_ok hfound
  refine ⟨rfl, ?_⟩
  unfold Engine.handlerNamed? at hnamed
  split at hnamed
  · rename_i native hnative
    cases hnamed
    split at hnative
    · exact (Host.mayCall_of_native? (D := .registering host) hnative).alive trivial
    · cases hnative
  · split at hnamed
    · rename_i found hlookup
      obtain ⟨id, rfl, rfl⟩ := Option.map_eq_some_iff.1 (Except.ok.inj hnamed)
      exact he.alive_handlerOf hlookup
    · cases hnamed

theorem checkAlive_of_alive {h : Handler} (hh : h.Alive e) : checkAlive h e = .ok () e := by
  cases h with
  | defined id name =>
    have hkept : ¬(e.function? id).any (·.deleted) = true := by
      intro hany
      obtain ⟨f, hf, hmarked⟩ := (Option.any_eq_true _ _).1 hany
      simp [hh f hf] at hmarked
    unfold checkAlive
    dsimp only
    rw [bind_of_ok (get_eq e), if_neg hkept]
    rfl
  | builtin | host => rfl

theorem checkAlive_of_deleted {h : Handler} (hh : ¬h.Alive e) : ∃ id name,
    h = .defined id name ∧ checkAlive h e = .error (.ofCause (.deletedFunction name)) e := by
  cases h with
  | defined id name =>
    have hmarked : (e.function? id).any (·.deleted) = true := by
      by_contra hnone
      refine hh fun f hf => ?_
      simpa [hf] using hnone
    refine ⟨id, name, rfl, ?_⟩
    unfold checkAlive
    dsimp only
    rw [bind_of_ok (get_eq e), if_pos hmarked]
    rfl
  | builtin | host => exact absurd trivial hh

variable (call : Handler → List Ref → Option Ref → Run Ref) {f : Funcref} (arguments : List Ref)
  (receiver : Option Ref)

theorem callFuncref_of_alive (hf : f.handler.Alive e) :
    callFuncref call f arguments receiver e =
      call f.handler (f.arguments ++ arguments) (f.receiver.or receiver) e :=
  bind_of_ok (checkAlive_of_alive hf)

theorem callFuncref_of_deleted (hf : ¬f.handler.Alive e) : ∃ id name,
    f.handler = .defined id name ∧
      callFuncref call f arguments receiver e = .error (.ofCause (.deletedFunction name)) e := by
  obtain ⟨id, name, hhandler, hfails⟩ := checkAlive_of_deleted hf
  exact ⟨id, name, hhandler, bind_of_error hfails⟩

end Run

/-! ## What the registry governs -/

namespace Engine

variable (host e) in
/-- What fails changes nothing. A declaration lists a new function, and it replaces one only if it
may. A deletion takes one function out and marks it. What is called by name was not deleted, and a
call of a reference asks for nothing else. -/
structure GovernsFunctions : Prop where
  declareFails : ∀ i c scope name definition stop e',
    Run.execute i c (.function scope name definition) e = .error stop e' → e' = e
  declares : ∀ i c scope name definition signal e',
    Run.execute i c (.function scope name definition) e = .ok signal e' →
      ∃ f table, f.BelongsIn table name ∧ c.Declares table ∧
        ((e.functionsAt table).contains name = true → definition.replaces = true) ∧
        e' = e.declare table name f ∧
        ∀ id, (e.functionsAt table).find? name = some id →
          e'.Unlisted id ∧ e'.function? id = e.function? id
  deleteFails : ∀ i c scope name force stop e',
    Run.execute i c (.deleteFunction scope name force) e = .error stop e' → e' = e
  deletes : ∀ i c scope name force signal e',
    Run.execute i c (.deleteFunction scope name force) e = .ok signal e' →
      (e.definedFunction? c scope name = .ok none ∧ force = true ∧ e' = e) ∨
        ∃ table id, e.definedFunction? c scope name = .ok (some id) ∧ c.Declares table ∧
          e.TakesOut table name id e'
  named : ∀ c scope name h e', Run.handler? host.native? c scope name e = .ok (some h) e' →
    e' = e ∧ h.Alive e
  referred : ∀ call (f : Funcref) arguments receiver, f.handler.Alive e →
    Run.callFuncref call f arguments receiver e =
      call f.handler (f.arguments ++ arguments) (f.receiver.or receiver) e
  deleted : ∀ call (f : Funcref) arguments receiver, ¬f.handler.Alive e →
    ∃ id name, f.handler = .defined id name ∧
      Run.callFuncref call f arguments receiver e = .error (.ofCause (.deletedFunction name)) e

theorem Registered.governsFunctions (host : Host) (he : e.Registered) :
    e.GovernsFunctions host where
  declareFails i c scope name definition stop e' h := by
    rcases Run.of_bind_error h with hdeclare | ⟨_, _, _, h⟩
    · exact Run.of_defineFunction_error hdeclare
    · cases h
  declares i c scope name definition signal e' h := by
    obtain ⟨_, _, hdeclare, h⟩ := Run.of_bind_ok h
    obtain ⟨f, table, hbelongs, hin, -, -, hfree, rfl⟩ := Run.of_defineFunction_ok hdeclare
    cases h
    exact ⟨f, table, hbelongs, hin, hfree, rfl, fun id hlisted => he.unlisted_of_declare f hlisted⟩
  deleteFails i c scope name force stop e' h := by
    rcases Run.of_bind_error h with hdelete | ⟨_, _, _, h⟩
    · exact Run.of_deleteFunction_error hdelete
    · cases h
  deletes i c scope name force signal e' h := by
    obtain ⟨_, _, hdelete, h⟩ := Run.of_bind_ok h
    cases h
    exact Run.of_deleteFunction_ok he hdelete
  named c scope name h e' hfound := Run.alive_of_handler? he hfound
  referred call f arguments receiver hf := Run.callFuncref_of_alive call arguments receiver hf
  deleted call f arguments receiver hf := Run.callFuncref_of_deleted call arguments receiver hf

end Engine

/-- If the step is a call, the function that it calls was not taken out by command. -/
def Task.CallsAlive (e : Engine) : Task → Prop
  | .call _ h _ _ => h.Alive e
  | _ => True

/-- Every run of a block keeps functions. -/
theorem Engine.Registered.keepsFunctions {fuel : Nat} {body : List Stmt}
    {ended : Except Stop Signal} (he : e.Registered)
    (h : (Run.block (Interp.ofFuel host fuel).exec c body).Ends e ended e') :
    e'.Registered ∧ e.KeepsFunctions e' := by
  have hbody : Trees.any.body .top body := fun _ _ => trivial
  have hblock := Run.allows_block (Discipline.obeys_registering host fuel) hbody (c := c)
    False.elim e
  have hleads : e.LeadsFunctions e' := (hblock he (Discipline.refl _ e)).reach_of_ends h
  exact ⟨hleads.keeps.registered he, hleads.keeps⟩

/-! ## Sessions -/

namespace Session

open Discipline

/-- What a host asks for keeps functions. -/
theorem keepsFunctions_perform (he : e.Registered) (host : Host) (fuel : Nat) (r : Request) :
    (r.perform (.ofFuel host fuel) e).2.Registered ∧
      (r.start e).KeepsFunctions (r.perform (.ofFuel host fuel) e).2 := by
  have hstart : (r.start e).Registered := Request.listsOnly_start he r
  obtain ⟨e₁, _, _, hleads, hended, -⟩ :=
    Request.leads_perform (obeys_registering host fuel) r.judged_any hstart
  rw [hended]
  refine ⟨(hleads.keeps.registered hstart).of_eq rfl rfl, ?_⟩
  exact hleads.keeps.trans (.of_eq rfl rfl) List.suffix_rfl

theorem Arrives.registered (h : Arrives host e) : e.Registered := by
  have hleads {e e' : Engine} (he : e.Registered) (h : (registering host).leads e e') :
      e'.Registered := h.keeps.registered he
  induction h with
  | start h =>
    exact holds_start (D := registering host) h (Engine.ListsOnly.blank _)
      fun _ _ _ _ _ he => he.of_eq rfl rfl
  | constant _ hnew ih => exact hleads ih (leads_newSharing id hnew ih)
  | newScript _ name ih => exact ih.newScript name
  | setVariable _ hset ih => exact hleads ih (leads_setVariable trivial hset ih)
  | cancel _ ih => exact ih.of_eq rfl rfl
  | perform _ fuel r ih => exact (keepsFunctions_perform ih host fuel r).1

/-- In every step of a run, tables list only functions that belong there, and what the step calls
was not deleted. -/
theorem perform_watching_registering (he : Arrives host e) (fuel : Nat) (r : Request)
    {hit : Task → Engine → Bool}
    (hhit : ∀ task e₁, e₁.Registered → task.CallsAlive e₁ → hit task e₁ = false) :
    r.perform (.watching host hit fuel) e = r.perform (.ofFuel host fuel) e := by
  have halarm : ¬(registering host).admits .alarm := fun h => h rfl
  refine Request.perform_watching uniform_registering False.elim halarm
    (fun task e₁ hjudged he₁ => hhit task e₁ he₁ ?_) fuel r.judged_any
    (Request.listsOnly_start he.registered r)
  cases task with
  | call c h arguments receiver => exact hjudged.alive trivial
  | eval | exec => trivial

/-- Whatever a session asks for, tables list only functions that belong there under their names,
between its runs and in every step of them, and no step calls a function that was deleted. In such
an engine, declarations, deletions and calls do what they are to do, and every run of a block keeps
functions. -/
theorem perform_governsFunctions (he : Arrives host e) (fuel : Nat) (r : Request) :
    e.Registered ∧ (r.perform (.ofFuel host fuel) e).2.Registered ∧
    (r.start e).KeepsFunctions (r.perform (.ofFuel host fuel) e).2 ∧
    (∀ hit : Task → Engine → Bool,
      (∀ task e₁, e₁.Registered → task.CallsAlive e₁ → hit task e₁ = false) →
        r.perform (.watching host hit fuel) e = r.perform (.ofFuel host fuel) e) ∧
    ∀ e₁ : Engine, e₁.Registered → e₁.GovernsFunctions host ∧ ∀ fuel c body ended e₂,
      (Run.block (Interp.ofFuel host fuel).exec c body).Ends e₁ ended e₂ →
        e₂.Registered ∧ e₁.KeepsFunctions e₂ := by
  obtain ⟨hended, hkeeps⟩ := keepsFunctions_perform he.registered host fuel r
  exact ⟨he.registered, hended, hkeeps, fun _ hhit => perform_watching_registering he fuel r hhit,
    fun e₁ he₁ => ⟨he₁.governsFunctions host, fun _ _ _ _ _ hrun => he₁.keepsFunctions hrun⟩⟩

def emptyProcedure : Procedure Stmt := ⟨[], [], [], false, false, false, false⟩

/-- The engine in which a global function was declared under this name. -/
def owning (name : String) : Engine :=
  (Request.perform (.ofFuel ⟨[]⟩ 4) (holding "")
    (.run .commandLine [.function none name emptyProcedure])).2

theorem arrives_owning (name : String) : Arrives ⟨[]⟩ (owning name) :=
  .perform (arrives_holding ⟨[]⟩ "") 4 _

def deleting : Request := .run .commandLine [.deleteFunction none "Own" false]

theorem perform_governsFunctions_deleting :
    Arrives ⟨[]⟩ (owning "Own") ∧
      ∃ f, (deleting.perform (.ofFuel ⟨[]⟩ 4) (owning "Own")).2.function? ⟨0⟩ = some f ∧
        f.deleted = true ∧
        (deleting.perform (.ofFuel ⟨[]⟩ 4) (owning "Own")).2.Saw f.IsMeantBy := by
  have harrives : Arrives ⟨[]⟩ (owning "Own") := arrives_owning "Own"
  obtain ⟨-, -, hkeeps, -⟩ := perform_governsFunctions harrives 4 deleting
  refine ⟨harrives, _, rfl, rfl, ?_⟩
  rcases hkeeps.meant ⟨0⟩ _ rfl rfl with ⟨g, hg, hbefore⟩ | hmeant
  · cases hg
    cases hbefore
  · exact hmeant

/-- Whatever a session asks for, what was declared can be deleted, unless its name begins with a
small letter and is given without the scope of scripts. So it is between the runs of the session and
in every step of them. -/
theorem perform_deletesDeclared (he : Arrives host e) (fuel : Nat) (r : Request) :
    e.DeletesDeclared ∧ (r.perform (.ofFuel host fuel) e).2.DeletesDeclared ∧
    ∀ hit : Task → Engine → Bool, (∀ task e₁, e₁.DeletesDeclared → hit task e₁ = false) →
      r.perform (.watching host hit fuel) e = r.perform (.ofFuel host fuel) e := by
  obtain ⟨hended, -⟩ := keepsFunctions_perform he.registered host fuel r
  refine ⟨he.registered.deletesDeclared, hended.deletesDeclared, fun hit hhit => ?_⟩
  exact perform_watching_registering he fuel r fun task e₁ he₁ _ => hhit task e₁ he₁.deletesDeclared

theorem perform_deletesDeclared_owning :
    Arrives ⟨[]⟩ (owning "Own") ∧ ∃ e',
      Run.execute .spent .commandLine (.deleteFunction none "Own" false) (owning "Own") =
        .ok .normal e' ∧ (owning "Own").TakesOut .globals "Own" ⟨0⟩ e' := by
  have harrives : Arrives ⟨[]⟩ (owning "Own") := arrives_owning "Own"
  refine ⟨harrives, ?_⟩
  have hdeletes := (perform_deletesDeclared harrives 4 deleting).1 .spent .spent .commandLine none
    "Own" emptyProcedure (holding "") _ .normal rfl .globals rfl rfl false
  exact hdeletes.1 (.inr rfl)

/-- A name with a `#` may be declared whatever it begins with. -/
theorem not_forall_deletesDeclared :
    ¬∀ (host : Host) (e : Engine), Arrives host e → ∀ (i i' : Interp) (c : Context)
      (scope : Option Scope) (name : String) (definition : Procedure Stmt) (e₀ e₁ : Engine)
      (signal : Signal), Run.execute i c (.function scope name definition) e₀ = .ok signal e₁ →
      ∀ table, Function.table (scope.getD .globals) name c = .ok table →
        (e.functionsAt table).find? name = some ⟨e₀.functions.size⟩ →
          ∃ e', Run.execute i' c (.deleteFunction scope name false) e = .ok .normal e' ∧
            e.TakesOut table name ⟨e₀.functions.size⟩ e' := by
  intro hclaim
  obtain ⟨e', hdeletes, -⟩ := hclaim ⟨[]⟩ (owning "a#b") (arrives_owning "a#b") .spent .spent
    .commandLine none "a#b" emptyProcedure (holding "") _ .normal rfl .globals rfl rfl
  have hrefuses : Run.execute .spent .commandLine (.deleteFunction none "a#b" false)
      (owning "a#b") = .error (.ofCause (.smallFunctionName "a#b")) (owning "a#b") := rfl
  rw [hrefuses] at hdeletes
  cases hdeletes

end Session

end VimL
