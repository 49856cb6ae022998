import VimL.Proofs.Approximation
import VimL.Proofs.Restoring

/-!
# Invariants of sessions

Between its runs, a host makes values and scripts, sets variables and asks for cancellations. An
invariant that looks at nothing but objects and variables is true of all engines that a session
comes to, if edits, new objects and writes keep it.
-/

namespace VimL

variable {host : Host} {e e' : Engine}

namespace Engine

/-- The objects are the same, and so are the variables that can be bound anew. -/
structure SameVariables (e e' : Engine) : Prop where
  heap : e'.heap = e.heap
  frames : e'.frames.size = e.frames.size
  tables : ∀ p, p.isWritable = true → e'.tableAt p = e.tableAt p

namespace SameVariables

theorem of_eq (hheap : e'.heap = e.heap) (hglobals : e'.globals = e.globals)
    (hscripts : e'.scripts = e.scripts) (hframes : e'.frames = e.frames) :
    e.SameVariables e' := by
  refine ⟨hheap, by rw [hframes], fun p hp => ?_⟩
  cases p with
  | globals => exact hglobals
  | script id => simp only [tableAt, script?, hscripts]
  | locals id => simp only [tableAt, frame?, hframes]
  | vim | arguments => cases hp

theorem newScript (e : Engine) (name : String) :
    e.SameVariables (Session.newScript name e).2 := by
  refine ⟨rfl, rfl, fun p _ => ?_⟩
  cases p with
  | script id =>
    simp only [Session.newScript, tableAt, script?, Array.getElem?_push]
    by_cases hid : id.index = e.scripts.size
    · simp [hid]
    · simp [hid]
  | _ => rfl

end SameVariables

end Engine

/-! ## Invariants -/

/-- What is true of engines, and what is kept along runs. Both are about objects and variables. -/
structure Invariant where
  named : Prop
  linear : Prop
  holds : Engine → Prop
  keeps : Engine → Engine → Prop
  unnamed : ∀ {e}, holds e → named → e.Unnamed (.locals ⟨e.frames.size⟩)
  affords : ∀ {e e'}, keeps e e' → linear → e.Affords e' []
  blank : ∀ config, holds (Session.blank config)
  holds_of_keeps : ∀ {e e'}, holds e → keeps e e' → holds e'
  trans : ∀ {e e' e''}, keeps e e' → keeps e' e'' → keeps e e''
  same : ∀ {e e' : Engine}, e.SameVariables e' → e'.handedOn = e.handedOn → keeps e e'
  edit : ∀ {e e'}, holds e → e.Edit (.ofFits False named fun _ => True) e' → keeps e e'
  create : ∀ {e e' v}, keeps e e' → (linear → e.Affords e' v.parts) →
    keeps e (e'.withHeap (e'.heap.new v).2)
  write : ∀ {e e' r v}, keeps e e' → v.isCompound = true →
    e.Permits (.ofFits False named fun _ => True) e' r v → (linear → e.Supplies e' r v) →
    keeps e (e'.withHeap (e'.heap.setValue r v))

namespace Invariant

variable (I : Invariant)

/-- A run that starts in the first engine leads to the other one. -/
structure Leads (e e' : Engine) : Prop where
  grows : e.Grows e'
  keeps : I.keeps e e'

theorem same_enter (e : Engine) (entry : CallEntry) : I.keeps e (e.enter entry) := by
  cases entry <;> exact I.same (.of_eq rfl rfl rfl rfl) rfl

variable {I}

theorem Leads.trans {e'' : Engine} (h : I.Leads e e') (h' : I.Leads e' e'') : I.Leads e e'' :=
  ⟨h.grows.trans h'.grows, I.trans h.keeps h'.keeps⟩

theorem Leads.leave {entry : CallEntry} (h : I.Leads (e.enter entry) e') :
    I.Leads e (e.leave e') := by
  have henter : I.Leads e (e.enter entry) := ⟨Engine.grows_enter e entry, I.same_enter e entry⟩
  have hleave : I.Leads e' (e.leave e') :=
    ⟨.of_eq rfl rfl rfl, I.same (.of_eq rfl rfl rfl rfl) rfl⟩
  exact henter.trans (h.trans hleave)

theorem Leads.restoreVim {err : ScriptError} {exception throwpoint : Ref}
    (h : I.Leads (e.catching err exception throwpoint) e') : I.Leads e (e.restoreVim e') := by
  have hshow : I.Leads e (e.catching err exception throwpoint) :=
    ⟨.of_eq rfl rfl rfl, I.same (.of_eq rfl rfl rfl rfl) rfl⟩
  have hrestore : I.Leads e' (e.restoreVim e') :=
    ⟨.of_eq rfl rfl rfl, I.same (.of_eq rfl rfl rfl rfl) rfl⟩
  exact hshow.trans (h.trans hrestore)

theorem Leads.leaveFinal {e'' : Engine} {event : Event} (htry : I.Leads (e.record event) e')
    (hfinal : I.Leads e'.enterFinal e'') (c : Context) (body : List Stmt) :
    I.Leads e (e'.leaveFinal c body e'') := by
  have hbegan : I.Leads e (e.record event) :=
    ⟨Engine.grows_record e event, I.same (.of_eq rfl rfl rfl rfl) rfl⟩
  have hinside : I.keeps e' e'.enterFinal := I.same (.of_eq rfl rfl rfl rfl) rfl
  have hafter : I.keeps e'' (e'.leaveFinal c body e'') := I.same (.of_eq rfl rfl rfl rfl) rfl
  have hended : I.Leads e' (e'.leaveFinal c body e'') :=
    ⟨hfinal.grows.leaveFinal c body, I.trans hinside (I.trans hfinal.keeps hafter)⟩
  exact hbegan.trans (htry.trans hended)

variable (I)

/-- Nothing is asked of trees, functions and failures, but that no alarm is given. -/
def discipline (host : Host) : Discipline host where
  toDemands := .ofFits False I.named fun _ => True
  placed := False
  linear := I.linear
  holds := I.holds
  leads := I.Leads
  admits stop := stop ≠ .alarm
  sound _ := False.elim
  wellFormed _ h := Function.wellFormed_of_false h
  function _ _ := trivial
  unnamed := I.unnamed
  unentered _ := False.elim
  newFrame _ := trivial
  registry _ := False.elim
  refl e := ⟨.refl e, I.same (.of_eq rfl rfl rfl rfl) rfl⟩
  trans := .trans
  holds_of_leads he h := I.holds_of_keeps he h.keeps
  grows h := h.grows
  affords h := I.affords h.keeps
  edit he h := ⟨h.grows, I.edit he h⟩
  create _ h _ hparts := ⟨h.grows.trans (.of_eq rfl rfl rfl), I.create h.keeps hparts⟩
  write _ h hv hpermits hsupplies :=
    ⟨h.grows.trans (.of_eq rfl rfl rfl), I.write h.keeps hv hpermits hsupplies⟩
  began _ _ _ _ := ⟨Engine.grows_record _ _, I.same (.of_eq rfl rfl rfl rfl) rfl⟩
  cancelled _ := ⟨Engine.grows_requestCancel _, I.same (.of_eq rfl rfl rfl rfl) rfl⟩
  holds_catching he _ := I.holds_of_keeps he (I.same (.of_eq rfl rfl rfl rfl) rfl)
  caught _ h := h.restoreVim
  holds_enterFinal he := I.holds_of_keeps he (I.same (.of_eq rfl rfl rfl rfl) rfl)
  final _ _ htry hfinal := htry.leaveFinal hfinal _ _
  admits_error _ _ := Stop.error_ne_alarm _
  admits_mark h := Stop.mark_ne_alarm h
  admits_finished := Stop.finished_ne_alarm
  admits_internal hf _ := Stop.internal_ne_alarm hf

theorem uniform_discipline (host : Host) : (I.discipline host).Uniform .any :=
  Discipline.uniform_any id id (fun _ => trivial) (fun _ => trivial)
    (fun entry => .same (fun he => I.holds_of_keeps he (I.same_enter _ entry)) fun h => h.leave)
    Stop.exhausted_ne_alarm (fun _ => Stop.error_ne_alarm _) id id False.elim

theorem obeys (host : Host) (fuel : Nat) :
    (Interp.ofFuel host fuel).Obeys (I.discipline host) .any :=
  Interp.obeys_ofFuel (I.uniform_discipline host) False.elim fuel

/-- From an engine of which the invariant is true, a run that keeps it comes to such an engine. -/
theorem reaches {α : Type} {m : Run α} {post : α → Engine → Prop}
    (hm : Run.Allows (I.discipline host) e m post) (he : I.holds e) :
    Run.Reaches (fun _ => True) e m (fun e' => I.holds e' ∧ I.keeps e e') post :=
  (hm he ((I.discipline host).refl e)).weaken (fun _ _ => trivial)
    (fun _ h => ⟨I.holds_of_keeps he h.keeps, h.keeps⟩) fun _ _ _ h => h

theorem keeps_of_ends {α : Type} {m : Run α} {post : α → Engine → Prop} {ended : Except Stop α}
    (hm : Run.Allows (I.discipline host) e m post) (he : I.holds e) (h : m.Ends e ended e') :
    I.keeps e e' :=
  ((I.reaches hm he).reach_of_ends h).2

theorem reaches_eval (he : I.holds e) (host : Host) (fuel : Nat) (c : Context) (x : Expr) :
    Run.Reaches (fun _ => True) e ((Interp.ofFuel host fuel).eval c x)
      (fun e' => I.holds e' ∧ I.keeps e e') fun _ _ => True :=
  I.reaches (((I.obeys host fuel).eval c x trivial).allows e) he

end Invariant

/-! ## Sessions -/

open Session

/-- The engines between the runs of a session: the first one, and what the host makes of one of
them, whatever it asks for. -/
inductive Session.Arrives (host : Host) : Engine → Prop where
  | start {e : Engine} {config : Config} {options : List (String × HostData)}
      {registers environment : List (String × String)}
      (h : start config options registers environment = .ok e) : Arrives host e
  | constant {e e' : Engine} (h : Arrives host e) {v : Value} {ended : Except Stop Ref}
      (hnew : (Run.newSharing v).Ends e ended e') : Arrives host e'
  | newScript {e : Engine} (h : Arrives host e) (name : String) : Arrives host (newScript name e).2
  | setVariable {e e' : Engine} (h : Arrives host e) {c : Context} {v : Variable} {d : HostData}
      {ended : Except Stop Unit} (hset : (setVariable c v d).Ends e ended e') : Arrives host e'
  | cancel {e : Engine} (h : Arrives host e) : Arrives host (cancel e)
  | perform {e : Engine} (h : Arrives host e) (fuel : Nat) (r : Request) :
      Arrives host (r.perform (.ofFuel host fuel) e).2

theorem Session.arrives_holding (host : Host) (text : String) : Arrives host (holding text) :=
  .start (start_holding text)

namespace Invariant

variable (I : Invariant)

theorem keeps_start (e : Engine) (r : Request) : I.keeps e (r.start e) := by
  have hprepare (e : Engine) : I.keeps e (prepare e) := I.same (.of_eq rfl rfl rfl rfl) rfl
  cases r with
  | source name => exact I.trans (I.same (.newScript e name) rfl) (hprepare _)
  | _ => exact hprepare e

theorem keeps_perform (he : I.holds e) (host : Host) (fuel : Nat) (r : Request) :
    I.keeps e (r.perform (.ofFuel host fuel) e).2 := by
  have hstart := I.keeps_start e r
  obtain ⟨e₁, _, _, hleads, hended, -⟩ :=
    Request.leads_perform (I.obeys host fuel) r.judged_any (I.holds_of_keeps he hstart)
  rw [hended]
  exact I.trans hstart (I.trans hleads.keeps (I.same (.of_eq rfl rfl rfl rfl) rfl))

/-- The invariant is true of every engine between the runs of a session. -/
theorem holds_of_arrives (h : Arrives host e) : I.holds e := by
  have hleads {e e' : Engine} (he : I.holds e) (h : (I.discipline host).leads e e') : I.holds e' :=
    I.holds_of_keeps he h.keeps
  induction h with
  | start h =>
    exact Session.holds_start (D := I.discipline host) h (I.blank _) fun _ _ _ _ _ he =>
      I.holds_of_keeps he (I.same (.of_eq rfl rfl rfl rfl) rfl)
  | constant _ hnew ih => exact hleads ih (leads_newSharing id hnew ih)
  | @newScript e _ name ih => exact I.holds_of_keeps ih (I.same (.newScript e name) rfl)
  | setVariable _ hset ih => exact hleads ih (leads_setVariable trivial hset ih)
  | cancel _ ih => exact I.holds_of_keeps ih (I.same (.of_eq rfl rfl rfl rfl) rfl)
  | perform _ fuel r ih => exact I.holds_of_keeps ih (I.keeps_perform ih host fuel r)

/-- What the invariant rules out is not seen in any step of a run. -/
theorem perform_watching (he : I.holds e) (fuel : Nat) (r : Request) {hit : Task → Engine → Bool}
    (hhit : ∀ task e₁, I.holds e₁ → hit task e₁ = false) :
    r.perform (.watching host hit fuel) e = r.perform (.ofFuel host fuel) e := by
  have halarm : ¬(I.discipline host).admits .alarm := fun h => h rfl
  exact Request.perform_watching (I.uniform_discipline host) False.elim halarm
    (fun task e₁ _ he₁ => hhit task e₁ he₁) fuel r.judged_any
    (I.holds_of_keeps he (I.keeps_start e r))

end Invariant

end VimL
