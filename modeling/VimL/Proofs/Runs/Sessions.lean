import VimL.Proofs.Runs.Steps
import VimL.Session

/-!
# Runs of a session

What a host starts keeps to a discipline as well. Every engine that a session reaches is sound.
-/

namespace VimL

/-- A discipline without regard to how runs stop. -/
def Discipline.lenient {host : Host} (D : Discipline host) : Discipline host :=
  { D with
    admits := fun _ => True
    admits_error := fun _ _ => trivial
    admits_mark := fun _ _ _ => trivial
    admits_finished := trivial
    admits_internal := fun _ _ => trivial }

namespace Session

open Run

variable {host : Host} {D : Discipline host} {T : Trees} {i : Interp} {e : Engine}

section Runs

variable {c : Context} (hi : i.ObeysIn D T c)

include hi

theorem keeps_unit {body : List Stmt} (hbody : T.body .top body) : Keeps D (unit i c body) := by
  refine ⟨fun e => ?_⟩
  unfold unit
  have hblock := allows_blockIn hi hbody (fun _ => nofun) e
  refine hblock.outcome_bind (fun signal e₁ _ hsignal => ?_) fun stop e₁ _ hstop => ?_
  · cases signal with
    | loopBreak | loopContinue =>
      exact .throw (D.admits_error (fun hplaced => absurd (hsignal hplaced) nofun) rfl)
    | _ => exact .pure trivial
  · cases stop with
    | finished => exact .pure trivial
    | _ => exact .throw hstop

/-- A run leads on, and then the flag of a cancellation is cleared. -/
theorem leads_run {body : List Stmt} (e : Engine) (hbody : T.body .top body)
    (he : D.holds (prepare e)) : ∃ e₁, D.leads (prepare e) e₁ ∧
      (run i c body e =
          (⟨.ok none, e₁.interrupted, e₁.effects⟩, { e₁ with interrupted := false }) ∨
        ∃ stop, D.admits stop ∧ run i c body e = failed stop { e₁ with interrupted := false }) := by
  have hunit := (keeps_unit hi hbody).allows (prepare e) he (D.refl _)
  unfold run
  cases h : unit i c body (prepare e) with
  | ok _ e₁ =>
    simp only [Reaches, h] at hunit
    exact ⟨e₁, hunit.1, .inl rfl⟩
  | error stop e₁ =>
    simp only [Reaches, h] at hunit
    exact ⟨e₁, hunit.1, .inr ⟨stop, hunit.2, rfl⟩⟩

/-- An expression leads on. It fails as it does inside a script, or because it asks for the end of
a script unit. -/
theorem leads_evaluate {x : Expr} (hx : T.expr x) (he : D.holds (prepare e)) :
    ∃ e₁, D.leads (prepare e) e₁ ∧
      ((∃ r, evaluate i c x e = (⟨.ok (some r), false, e₁.effects⟩, e₁)) ∨
        ∃ stop, (D.admits stop ∨ stop = .internal .noScriptUnit) ∧
          evaluate i c x e = failed stop e₁) := by
  have heval := (hi.eval x hx).allows (prepare e) he (D.refl _)
  unfold evaluate
  cases h : i.eval c x (prepare e) with
  | ok r e₁ =>
    simp only [Reaches, h] at heval
    exact ⟨e₁, heval.1, .inl ⟨r, rfl⟩⟩
  | error stop e₁ =>
    simp only [Reaches, h] at heval
    refine ⟨e₁, heval.1, .inr ?_⟩
    cases stop with
    | finished => exact ⟨.internal .noScriptUnit, .inr rfl, rfl⟩
    | _ => exact ⟨_, .inl heval.2, rfl⟩

end Runs

/-! ## Requests -/

/-- What a host asks for: to run a block, to run a block as a new script, or to evaluate an
expression. -/
inductive Request where
  | run (c : Context) (body : List Stmt)
  | source (name : String) (body : List Stmt)
  | evaluate (c : Context) (x : Expr)

namespace Request

def perform (i : Interp) (e : Engine) : Request → Report × Engine
  | .run c body => Session.run i c body e
  | .source name body => Session.source i name body e
  | .evaluate c x => Session.evaluate i c x e

/-- The context in which the run starts. -/
def context (e : Engine) : Request → Context
  | .run c _ | .evaluate c _ => c
  | .source .. => scriptContext ⟨e.scripts.size⟩

/-- The engine in which the run starts. -/
def start (e : Engine) : Request → Engine
  | .source name _ => prepare (newScript name e).2
  | _ => prepare e

def Judged (T : Trees) : Request → Prop
  | .run _ body | .source _ body => T.body .top body
  | .evaluate _ x => T.expr x

theorem judged_any (r : Request) : r.Judged .any := by
  cases r with
  | run | source => exact fun _ _ => trivial
  | evaluate => trivial

theorem listsOnly_start {good : FunctionTable → String → Function → Prop} (he : e.ListsOnly good)
    (r : Request) : (r.start e).ListsOnly good := by
  cases r with
  | source name => exact (he.newScript name).of_eq rfl rfl
  | _ => exact he.of_eq rfl rfl

/-- What is asked for leads on. Then the flag of a cancellation may be cleared, and a failure is
reported. -/
theorem leads_performIn {r : Request} (hi : i.ObeysIn D T (r.context e)) (hr : r.Judged T)
    (he : D.holds (r.start e)) :
    ∃ e₁ interrupted effects, D.leads (r.start e) e₁ ∧
      (r.perform i e).2 = { e₁ with interrupted := interrupted, effects := effects } ∧
      ∀ stop, (r.perform i e).1.outcome = .error stop →
        D.admits stop ∨ stop = .internal .noScriptUnit := by
  have hrun {c : Context} (hi : i.ObeysIn D T c) {body : List Stmt} {e : Engine}
      (hbody : T.body .top body) (he : D.holds (prepare e)) :
      ∃ e₁ interrupted effects, D.leads (prepare e) e₁ ∧
        (Session.run i c body e).2 = { e₁ with interrupted := interrupted, effects := effects } ∧
        ∀ stop, (Session.run i c body e).1.outcome = .error stop →
          D.admits stop ∨ stop = .internal .noScriptUnit := by
    obtain ⟨e₁, hleads, hok | ⟨stop, hstop, herror⟩⟩ := leads_run hi e hbody he
    · rw [hok]
      exact ⟨e₁, false, e₁.effects, hleads, rfl, fun _ h => nomatch h⟩
    · rw [herror]
      exact ⟨e₁, false, _, hleads, rfl, fun other h => .inl (Except.error.inj h ▸ hstop)⟩
  cases r with
  | run c body => exact hrun hi hr he
  | source name body => exact hrun hi hr he
  | evaluate c x =>
    have hi : i.ObeysIn D T c := hi
    obtain ⟨e₁, hleads, ⟨a, hok⟩ | ⟨stop, hstop, herror⟩⟩ := leads_evaluate hi hr he
    · refine ⟨e₁, e₁.interrupted, e₁.effects, hleads, congrArg Prod.snd hok, fun stop h => ?_⟩
      rw [perform, hok] at h
      cases h
    · refine ⟨e₁, e₁.interrupted, _, hleads, congrArg Prod.snd herror, fun other h => ?_⟩
      rw [perform, herror] at h
      exact Except.error.inj h ▸ hstop

theorem leads_perform (hi : i.Obeys D T) {r : Request} (hr : r.Judged T)
    (he : D.holds (r.start e)) :
    ∃ e₁ interrupted effects, D.leads (r.start e) e₁ ∧
      (r.perform i e).2 = { e₁ with interrupted := interrupted, effects := effects } ∧
      ∀ stop, (r.perform i e).1.outcome = .error stop →
        D.admits stop ∨ stop = .internal .noScriptUnit :=
  leads_performIn (hi.obeysIn _) hr he

end Request

section Steps

variable {P : Prop} (hi : i.KeepsSteps host P) (c : Context)

include hi

theorem exists_run {body : List Stmt} (e : Engine) (hbody : P → ∀ s ∈ body, s.WellFormed)
    (he : P → e.Sound host) : ∃ e₁, (prepare e).Leads host P e₁ ∧
      (run i c body e =
          (⟨.ok none, e₁.interrupted, e₁.effects⟩, { e₁ with interrupted := false }) ∨
        ∃ stop, stop.Admitted P ∧
          run i c body e = failed stop { e₁ with interrupted := false }) :=
  leads_run (hi.obeysIn c) e (fun s hs hp => hbody hp s hs) fun hp => (he hp).of_eq rfl rfl rfl

theorem exists_evaluate {x : Expr} (hx : P → x.WellFormed) (he : P → e.Sound host) :
    ∃ e₁, (prepare e).Leads host P e₁ ∧
      ((∃ r, evaluate i c x e = (⟨.ok (some r), false, e₁.effects⟩, e₁)) ∨
        ∃ stop, (stop.Admitted P ∨ stop = .internal .noScriptUnit) ∧
          evaluate i c x e = failed stop e₁) :=
  leads_evaluate (hi.obeysIn c) hx fun hp => (he hp).of_eq rfl rfl rfl

end Steps

/-! ## Engines of a session -/

theorem keeps_objects (data : List (String × HostData)) : Keeps D.lenient (objects data) := by
  induction data with
  | nil => unfold objects; infer_instance
  | cons entry rest ih =>
    have := entry.2.keeps_toValue (D := D.lenient) trivial
    unfold objects
    infer_instance

theorem reaches_furnish (options : List (String × HostData))
    (registers environment : List (String × String)) (he : D.holds e)
    (hset : ∀ e vim options registers environment, D.holds e → D.holds { e with
      vim := vim, options := options, registers := registers, environment := environment }) :
    Reaches (fun _ => True) e (furnish options registers environment) D.holds fun _ _ => True := by
  have hobjects (data : List (String × HostData)) {e : Engine} (he : D.holds e) :
      Reaches (fun _ => True) e (objects data) D.holds fun _ _ => True :=
    ((keeps_objects (D := D) data).allows e he (D.refl e)).mono
      (fun _ h => D.holds_of_leads he h) fun _ _ _ _ => trivial
  unfold furnish
  -- which variables there are does not matter, and Lean is not to evaluate the run
  generalize editorVariables = data
  refine (hobjects data he).bind (fun _ h => h) fun vim e₁ h₁ _ => ?_
  refine (hobjects options h₁).bind (fun _ h => h) fun globals e₂ h₂ _ => ?_
  exact ⟨hset e₂ _ _ _ _ h₂, trivial⟩

/-- What holds of an engine in which nothing is defined holds of the first one of a session. -/
theorem holds_start {config : Config} {options : List (String × HostData)}
    {registers environment : List (String × String)}
    (h : start config options registers environment = .ok e) (hblank : D.holds (blank config))
    (hset : ∀ e vim options registers environment, D.holds e → D.holds { e with
      vim := vim, options := options, registers := registers, environment := environment }) :
    D.holds e := by
  unfold start at h
  generalize blank config = first at h hblank
  have hfurnish := reaches_furnish options registers environment hblank hset
  unfold Reaches at hfurnish
  cases hrun : furnish options registers environment first with
  | ok _ e₁ =>
    simp only [hrun, Except.ok.injEq] at h hfurnish
    exact h ▸ hfurnish.1
  | error stop e₁ => simp [hrun] at h

/-- The first engine of a session in which the register holds this text. -/
def holding (text : String) : Engine :=
  match start .standard [] [("a", text)] [] with
  | .ok e => e
  | .error _ => blank .standard

theorem start_holding (text : String) :
    start .standard [] [("a", text)] [] = .ok (holding text) := rfl

theorem keeps_setVariable {c : Context} (hc : D.runs c) (v : Variable) (d : HostData) :
    Keeps D.lenient (setVariable c v d) := by
  have : D.lenient.Runs c := ⟨hc⟩
  have := d.keeps_toValue (D := D.lenient) trivial
  unfold setVariable
  infer_instance

section Ends

variable {α : Type} {ended : Except Stop α} {e' : Engine}

theorem leads_of_keeps {m : Run α} (hm : Keeps D.lenient m) (h : m.Ends e ended e')
    (he : D.holds e) : D.leads e e' :=
  (hm.allows e he (D.refl e)).reach_of_ends h

theorem leads_setVariable {c : Context} (hc : D.runs c) {v : Variable} {d : HostData}
    {ended : Except Stop Unit} (h : (setVariable c v d).Ends e ended e') (he : D.holds e) :
    D.leads e e' :=
  leads_of_keeps (keeps_setVariable hc v d) h he

/-- A host may make any value, if nothing is asked of references to functions. -/
theorem leads_newSharing (hD : ¬D.strict) {v : Value} {ended : Except Stop Ref}
    (h : (newSharing v).Ends e ended e') (he : D.holds e) : D.leads e e' :=
  leads_of_keeps (.of_allows fun _ => allows_newSharing fun hstrict => absurd hstrict hD) h he

end Ends

theorem sound_blank (config : Config) : (blank config).Sound host := by
  refine ⟨fun r f hr => ?_, fun id f hf => ?_, fun table name id hid => ?_⟩
  · cases hr
  · simp [blank, Engine.function?] at hf
  · cases table <;> simp [blank, Engine.functionsAt, Engine.script?] at hid

theorem sound_start {config : Config} {options : List (String × HostData)}
    {registers environment : List (String × String)}
    (h : start config options registers environment = .ok e) : e.Sound host := by
  have hblank : (Discipline.steps host True).holds (blank config) := fun _ => sound_blank config
  exact holds_start h hblank (fun _ _ _ _ _ he hp => (he hp).of_eq rfl rfl rfl) trivial

theorem sound_newScript (he : e.Sound host) (name : String) : (newScript name e).2.Sound host := by
  refine he.of_functions_eq rfl (fun _ _ hr => .inl hr) fun table other id hid => .inl ?_
  cases table with
  | globals => exact hid
  | script other =>
    simp only [newScript, Engine.functionsAt, Engine.script?, Array.getElem?_push] at hid ⊢
    split at hid
    · cases hid
    · exact hid

/-- The engines that a session comes to, between its runs and inside of them. -/
inductive Reachable (host : Host) : Engine → Prop where
  | start {e : Engine} {config : Config} {options : List (String × HostData)}
      {registers environment : List (String × String)}
      (h : start config options registers environment = .ok e) : Reachable host e
  | constant {e : Engine} (h : Reachable host e) (v : Value) (hv : ∀ f, v ≠ .funcref f) :
      Reachable host (e.withHeap (e.heap.new v).2)
  | newScript {e : Engine} (h : Reachable host e) (name : String) :
      Reachable host (newScript name e).2
  | setVariable {e e' : Engine} (h : Reachable host e) {c : Context} {v : Variable} {d : HostData}
      {ended : Except Stop Unit} (hset : (setVariable c v d).Ends e ended e') : Reachable host e'
  | cancel {e : Engine} (h : Reachable host e) : Reachable host (cancel e)
  | prepare {e : Engine} (h : Reachable host e) : Reachable host (prepare e)
  | run {e : Engine} (h : Reachable host e) (fuel : Nat) (c : Context) {body : List Stmt}
      (hbody : ∀ s ∈ body, s.WellFormed) :
      Reachable host (run (.ofFuel host fuel) c body e).2
  | evaluate {e : Engine} (h : Reachable host e) (fuel : Nat) (c : Context) {x : Expr}
      (hx : x.WellFormed) : Reachable host (evaluate (.ofFuel host fuel) c x e).2
  | steps {e e' : Engine} (h : Reachable host e) (hsteps : e.Leads host True e') :
      Reachable host e'
  | call {e : Engine} (h : Reachable host e) (entry : CallEntry) : Reachable host (e.enter entry)
  | catchBlock {e : Engine} {err : ScriptError} (h : Reachable host e)
      (exception throwpoint : Ref) : Reachable host (e.catching err exception throwpoint)
  | finalBlock {e : Engine} (h : Reachable host e) : Reachable host e.enterFinal

theorem Reachable.sound (hhost : host.functions = []) (h : Reachable host e) : e.Sound host := by
  induction h with
  | start h => exact sound_start h
  | constant _ v hv ih =>
    exact Engine.Change.sound trivial (.create v fun _ f hf => absurd hf (hv f)) ih
  | newScript _ name ih => exact sound_newScript ih name
  | setVariable _ hset ih =>
    exact (leads_setVariable (D := .steps host True) trivial hset fun _ => ih).sound trivial ih
  | cancel _ ih => exact ih.of_eq rfl rfl rfl
  | prepare _ ih => exact ih.of_eq rfl rfl rfl
  | @run e _ fuel c body hbody ih =>
    have hsteps := Interp.keepsSteps_ofFuel (fun (_ : True) => hhost) fuel
    obtain ⟨e₁, hleads, hrun⟩ := exists_run hsteps c e (fun _ => hbody) fun _ => ih
    have hsound : e₁.Sound host := hleads.sound trivial (ih.of_eq rfl rfl rfl)
    rcases hrun with hok | ⟨stop, -, herror⟩
    · rw [hok]
      exact hsound.of_eq rfl rfl rfl
    · rw [herror]
      exact hsound.of_eq rfl rfl rfl
  | @evaluate e _ fuel c x hx ih =>
    have hsteps := Interp.keepsSteps_ofFuel (fun (_ : True) => hhost) fuel
    obtain ⟨e₁, hleads, hrun⟩ := exists_evaluate hsteps c (fun _ => hx) fun _ => ih
    have hsound : e₁.Sound host := hleads.sound trivial (ih.of_eq rfl rfl rfl)
    rcases hrun with ⟨r, hok⟩ | ⟨stop, -, herror⟩
    · rw [hok]
      exact hsound
    · rw [herror]
      exact hsound.of_eq rfl rfl rfl
  | steps _ hsteps ih => exact hsteps.sound trivial ih
  | call _ entry ih => exact ih.enter entry
  | catchBlock _ _ _ ih => exact ih.of_eq rfl rfl rfl
  | finalBlock _ ih => exact ih.of_eq rfl rfl rfl

end Session

end VimL
