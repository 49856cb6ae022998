import VimL.Proofs.Runs.Sessions

/-!
# Interpreters that give up

One interpreter approximates another if each of its runs is that of the other or gives up, in a way
that no script can catch. An interpreter with less fuel approximates one with more, and one that is
watched approximates the one that is not. So what does not give up does not depend on the fuel, and
it is not changed by being watched.
-/

namespace VimL

/-- No script sees a run stop like this. -/
class Stop.Fatal (stop : Stop) : Prop where
  ne_error : ∀ err, stop ≠ .error err
  ne_finished : stop ≠ .finished

instance : Stop.exhausted.Fatal := ⟨nofun, nofun⟩

instance : Stop.alarm.Fatal := ⟨nofun, nofun⟩

theorem Stop.Fatal.eq_exhausted_or {stop : Stop} (h : stop.Fatal) :
    stop = .exhausted ∨ ∃ failure, stop = .internal failure := by
  cases stop with
  | error err => exact absurd rfl (h.ne_error err)
  | finished => exact absurd rfl h.ne_finished
  | internal failure => exact .inr ⟨failure, rfl⟩
  | exhausted => exact .inl rfl

/-- Marks do not change how the run stops. -/
class Stop.Stable (stop : Stop) : Prop where
  mark : ∀ command throwpoint, stop.mark command throwpoint = stop

instance {stop : Stop} [h : stop.Fatal] : stop.Stable := by
  obtain rfl | ⟨failure, rfl⟩ := h.eq_exhausted_or <;> exact ⟨fun _ _ => rfl⟩

/-- The first run is the second one, unless it gives up. -/
class Run.UpTo {α : Type} (stop : Stop) (m m' : Run α) : Prop where
  eq_or : ∀ e, m e = m' e ∨ ∃ e', m e = .error stop e'

/-- All runs of the first interpreter are those of the second one, unless they give up. -/
class Interp.UpTo (stop : Stop) (i i' : Interp) : Prop where
  rounds : i.fuel = i'.fuel ∨ stop = .exhausted ∧ i.fuel ≤ i'.fuel
  eval : ∀ c x, Run.UpTo stop (i.eval c x) (i'.eval c x)
  exec : ∀ c s, Run.UpTo stop (i.exec c s) (i'.exec c s)
  call : ∀ c h arguments receiver,
    Run.UpTo stop (i.call c h arguments receiver) (i'.call c h arguments receiver)

variable {α β : Type} {stop : Stop} {host : Host} {m m' : Run α}

namespace Run

section Rules

variable {n n' : Run α} {f f' : α → Run β}

theorem UpTo.of_eq (h : m = m') : UpTo stop m m' := ⟨fun e => .inl (congrFun h e)⟩

theorem UpTo.bind (hm : UpTo stop m m') (hf : ∀ a, UpTo stop (f a) (f' a)) :
    UpTo stop (m >>= f) (m' >>= f') := by
  refine ⟨fun e => ?_⟩
  simp only [Bind.bind, EStateM.bind]
  rcases hm.eq_or e with heq | ⟨e', hstop⟩
  · rw [heq]
    cases m' e with
    | ok a e' => exact (hf a).eq_or e'
    | error other e' => exact .inl rfl
  · rw [hstop]
    exact .inr ⟨e', rfl⟩

instance (priority := high) (m : Run α) : UpTo stop m m := .of_eq rfl

instance [hm : UpTo stop m m'] [hf : ∀ a, UpTo stop (f a) (f' a)] :
    UpTo stop (m >>= f) (m' >>= f') := hm.bind hf

/-- Nothing is run after an error. -/
instance (priority := high) (cause : Cause) : UpTo stop (raise cause >>= f) (raise cause >>= f') :=
  .of_eq rfl

instance {c : Prop} [Decidable c] [UpTo stop m m'] [UpTo stop n n'] :
    UpTo stop (if c then m else n) (if c then m' else n') := by
  split <;> infer_instance

instance [hm : UpTo stop m m'] (change : Engine → Engine) :
    UpTo stop (m.afterwards change) (m'.afterwards change) := by
  refine ⟨fun e => ?_⟩
  simp only [afterwards]
  rcases hm.eq_or e with heq | ⟨e', hstop⟩
  · rw [heq]
    exact .inl rfl
  · rw [hstop]
    exact .inr ⟨change e', rfl⟩

instance [hm : UpTo stop m m'] [hstop : stop.Stable] (command : String) :
    UpTo stop (m.marked command) (m'.marked command) := by
  refine ⟨fun e => ?_⟩
  simp only [marked]
  rcases hm.eq_or e with heq | ⟨e', hgives⟩
  · rw [heq]
    exact .inl rfl
  · refine .inr ⟨e', ?_⟩
    simp only [hgives, hstop.mark]

/-- The end of a run that gives up is handed on. -/
theorem UpTo.outcome (hm : UpTo stop m m') (e : Engine) :
    outcome m e = outcome m' e ∨ ∃ e', outcome m e = .ok (.error stop) e' := by
  simp only [Run.outcome]
  rcases hm.eq_or e with heq | ⟨e', hstop⟩
  · rw [heq]
    exact .inl rfl
  · rw [hstop]
    exact .inr ⟨e', rfl⟩

/-- Whoever is handed the end of a run that gives up, gives up as well. -/
theorem UpTo.bind_ended {m m' : Run (Except Stop α)} {f f' : Except Stop α → Run β}
    (hm : ∀ e, m e = m' e ∨ ∃ e', m e = .ok (.error stop) e')
    (hf : ∀ ended, UpTo stop (f ended) (f' ended)) (hstop : f (.error stop) = throw stop) :
    UpTo stop (m >>= f) (m' >>= f') := by
  refine ⟨fun e => ?_⟩
  simp only [Bind.bind, EStateM.bind]
  rcases hm e with heq | ⟨e', hgives⟩
  · rw [heq]
    cases m' e with
    | ok ended e' => exact (hf ended).eq_or e'
    | error other e' => exact .inl rfl
  · refine .inr ⟨e', ?_⟩
    rw [hgives]
    exact congrFun hstop e'

end Rules

/-! ## Targets -/

section Targets

variable {eval eval' : Expr → Run Ref} [∀ x, UpTo stop (eval x) (eval' x)]

instance (x : Option Expr) (default : Int) :
    UpTo stop (bound eval x default) (bound eval' x default) := by
  unfold bound
  cases x <;> infer_instance

instance (c : Context) (v : Variable) (op : AssignOperator) (x : Expr) :
    UpTo stop (assignVariable eval c v op x) (assignVariable eval' c v op x) := by
  unfold assignVariable
  infer_instance

instance (dictionary key : Ref) (op : AssignOperator) (x : Expr) :
    UpTo stop (assignEntry eval dictionary key op x) (assignEntry eval' dictionary key op x) := by
  unfold assignEntry
  infer_instance

instance (list : Ref) (items : List Ref) (key : Ref) (op : AssignOperator) (x : Expr) :
    UpTo stop (assignItem eval list items key op x) (assignItem eval' list items key op x) := by
  unfold assignItem
  refine .bind inferInstance fun n => ?_
  cases position? items.length n with
  | none => infer_instance
  | some i =>
    dsimp only
    cases items[i]? <;> infer_instance

instance (blob : Ref) (size : Nat) (key : Ref) (op : AssignOperator) (x : Expr) :
    UpTo stop (assignByte eval blob size key op x) (assignByte eval' blob size key op x) := by
  unfold assignByte
  refine .bind inferInstance fun n => ?_
  cases position? size n <;> infer_instance

instance (container key : Expr) (op : AssignOperator) (x : Expr) :
    UpTo stop (assignElement eval container key op x)
      (assignElement eval' container key op x) := by
  unfold assignElement
  refine .bind inferInstance fun target => .bind inferInstance fun k => ?_
  refine .bind inferInstance fun v => ?_
  cases v <;> infer_instance

instance (container : Expr) (first last : Option Expr) (op : AssignOperator) (x : Expr) :
    UpTo stop (assignRange eval container first last op x)
      (assignRange eval' container first last op x) := by
  unfold assignRange
  infer_instance

instance (scope : Option Scope) (name : String) (op : AssignOperator) (x : Expr) :
    UpTo stop (assignOption eval scope name op x) (assignOption eval' scope name op x) := by
  unfold assignOption
  infer_instance

instance (name : String) (op : AssignOperator) (x : Expr) :
    UpTo stop (assignRegister eval name op x) (assignRegister eval' name op x) := by
  unfold assignRegister
  infer_instance

instance (name : String) (op : AssignOperator) (x : Expr) :
    UpTo stop (assignEnvironment eval name op x) (assignEnvironment eval' name op x) := by
  unfold assignEnvironment
  infer_instance

instance (c : Context) (target : Expr) (op : AssignOperator) (x : Expr) :
    UpTo stop (assign eval c target op x) (assign eval' c target op x) := by
  unfold assign
  cases target <;> infer_instance

instance (container key : Expr) (force : Bool) :
    UpTo stop (removeElement eval container key force)
      (removeElement eval' container key force) := by
  unfold removeElement
  infer_instance

instance (container : Expr) (first last : Option Expr) :
    UpTo stop (removeRange eval container first last)
      (removeRange eval' container first last) := by
  unfold removeRange
  infer_instance

instance (c : Context) (force : Bool) (target : Expr) :
    UpTo stop (unlet eval c force target) (unlet eval' c force target) := by
  unfold unlet
  cases target <;> infer_instance

instance (c : Context) (depth : Int) (target : Expr) :
    UpTo stop (lock eval c depth target) (lock eval' c depth target) := by
  unfold lock
  infer_instance

instance (depth : Int) (target : Expr) :
    UpTo stop (unlock eval depth target) (unlock eval' depth target) := by
  unfold unlock
  infer_instance

end Targets

/-! ## Calls of native functions -/

section Natives

variable {call call' : Handler → List Ref → Option Ref → Run Ref}
  [∀ h arguments receiver, UpTo stop (call h arguments receiver) (call' h arguments receiver)]

instance (f : Funcref) (arguments : List Ref) (receiver : Option Ref) :
    UpTo stop (callFuncref call f arguments receiver)
      (callFuncref call' f arguments receiver) := by
  unfold callFuncref
  infer_instance

section Rows

variable {before before' : Ref → Ref → Run Bool} [∀ a b, UpTo stop (before a b) (before' a b)]

instance (left right : List Ref) :
    UpTo stop (Library.mergeBy before left right) (Library.mergeBy before' left right) := by
  induction left generalizing right with
  | nil => unfold Library.mergeBy; infer_instance
  | cons l ls ihl =>
    induction right with
    | nil => unfold Library.mergeBy; infer_instance
    | cons r rs ihr =>
      unfold Library.mergeBy
      have := ihl (r :: rs)
      infer_instance

instance (fuel : Nat) (items : List Ref) :
    UpTo stop (Library.sortBy before fuel items) (Library.sortBy before' fuel items) := by
  induction fuel generalizing items with
  | zero => unfold Library.sortBy; infer_instance
  | succ fuel ih => unfold Library.sortBy; infer_instance

end Rows

variable (c : Context)

instance (scope : Option Scope) (name : String) :
    UpTo stop (NativeEnv.handler ⟨host, c, call⟩ scope name)
      (NativeEnv.handler ⟨host, c, call'⟩ scope name) := .of_eq rfl

instance (name : Ref) (second third : Option Ref) :
    UpTo stop (Library.function ⟨host, c, call⟩ name second third)
      (Library.function ⟨host, c, call'⟩ name second third) := .of_eq rfl

instance (r : Ref) :
    UpTo stop (Library.exist ⟨host, c, call⟩ r) (Library.exist ⟨host, c, call'⟩ r) := .of_eq rfl

instance (r : Ref) :
    UpTo stop (Library.islocked ⟨host, c, call⟩ r) (Library.islocked ⟨host, c, call'⟩ r) :=
  .of_eq rfl

instance (f : HostFunction) (arguments : List Ref) :
    UpTo stop (Library.runHosted ⟨host, c, call⟩ f arguments)
      (Library.runHosted ⟨host, c, call'⟩ f arguments) := .of_eq rfl

instance (list : Ref) (items : List Ref) (f : Funcref) :
    UpTo stop (Library.sortByFunction ⟨host, c, call⟩ list items f)
      (Library.sortByFunction ⟨host, c, call'⟩ list items f) := by
  have (a b : Ref) : UpTo stop (Library.comesBefore ⟨host, c, call⟩ f a b)
      (Library.comesBefore ⟨host, c, call'⟩ f a b) := by
    unfold Library.comesBefore
    infer_instance
  unfold Library.sortByFunction
  infer_instance

instance (list : Ref) (how : Option Ref) : UpTo stop (Library.sort ⟨host, c, call⟩ list how)
    (Library.sort ⟨host, c, call'⟩ list how) := by
  unfold Library.sort
  refine .bind inferInstance fun v => ?_
  cases v with
  | list items =>
    refine .bind inferInstance fun _ => ?_
    cases how with
    | none => infer_instance
    | some how =>
      refine .bind inferInstance fun v => ?_
      cases v with
      | funcref f => infer_instance
      | _ =>
        dsimp only
        split <;> infer_instance
  | _ => infer_instance

instance (callee arguments : Ref) (receiver : Option Ref) :
    UpTo stop (Library.call ⟨host, c, call⟩ callee arguments receiver)
      (Library.call ⟨host, c, call'⟩ callee arguments receiver) := by
  unfold Library.call
  refine .bind inferInstance fun v => ?_
  cases v with
  | list items =>
    refine .bind inferInstance fun _ => .bind inferInstance fun v => ?_
    dsimp only
    cases v <;> infer_instance
  | _ => infer_instance

instance (b : Builtin) (arguments : List Ref) :
    UpTo stop (Library.runBuiltin ⟨host, c, call⟩ b arguments)
      (Library.runBuiltin ⟨host, c, call'⟩ b arguments) := by
  unfold Library.runBuiltin
  split <;> infer_instance

end Natives

section Parts

variable {i i' : Interp} [h : i.UpTo stop i'] (c : Context)

instance (x : Expr) : UpTo stop (i.eval c x) (i'.eval c x) := h.eval c x

instance (s : Stmt) : UpTo stop (i.exec c s) (i'.exec c s) := h.exec c s

instance (handler : Handler) (arguments : List Ref) (receiver : Option Ref) :
    UpTo stop (i.call c handler arguments receiver) (i'.call c handler arguments receiver) :=
  h.call c handler arguments receiver

/-! ## Expressions -/

instance (xs : List Expr) : UpTo stop (evalAll i c xs) (evalAll i' c xs) := by
  induction xs with
  | nil => unfold evalAll; infer_instance
  | cons x rest ih => unfold evalAll; infer_instance

instance (xs : List Expr) : UpTo stop (evalItems i c xs) (evalItems i' c xs) := by
  induction xs with
  | nil => unfold evalItems; infer_instance
  | cons x rest ih => unfold evalItems; infer_instance

instance (entries : Table Ref) (xs : List (Expr × Expr)) :
    UpTo stop (evalEntries i c entries xs) (evalEntries i' c entries xs) := by
  induction xs generalizing entries with
  | nil => unfold evalEntries; infer_instance
  | cons x rest ih => unfold evalEntries; infer_instance

instance (scope : Option Scope) (name : String) (arguments : List Expr) :
    UpTo stop (evalCall host i c scope name arguments)
      (evalCall host i' c scope name arguments) := by
  unfold evalCall
  refine .bind inferInstance fun rs => .bind inferInstance fun found => ?_
  cases found with
  | some handler => infer_instance
  | none =>
    refine .bind inferInstance fun bound => ?_
    cases bound with
    | none => infer_instance
    | some r =>
      refine .bind inferInstance fun v => ?_
      cases v <;> infer_instance

instance (callee : Expr) : UpTo stop (evalCallee i c callee) (evalCallee i' c callee) := by
  unfold evalCallee
  cases callee <;> infer_instance

instance (callee : Expr) (arguments : List Expr) :
    UpTo stop (evalCallValue host i c callee arguments)
      (evalCallValue host i' c callee arguments) := by
  unfold evalCallValue
  infer_instance

instance (x : Expr) : UpTo stop (evaluate host i c x) (evaluate host i' c x) := by
  unfold evaluate evalElement evalRange evalAnd evalOr evalBinary
  split <;> infer_instance

/-! ## Rows of statements and calls -/

instance (body : List Stmt) : UpTo stop (block i.exec c body) (block i'.exec c body) := by
  induction body with
  | nil => unfold block; infer_instance
  | cons s rest ih =>
    unfold block
    have (signal : Signal) : UpTo stop
        (match signal with
          | .normal => block i.exec c rest
          | signal => return signal)
        (match signal with
          | .normal => block i'.exec c rest
          | signal => return signal) := by
      cases signal <;> infer_instance
    infer_instance

instance (f : Function) (frame : FrameId) (parameters : List String) (arguments : List Ref) :
    UpTo stop (bindParameters i.eval f frame parameters arguments)
      (bindParameters i'.eval f frame parameters arguments) := by
  induction parameters generalizing arguments with
  | nil => unfold bindParameters; infer_instance
  | cons p rest ih =>
    unfold bindParameters
    cases arguments.head? with
    | some r => infer_instance
    | none => cases f.defaults.find? p <;> infer_instance

instance (f : Function) (frame : FrameId) (arguments : List Ref) :
    UpTo stop (bindArguments i.eval f frame arguments)
      (bindArguments i'.eval f frame arguments) := by
  unfold bindArguments
  infer_instance

instance [UpTo stop m m'] (entry : CallEntry) : UpTo stop (within entry m) (within entry m') := by
  unfold within
  infer_instance

instance (id : FunctionId) (arguments : List Ref) (receiver : Option Ref) :
    UpTo stop (callDefined i id arguments receiver) (callDefined i' id arguments receiver) := by
  unfold callDefined
  refine .bind inferInstance fun e => ?_
  cases e.function? id <;> infer_instance

instance (handler : Handler) (arguments : List Ref) (receiver : Option Ref) :
    UpTo stop (callHandler host i c handler arguments receiver)
      (callHandler host i' c handler arguments receiver) := by
  unfold callHandler callNative
  cases handler with
  | host name => dsimp only; cases host.function? name <;> infer_instance
  | _ => infer_instance

/-! ## Statements -/

instance (values : List Expr) : UpTo stop (echo i c values) (echo i' c values) := by
  unfold echo
  infer_instance

instance (otherwise : List Stmt) (cases : List (Expr × List Stmt)) :
    UpTo stop (branch i c otherwise cases) (branch i' c otherwise cases) := by
  induction cases with
  | nil => unfold branch; infer_instance
  | cons first rest ih => unfold branch; infer_instance

/-- A loop goes on after a round, or it ends. -/
theorem UpTo.nextRound {m m' : Run Signal} (hm : UpTo stop m m') (signal : Signal) : UpTo stop
    (match signal with
      | .normal | .loopContinue => m
      | .loopBreak => return .normal
      | signal => return signal)
    (match signal with
      | .normal | .loopContinue => m'
      | .loopBreak => return .normal
      | signal => return signal) := by
  cases signal <;> infer_instance

theorem upTo_whileLoop (condition : Expr) (body : List Stmt) {n n' : Nat}
    (hn : n = n' ∨ stop = .exhausted ∧ n ≤ n') :
    UpTo stop (whileLoop i c condition body n) (whileLoop i' c condition body n') := by
  induction n generalizing n' with
  | zero =>
    rcases hn with rfl | ⟨rfl, -⟩
    · unfold whileLoop
      infer_instance
    · exact ⟨fun e => .inr ⟨e, rfl⟩⟩
  | succ n ih =>
    have hpos : n + 1 ≤ n' := hn.elim Nat.le_of_eq fun h => h.2
    obtain ⟨k, rfl⟩ := Nat.exists_eq_add_of_lt hpos
    have hrest := @ih (n + k) (hn.imp (fun h => by omega) fun h => ⟨h.1, by omega⟩)
    have := hrest.nextRound
    unfold whileLoop
    infer_instance

instance (bindItem : Ref → Run Unit) (body : List Stmt) (items : List Ref) :
    UpTo stop (forEach i c bindItem body items) (forEach i' c bindItem body items) := by
  induction items with
  | nil => unfold forEach; infer_instance
  | cons r rest ih =>
    have := ih.nextRound
    unfold forEach
    infer_instance

instance (target : Expr) (definition : Procedure Stmt) :
    UpTo stop (defineInDictionary i c target definition)
      (defineInDictionary i' c target definition) := by
  unfold defineInDictionary defineEntry
  cases target with
  | index container key =>
    refine .bind inferInstance fun d => .bind inferInstance fun v => ?_
    cases v <;> infer_instance
  | _ => infer_instance

instance (value : Option Expr) : UpTo stop (giveBack i c value) (giveBack i' c value) := by
  unfold giveBack
  cases value <;> infer_instance

instance (value : Expr) : UpTo stop (throwText i c value) (throwText i' c value) := by
  unfold throwText
  infer_instance

instance (err : ScriptError) (body : List Stmt) :
    UpTo stop (catchBlock i c err body) (catchBlock i' c err body) := by
  unfold catchBlock
  infer_instance

instance (body : List Stmt) : UpTo stop (finalBlock i c body) (finalBlock i' c body) := by
  unfold finalBlock
  infer_instance

section Try

variable [hstop : stop.Fatal]

theorem upTo_attempt (body : List Stmt) (catches : List (String × List Stmt)) (e : Engine) :
    attempt i c body catches e = attempt i' c body catches e ∨
      ∃ e', attempt i c body catches e = .ok (.error stop) e' := by
  have hbody : UpTo stop (block i.exec c body) (block i'.exec c body) := inferInstance
  unfold attempt
  simp only [Bind.bind, EStateM.bind]
  rcases hbody.outcome e with heq | ⟨e', hgives⟩
  · rw [heq]
    cases outcome (block i'.exec c body) e with
    | error other e₁ => exact .inl rfl
    | ok ended e₁ =>
      dsimp only
      split
      · refine (UpTo.bind (.of_eq rfl) fun found => ?_).outcome e₁
        cases found <;> infer_instance
      · exact .inl rfl
  · rw [hgives]
    refine .inr ⟨e', ?_⟩
    obtain rfl | ⟨failure, rfl⟩ := hstop.eq_exhausted_or <;> rfl

instance (body : List Stmt) (catches : List (String × List Stmt)) (final : Option (List Stmt)) :
    UpTo stop (tryCatch i c body catches final) (tryCatch i' c body catches final) := by
  unfold tryCatch
  refine .bind_ended (upTo_attempt c body catches) (fun ended => ?_) ?_
  · split <;> infer_instance
  · obtain rfl | ⟨failure, rfl⟩ := hstop.eq_exhausted_or <;> rfl

end Try

instance {f f' : Expr → Run Unit} [∀ x, UpTo stop (f x) (f' x)] (targets : List Expr) :
    UpTo stop (toEach f targets) (toEach f' targets) := by
  induction targets with
  | nil => unfold toEach; infer_instance
  | cons x rest ih => unfold toEach; infer_instance

instance {m m' : Run Unit} [UpTo stop m m'] : UpTo stop (proceeding m) (proceeding m') := by
  unfold proceeding
  infer_instance

instance (x : Expr) : UpTo stop (discard (i.eval c x)) (discard (i'.eval c x)) :=
  inferInstanceAs (UpTo stop (i.eval c x >>= fun _ => pure PUnit.unit)
    (i'.eval c x >>= fun _ => pure PUnit.unit))

/-- Only a try statement sees a run stop. -/
theorem upTo_execute {s : Stmt} (hs : s.isTry = false) :
    UpTo stop (execute i c s) (execute i' c s) := by
  unfold execute
  cases s with
  | whileLoop condition body => exact upTo_whileLoop c condition body h.rounds
  | tryCatch => cases hs
  | _ => infer_instance

instance [stop.Fatal] (s : Stmt) : UpTo stop (execute i c s) (execute i' c s) := by
  cases s with
  | tryCatch =>
    unfold execute
    infer_instance
  | _ => exact upTo_execute c rfl

end Parts

/-- An alarm is a way to give up. -/
instance (hit : Engine → Bool) [hm : UpTo .alarm m m'] : UpTo .alarm (watched hit m) m' := by
  refine ⟨fun e => ?_⟩
  unfold watched
  cases hit e with
  | true => exact .inr ⟨e, rfl⟩
  | false => exact hm.eq_or e

instance (hit : Engine → Bool) [hm : UpTo stop m m'] :
    UpTo stop (watched hit m) (watched hit m') := by
  refine ⟨fun e => ?_⟩
  unfold watched
  cases hit e with
  | true => exact .inl rfl
  | false => exact hm.eq_or e

end Run

/-! ## Interpreters -/

namespace Interp

/-- With more fuel, a run that is not exhausted stays as it is, also when it is watched. -/
theorem upTo_watching_of_le (host : Host) (hit : Task → Engine → Bool) {fuel fuel' : Nat}
    (h : fuel ≤ fuel') : (watching host hit fuel).UpTo .exhausted (watching host hit fuel') := by
  induction fuel generalizing fuel' with
  | zero =>
    have hspent {α : Type} (m : Run α) : Run.UpTo .exhausted (throw .exhausted) m :=
      ⟨fun e => .inr ⟨e, rfl⟩⟩
    exact ⟨.inr ⟨rfl, Nat.zero_le _⟩, fun _ _ => hspent _, fun _ _ => hspent _,
      fun _ _ _ _ => hspent _⟩
  | succ fuel ih =>
    obtain ⟨k, rfl⟩ := Nat.exists_eq_add_of_lt h
    have hle : fuel ≤ fuel + k := Nat.le_add_right fuel k
    have := ih hle
    refine ⟨.inr ⟨rfl, hle⟩, fun c x => ?_, fun c s => ?_, fun c h arguments receiver => ?_⟩
    all_goals
      simp only [watching]
      infer_instance

theorem upTo_ofFuel (host : Host) {fuel fuel' : Nat} (h : fuel ≤ fuel') :
    (ofFuel host fuel).UpTo .exhausted (ofFuel host fuel') := by
  simpa only [watching_never] using upTo_watching_of_le host (fun _ _ => false) h

theorem upTo_watching (host : Host) (hit : Task → Engine → Bool) (fuel : Nat) :
    (watching host hit fuel).UpTo .alarm (ofFuel host fuel) := by
  induction fuel with
  | zero =>
    exact ⟨.inl rfl, fun _ _ => .of_eq rfl, fun _ _ => .of_eq rfl, fun _ _ _ _ => .of_eq rfl⟩
  | succ fuel ih =>
    refine ⟨.inl rfl, fun c x => ?_, fun c s => ?_, fun c h arguments receiver => ?_⟩
    all_goals
      simp only [watching, ofFuel]
      infer_instance

end Interp

namespace Session

open Run

section Steps

variable {i i' : Interp} (h : i.UpTo stop i') (c : Context)

include h

theorem evaluate_eq_of_upTo {x : Expr} {e : Engine}
    (hrun : ∀ e', i.eval c x (prepare e) ≠ .error stop e') :
    evaluate i c x e = evaluate i' c x e := by
  unfold evaluate
  rcases (h.eval c x).eq_or (prepare e) with heq | ⟨e', hgives⟩
  · rw [heq]
  · exact absurd hgives (hrun e')

variable [hstop : stop.Fatal]

include hstop

theorem upTo_unit (body : List Stmt) : UpTo stop (unit i c body) (unit i' c body) := by
  have hbody : UpTo stop (block i.exec c body) (block i'.exec c body) := inferInstance
  unfold unit
  refine .bind_ended hbody.outcome (fun ended => .of_eq rfl) ?_
  obtain rfl | ⟨failure, rfl⟩ := hstop.eq_exhausted_or <;> rfl

theorem run_eq_of_upTo {body : List Stmt} {e : Engine}
    (hrun : ∀ e', unit i c body (prepare e) ≠ .error stop e') :
    run i c body e = run i' c body e := by
  unfold run
  rcases (upTo_unit h c body).eq_or (prepare e) with heq | ⟨e', hgives⟩
  · rw [heq]
  · exact absurd hgives (hrun e')

/-- What is asked for and does not give up ends the same. -/
theorem Request.perform_eq_of_upTo {e : Engine} {r : Request}
    (hr : (r.perform i e).1.outcome ≠ .error stop) : r.perform i e = r.perform i' e := by
  have hrun {c : Context} {body : List Stmt} {e : Engine}
      (hr : (Session.run i c body e).1.outcome ≠ .error stop) :
      Session.run i c body e = Session.run i' c body e := by
    refine run_eq_of_upTo h c fun e' hgives => hr ?_
    unfold Session.run
    rw [hgives]
    rfl
  cases r with
  | run c body => exact hrun hr
  | source name body => exact hrun hr
  | evaluate c x =>
    refine evaluate_eq_of_upTo h c fun e' hgives => hr ?_
    change (Session.evaluate i c x e).1.outcome = .error stop
    unfold Session.evaluate
    rw [hgives]
    obtain rfl | ⟨failure, rfl⟩ := hstop.eq_exhausted_or <;> rfl

end Steps

/-! ## Watching in vain -/

/-- A run that rules out alarms, and that is watched, is as if nobody watched it. -/
theorem Request.perform_watching_of_obeysIn {D : Discipline host} {T : Trees}
    {hit : Task → Engine → Bool} {fuel : Nat} {e : Engine} {r : Request}
    (hobeys : (Interp.watching host hit fuel).ObeysIn D T (r.context e))
    (halarm : ¬D.admits .alarm) (hr : r.Judged T) (he : D.holds (r.start e)) :
    r.perform (.watching host hit fuel) e = r.perform (.ofFuel host fuel) e := by
  have hupTo := Interp.upTo_watching host hit fuel
  have hrun {c : Context} (hobeys : (Interp.watching host hit fuel).ObeysIn D T c)
      {body : List Stmt} {e : Engine} (hbody : T.body .top body) (he : D.holds (prepare e)) :
      Session.run (.watching host hit fuel) c body e =
        Session.run (.ofFuel host fuel) c body e := by
    refine run_eq_of_upTo hupTo c fun e' hgives => ?_
    have hunit := (keeps_unit hobeys hbody).allows (prepare e) he (D.refl _)
    simp only [Reaches, hgives] at hunit
    exact halarm hunit.2
  cases r with
  | run c body => exact hrun hobeys hr he
  | source name body => exact hrun hobeys hr he
  | evaluate c x =>
    have hobeys : (Interp.watching host hit fuel).ObeysIn D T c := hobeys
    refine evaluate_eq_of_upTo hupTo c fun e' hgives => ?_
    have heval := (hobeys.eval x hr).allows (prepare e) he (D.refl _)
    simp only [Reaches, hgives] at heval
    exact halarm heval.2

theorem Request.perform_watching_of_obeys {D : Discipline host} {T : Trees}
    {hit : Task → Engine → Bool} {fuel : Nat} (hobeys : (Interp.watching host hit fuel).Obeys D T)
    (halarm : ¬D.admits .alarm) {e : Engine} {r : Request} (hr : r.Judged T)
    (he : D.holds (r.start e)) :
    r.perform (.watching host hit fuel) e = r.perform (.ofFuel host fuel) e :=
  perform_watching_of_obeysIn (hobeys.obeysIn _) halarm hr he

/-- What a discipline rules out is not seen in any step of a run that keeps to it. -/
theorem Request.perform_watching {D : Discipline host} {T : Trees} (hu : D.Uniform T)
    (hhost : D.strict → host.functions = []) (halarm : ¬D.admits .alarm)
    {hit : Task → Engine → Bool}
    (hhit : ∀ task e, task.Judged D T e → D.holds e → hit task e = false) (fuel : Nat) {e : Engine}
    {r : Request} (hr : r.Judged T) (he : D.holds (r.start e)) :
    r.perform (.watching host hit fuel) e = r.perform (.ofFuel host fuel) e := by
  have hobeys : (Interp.watching host hit fuel).Obeys D T := by
    refine Interp.obeys_watching hu hhost (fun task e htask he h => ?_) fuel
    rw [hhit task e htask he] at h
    cases h
  exact perform_watching_of_obeys hobeys halarm hr he

end Session

end VimL
