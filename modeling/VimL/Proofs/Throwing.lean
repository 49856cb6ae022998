import VimL.Proofs.Unwinding

/-!
# Texts that a script throws

A script throws texts that do not begin like those of the engine. Such a text comes from a throw
statement, however many constructs it has passed; whatever else an error is, it shows a text that no
script can throw.
-/

namespace VimL

variable {host : Host}

/-! ## Throw statements -/

namespace Run

theorem throwText_eq (i : Interp) (c : Context) (x : Expr) :
    throwText i c x = ((do text (← i.eval c x)) >>= fun thrown =>
      if reservedStart.toList.isPrefixOf thrown.toList then raise .thrownPrefix
      else raise (.thrown thrown)) := by
  unfold throwText
  rw [bind_assoc]
  refine bind_congr fun r => bind_congr fun thrown => ?_
  split <;> rfl

end Run

open Run in
/-- A throw statement ends in this error: the text of its value, marked by the statement. -/
inductive Throws (host : Host) : Nat → Context → Stmt → Engine → ScriptError → Prop where
  | intro {fuel : Nat} {c : Context} {x : Expr} {e e' : Engine} {thrown : String}
      (hvalue : (do text (← (Interp.ofFuel host fuel).eval c x)).Ends
        (e.record (.began c (.throw x))) (.ok thrown) e')
      (hown : ¬reservedStart.toList <+: thrown.toList) :
      Throws host (fuel + 1) c (.throw x) e
        ⟨.thrown thrown, some (Stmt.throw x).command, e'.throwpoint⟩

open Run in
theorem Throws.ends {fuel : Nat} {c : Context} {s : Stmt} {e : Engine} {err : ScriptError}
    (h : Throws host fuel c s e err) :
    ∃ e', ((Interp.ofFuel host fuel).exec c s).Ends e (.error (.error err)) e' := by
  cases h with
  | @intro fuel c x e e' thrown hvalue hown =>
    have hthrow : (throwText (.ofFuel host fuel) c x).Ends (e.record (.began c (.throw x)))
        (.error (.ofCause (.thrown thrown))) e' := by
      rw [throwText_eq]
      refine hvalue.bind ?_
      rw [if_neg fun h => hown (List.isPrefixOf_iff_prefix.1 h)]
      exact ends_error_iff.2 rfl
    exact ⟨e', Interp.exec_ends host (.throw x) hthrow⟩

/-- Of the errors that a script has thrown, those that are marked and that are as wanted are
admitted. -/
def Rules.throwing (wanted : ScriptError → Prop) : Rules where
  placed := False
  fits _ := True
  running _ _ _ := True
  admits stop := ∀ err, stop = .error err → err.cause.isThrown = true →
    err.command.isSome = true ∧ wanted err
  retired h := h
  error _ hcause err heq hthrown := by
    obtain rfl := Stop.error.inj heq
    simp [hcause] at hthrown
  mark {stop} h command throwpoint err heq hthrown := by
    cases stop with
    | error own =>
      obtain rfl := Stop.error.inj heq
      rw [ScriptError.cause_mark] at hthrown
      obtain ⟨hmarked, hwanted⟩ := h own rfl hthrown
      rw [ScriptError.mark_of_isSome hmarked]
      exact ⟨hmarked, hwanted⟩
    | _ => cases heq
  finished _ h := nomatch h
  internal _ _ h := nomatch h

namespace Discipline

variable {wanted : ScriptError → Prop}

theorem holds_throwing (e : Engine) : (restoring host (.throwing wanted)).holds e :=
  ⟨fun _ _ _ => trivial, trivial⟩

theorem coversExpr_throwing (x : Expr) :
    Trees.any.CoversExpr (restoring host (.throwing wanted)) x :=
  Trees.coversExpr_any id (fun _ => trivial) x

theorem coversStmt_throwing (z : Zone) {s : Stmt} (hs : s.isThrow = false) :
    Trees.any.CoversStmt (restoring host (.throwing wanted)) z s :=
  Trees.coversStmt_any id (fun _ => trivial) id z (fun _ _ h => nomatch h)
    fun hthrow => absurd (hs.symm.trans hthrow) Bool.false_ne_true

theorem opens_throwing (entry : CallEntry) :
    (restoring host (.throwing wanted)).Opens (restoring host (.throwing wanted)) entry :=
  opens_restoring id rfl (fun _ _ _ => trivial) id

end Discipline

namespace Interp

open Discipline

/-- Every text of the script that leaves a step is marked. -/
theorem obeys_marking (host : Host) (fuel : Nat) :
    (ofFuel host fuel).Obeys (.restoring host (.throwing fun _ => True)) .any := by
  induction fuel with
  | zero => exact obeys_spent fun _ h => nomatch h
  | succ fuel ih =>
    refine ⟨fun c x _ => Run.keeps_evaluate c ih (coversExpr_throwing x),
      fun e c z s _ _ hpending => ?_, fun e c h arguments receiver hh => ?_⟩
    · have hquiet := (obeys_quiet host (fuel + 1)).exec e c z s trivial False.elim hpending
      refine hquiet.transfer (fun _ => ⟨fun _ _ _ => trivial, trivial⟩) (fun _ h => h) ?_
      rintro _ e' hends - err rfl -
      exact ⟨exec_error_marked host (fuel + 1) c s e err e' hends, trivial⟩
    · exact ih.allows_callHandler opens_throwing (fun _ => Trees.callable_any _) False.elim
        False.elim e c h arguments (.of_none id id) receiver hh

/-- If the steps that are not watched for end in wanted errors only, so do the others. -/
theorem obeys_watched_throwing {fuel : Nat} {hit : Task → Engine → Bool}
    {wanted : ScriptError → Prop}
    (hwanted : ∀ t e err e', hit t e = false → t.Starts e →
      t.Stops (ofFuel host fuel) e (.error err) e' → wanted err) :
    ((ofFuel host fuel).watched hit).Obeys (.restoring host (.throwing wanted)) .any := by
  have hobeys := obeys_marking host fuel
  have halarm : (Rules.throwing wanted).admits .alarm := fun _ h => nomatch h
  have hadmits {stop : Stop} (h : (Rules.throwing fun _ => True).admits stop)
      (hown : ∀ err, stop = .error err → wanted err) : (Rules.throwing wanted).admits stop :=
    fun err heq hthrown => ⟨(h err heq hthrown).1, hown err heq⟩
  refine ⟨fun c x hx => ⟨fun e => .watched (fun _ _ => halarm) fun hfree => ?_⟩,
    fun e c z s hs hc hpending => .watched (fun _ _ => halarm) fun hfree => ?_,
    fun e c h arguments receiver hh => .watched (fun _ _ => halarm) fun hfree => ?_⟩
  · refine ((hobeys.eval c x hx).allows e).transfer id (fun _ h => h) fun stop e' hends hstop => ?_
    refine hadmits hstop ?_
    rintro err rfl
    exact hwanted (.eval c x) e err e' hfree trivial hends
  · refine (hobeys.exec e c z s hs hc hpending).transfer id (fun _ h => h)
      fun stop e' hends hstop => hadmits hstop ?_
    rintro err rfl
    exact hwanted (.exec c s) e err e' hfree hpending hends
  · refine (hobeys.call e c h arguments receiver ⟨hh.known, hh.alive⟩).transfer id (fun _ h => h)
      fun stop e' hends hstop => hadmits hstop ?_
    rintro err rfl
    exact hwanted (.call c h arguments receiver) e err e' hfree trivial hends

end Interp

/-! ## Where such a text comes from -/

namespace Task

variable {fuel : Nat} {err : ScriptError} {t : Task} {e e' : Engine} {i : Interp}

/-- A step ends in a text of the script only if one of its parts does, a throw statement apart. -/
theorem Stops.wanted_above {wanted : ScriptError → Prop}
    (hi : i.Obeys (.restoring host (.throwing wanted)) .any)
    (h : t.Stops (i.above host) e (.error err) e') (hstarts : t.Starts e)
    (hthrow : t.isThrow = false) (hthrown : err.cause.isThrown = true) : wanted err := by
  have he : (Discipline.restoring host (.throwing wanted)).holds e := Discipline.holds_throwing e
  have hwanted (h : (Rules.throwing wanted).admits (.error err)) : wanted err :=
    (h err rfl hthrown).2
  cases t with
  | eval c x =>
    have hkeeps := Run.keeps_evaluate c hi (Discipline.coversExpr_throwing x)
    exact hwanted ((hkeeps.allows e).admits he h)
  | exec c s =>
    have hstart := Run.allows_start c hi (Discipline.coversStmt_throwing .top hthrow) False.elim
      (fun _ => trivial) hstarts
    exact hwanted ((hstart.marked s.command).admits he h)
  | call c handler arguments receiver =>
    have hcall := hi.allows_callHandler Discipline.opens_throwing (fun _ => Trees.callable_any _)
      False.elim False.elim e c handler arguments (.of_none id id) receiver
      ⟨False.elim, False.elim⟩
    exact hwanted (hcall.admits he h)

end Task

namespace Interp

variable {fuel : Nat} {err : ScriptError} {t : Task} {e e' : Engine}

open Classical in
/-- To watch for the steps that end in this error. -/
noncomputable def failing (host : Host) (fuel : Nat) (err : ScriptError) (t : Task) (e : Engine) :
    Bool :=
  t.Starts e ∧ ∃ e', t.Stops (ofFuel host fuel) e (.error err) e'

theorem failing_eq_true_iff : failing host fuel err t e = true ↔
    t.Starts e ∧ ∃ e', t.Stops (ofFuel host fuel) e (.error err) e' := by
  simp [failing]

/-- Where the steps that end in this error are stopped, the others do not end in it. -/
theorem obeys_failing (host : Host) (fuel : Nat) (err : ScriptError) :
    ((ofFuel host fuel).watched (failing host fuel err)).Obeys
      (.restoring host (.throwing (· ≠ err))) .any := by
  refine obeys_watched_throwing fun t e own e' hfree hstarts hstops => ?_
  rintro rfl
  rw [failing_eq_true_iff.2 ⟨hstarts, e', hstops⟩] at hfree
  cases hfree

end Interp

namespace Passes

open Interp

variable {fuel : Nat} {err : ScriptError} {e e' : Engine}

/-- The error passes from the throw statements that end in it. -/
abbrev FromThrow (host : Host) (err : ScriptError) : Nat → Construct → Engine → Prop :=
  Passes host err fun fuel c s e => Throws host fuel c s e err

variable (hthrown : err.cause.isThrown = true)

include hthrown

open Run in
/-- Where the steps that end in the error are stopped, the value of a throw statement does not end
in it. -/
theorem mark_ne_of_value {i : Interp} (hi : i.Obeys (.restoring host (.throwing (· ≠ err))) .any)
    {c : Context} {x : Expr} {stop : Stop}
    (hvalue : (do text (← i.eval c x)).Ends e (.error stop) e') (command throwpoint : String) :
    stop.mark command throwpoint ≠ .error err := by
  intro heq
  have : Keeps (.restoring host (.throwing (· ≠ err))) (i.eval c x) := hi.eval c x trivial
  have hkeeps : Keeps (.restoring host (.throwing (· ≠ err))) (do text (← i.eval c x)) :=
    inferInstance
  have hadmits := (hkeeps.allows e).admits (Discipline.holds_throwing e) hvalue
  cases stop with
  | error own =>
    obtain rfl : own.mark command throwpoint = err := Stop.error.inj heq
    rw [ScriptError.cause_mark] at hthrown
    obtain ⟨hown, hne⟩ := hadmits own rfl hthrown
    exact hne (ScriptError.mark_of_isSome hown _ _).symm
  | _ => cases heq

open Run in
/-- What a throw statement makes of a text is the error only if scripts may throw the text. -/
theorem throws_of_value {c : Context} {x : Expr} {thrown : String} {stop : Stop}
    (hvalue : (do text (← (ofFuel host fuel).eval c x)).Ends (e.record (.began c (.throw x)))
      (.ok thrown) e')
    (hraised : (if reservedStart.toList.isPrefixOf thrown.toList then raise .thrownPrefix
      else raise (.thrown thrown) : Run Signal).Ends e' (.error stop) e')
    (hstop : stop.mark (Stmt.throw x).command e'.throwpoint = .error err) :
    Throws host (fuel + 1) c (.throw x) e err := by
  by_cases hprefix : reservedStart.toList.isPrefixOf thrown.toList = true
  · rw [if_pos hprefix] at hraised
    cases hraised
    cases hstop
    cases hthrown
  · rw [if_neg hprefix] at hraised
    cases hraised
    obtain rfl : ScriptError.mark _ _ _ = err := Stop.error.inj hstop
    exact .intro hvalue fun h => hprefix (List.isPrefixOf_iff_prefix.2 h)

open Run in
/-- The value of a throw statement that ends in the error does not end in it. -/
theorem throws_of_above {c : Context} {x : Expr}
    (h : (Task.exec c (.throw x)).Stops
      (((ofFuel host fuel).watched (failing host fuel err)).above host) e (.error err) e') :
    Throws host (fuel + 1) c (.throw x) e err := by
  let i := (ofFuel host fuel).watched (failing host fuel err)
  let start := e.record (.began c (.throw x))
  have hmarked {stop : Stop} {e₁ : Engine}
      (hthrow : (throwText i c x).Ends start (.error stop) e₁) :
      stop.mark (Stmt.throw x).command e₁.throwpoint = .error err :=
    Except.error.inj ((exec_ends host (.throw x) hthrow).unique h).1
  rw [throwText_eq] at hmarked
  obtain ⟨ended, e₁, hvalue⟩ := exists_ends (do text (← i.eval c x)) start
  cases ended with
  | error stop =>
    have hne := mark_ne_of_value hthrown (obeys_failing host fuel err) hvalue
    exact absurd (hmarked hvalue.bind_error) (hne _ _)
  | ok thrown =>
    have hupTo := upTo_watched (failing host fuel err) (ofFuel host fuel)
    have hsame : UpTo .alarm (do text (← i.eval c x)) (do text (← (ofFuel host fuel).eval c x)) :=
      inferInstance
    let raised : Cause :=
      if reservedStart.toList.isPrefixOf thrown.toList then .thrownPrefix else .thrown thrown
    have hraised : (if reservedStart.toList.isPrefixOf thrown.toList then raise .thrownPrefix
        else raise (.thrown thrown) : Run Signal).Ends e₁ (.error (.ofCause raised)) e₁ := by
      simp only [raised]
      split <;> exact ends_error_iff.2 rfl
    exact throws_of_value hthrown (hsame.ends_ok hvalue) hraised (hmarked (hvalue.bind hraised))

section Step

variable (hsteps : ∀ t e e', t.Starts e → t.Stops (ofFuel host fuel) e (.error err) e' →
  FromThrow host err fuel (.step t) e)

include hsteps

omit hthrown in
theorem of_failing {t : Task} (h : failing host fuel err t e = true) :
    FromThrow host err fuel (.step t) e := by
  obtain ⟨hstarts, e', hstops⟩ := failing_eq_true_iff.1 h
  exact hsteps t e e' hstarts hstops

theorem row_of_steps {c : Context} {body : List Stmt}
    (h : (Construct.row c body).Stops (ofFuel host fuel) e (.error err) e') :
    FromThrow host err fuel (.row c body) e := by
  rcases h.upTo (upTo_watched (failing host fuel err) _) with hown | ⟨e₁, halarm⟩
  · have hadmits := hown.admits (obeys_failing host fuel err) id id id (Discipline.holds_throwing e)
      trivial
    exact absurd rfl (hadmits err rfl hthrown).2
  · exact .row (fun _ _ h => of_failing hsteps h) halarm

/-- A step that is no try statement has come to a part that ends in the error, or it throws. -/
theorem step_of_steps {t : Task} (hstarts : t.Starts e) (htry : t.isTry = false)
    (h : t.Stops (ofFuel host (fuel + 1)) e (.error err) e') :
    FromThrow host err (fuel + 1) (.step t) e := by
  have hobeys := obeys_failing host fuel err
  rcases (Task.stops_ofFuel_succ.1 h).upTo_above (upTo_watched (failing host fuel err) _) htry with
    hown | ⟨e₁, halarm⟩
  · cases hthrow : t.isThrow with
    | false => exact absurd rfl (hown.wanted_above hobeys hstarts hthrow hthrown)
    | true =>
      cases t with
      | exec c s =>
        cases s with
        | throw x => exact .origin (throws_of_above hthrown hown)
        | _ => cases hthrow
      | _ => cases hthrow
  · exact .step (fun _ _ h => of_failing hsteps h) hstarts htry halarm

open Run in
/-- The error has left the body, a catch block or the final block. -/
theorem tryCatch_of_steps {c : Context} {body : List Stmt} {catches : List (String × List Stmt)}
    {final : Option (List Stmt)} (h : ((ofFuel host (fuel + 1)).exec c
      (.tryCatch body catches final)).Ends e (.error (.error err)) e') :
    FromThrow host err (fuel + 1) (.step (.exec c (.tryCatch body catches final))) e := by
  let start := e.record (.began c (.tryCatch body catches final))
  have hrow {body : List Stmt} {e e' : Engine}
      (h : (block (ofFuel host fuel).exec c body).Ends e (.error (.error err)) e') :
      FromThrow host err fuel (.row c body) e := row_of_steps hthrown hsteps h
  have hmarked := exec_error_marked host fuel c
  obtain ⟨ended, e₁, hends⟩ := exists_ends (tryCatch (ofFuel host fuel) c body catches final) start
  obtain ⟨heq, rfl⟩ := (exec_ends host (.tryCatch body catches final) hends).unique h
  obtain ⟨own, rfl⟩ : ∃ own, ended = .error (.error own) := by
    rcases ended with (own | _ | _ | _) | _
    case error.error => exact ⟨own, rfl⟩
    all_goals cases heq
  have herr : own.mark _ _ = err := Stop.error.inj (Except.error.inj heq)
  have hcause : own.cause.isThrown = true := by rwa [← herr, ScriptError.cause_mark] at hthrown
  obtain ⟨tried, e₂, htry, hcases⟩ := tryPart_of_error hends
  -- an error that has been marked already keeps its mark, so it is the one that was thrown
  have hown : own.command.isSome = true := by
    rcases hcases with ⟨rfl, -⟩ | ⟨-, b, -, e₃, hb⟩
    · rcases tryPart_error_marked hmarked htry with hown | ⟨clause, -, rfl⟩
      · exact hown
      · cases hcause
    · exact block_error_marked hmarked hb
  obtain rfl : own = err := by rw [← herr, ScriptError.mark_of_isSome hown]
  rcases hcases with ⟨rfl, hfinal⟩ | ⟨hvisible, b, rfl, e₃, hb⟩
  · cases htry with
    | passed hbody hended => exact absurd rfl (hended own)
    | uncaught hbody hnone =>
      cases hnone with
      | none hmiss => exact .tried (hrow hbody) hmiss fun e₃ hb => (hbody.unique hb).2 ▸ hfinal
    | caught hbody hfound hclause =>
      exact .caught hbody hfound (hrow hclause) fun e₃ hb => (hclause.unique hb).2 ▸ hfinal
    | unreadable hbody hstop =>
      cases hstop with
      | malformed => cases hcause
  · exact .final htry hvisible (hrow hb)

end Step

theorem step_of_stops (fuel : Nat) (t : Task) (e e' : Engine) (hstarts : t.Starts e)
    (h : t.Stops (ofFuel host fuel) e (.error err) e') :
    FromThrow host err fuel (.step t) e := by
  induction fuel generalizing t e e' with
  | zero => cases t <;> cases Run.ends_error_iff.1 h
  | succ fuel ih =>
    cases htry : t.isTry with
    | false => exact step_of_steps hthrown ih hstarts htry h
    | true =>
      cases t with
      | exec c s =>
        cases s with
        | tryCatch body catches final => exact tryCatch_of_steps hthrown ih h
        | _ => cases htry
      | _ => cases htry

/-- A text of the script comes from a throw statement. -/
theorem of_stops {p : Construct} (hstarts : p.Starts e)
    (h : p.Stops (ofFuel host fuel) e (.error err) e') : FromThrow host err fuel p e := by
  have hsteps : ∀ t e e', t.Starts e → t.Stops (ofFuel host fuel) e (.error err) e' →
      FromThrow host err fuel (.step t) e := step_of_stops hthrown fuel
  cases p with
  | step t => exact hsteps t e e' hstarts h
  | row c body => exact row_of_steps hthrown hsteps h

end Passes

/-! ## Texts of exceptions -/

namespace ScriptError

variable {err : ScriptError}

/-- What the engine raises itself shows a text that no script can throw. -/
theorem reserved_of_not_thrown (h : err.cause.isThrown = false) :
    Run.reservedStart.toList <+: err.exceptionText.toList := by
  unfold exceptionText
  split
  · rename_i heq
    simp [heq] at h
  · split
    · simp [Run.reservedStart, String.toList_append]
    · simp [Run.reservedStart, String.toList_append]

/-- An error passes from a throw statement only if its text is the script's own. -/
theorem not_reserved_of_fromThrow {fuel : Nat} {p : Construct} {e : Engine}
    (h : Passes.FromThrow host err fuel p e) :
    ¬Run.reservedStart.toList <+: err.exceptionText.toList := by
  obtain ⟨_, _, _, _, hthrows⟩ := h.exists_origin
  cases hthrows with
  | intro hvalue hown => exact hown

theorem reserved_iff {fuel : Nat} {p : Construct} {e : Engine}
    (h : err.cause.isThrown = true → Passes.FromThrow host err fuel p e) :
    Run.reservedStart.toList <+: err.exceptionText.toList ↔
      ¬Passes.FromThrow host err fuel p e := by
  refine ⟨fun hreserved hpasses => not_reserved_of_fromThrow hpasses hreserved, fun hnone => ?_⟩
  refine reserved_of_not_thrown (Bool.eq_false_iff.2 fun hthrown => ?_)
  exact hnone (h hthrown)

end ScriptError

/-! ## Sessions -/

namespace Session

variable {i : Interp} {err : ScriptError} {e : Engine}

open Run in
/-- A break or continue that is left over is no text of the script. -/
theorem row_of_unit {c : Context} {body : List Stmt} {e' : Engine}
    (h : (unit i c body).Ends e (.error (.error err)) e') (hthrown : err.cause.isThrown = true) :
    (Construct.row c body).Stops i e (.error err) e' := by
  obtain ⟨ended, e₁, hblock⟩ := exists_ends (block i.exec c body) e
  have hstray {stop : Stop} (hunit : (unit i c body).Ends e (.error stop) e₁) :
      stop = .error err ∧ e₁ = e' := by
    obtain ⟨heq, he⟩ := hunit.unique h
    exact ⟨Except.error.inj heq, he⟩
  have hnormal (hunit : (unit i c body).Ends e (.ok ()) e₁) : False := by
    cases (hunit.unique h).1
  rcases ended with stop | signal
  · cases stop with
    | finished => exact (hnormal ((outcome_ends hblock).bind (ends_ok_iff.2 rfl))).elim
    | _ =>
      obtain ⟨heq, rfl⟩ := hstray ((outcome_ends hblock).bind (ends_error_iff.2 rfl))
      exact heq ▸ hblock
  · cases signal with
    | loopBreak | loopContinue =>
      obtain ⟨heq, -⟩ := hstray ((outcome_ends hblock).bind (ends_error_iff.2 rfl))
      obtain rfl := Stop.error.inj heq
      cases hthrown
    | _ => exact (hnormal ((outcome_ends hblock).bind (ends_ok_iff.2 rfl))).elim

namespace Request

/-- What a request runs, as a construct. -/
def construct (e : Engine) : Request → Construct
  | .run c body => .row c body
  | .source name body => .row (scriptContext (newScript name e).1) body
  | .evaluate c x => .step (.eval c x)

/-- A text of the script that is reported has left the whole construct. -/
theorem construct_stops {r : Request} (h : (r.perform i e).1.outcome = .error (.error err))
    (hthrown : err.cause.isThrown = true) :
    ∃ e', (r.construct e).Stops i (r.start e) (.error err) e' := by
  have hrun {c : Context} {body : List Stmt} {e : Engine}
      (h : (Session.run i c body e).1.outcome = .error (.error err)) :
      ∃ e', (Construct.row c body).Stops i (prepare e) (.error err) e' := by
    unfold Session.run at h
    split at h
    · cases h
    · rename_i stop e₁ hunit
      obtain rfl : stop = .error err := Except.error.inj h
      exact ⟨e₁, row_of_unit (Run.ends_error_iff.2 hunit) hthrown⟩
  cases r with
  | run c body => exact hrun h
  | source name body => exact hrun h
  | evaluate c x =>
    change (Session.evaluate i c x e).1.outcome = .error (.error err) at h
    unfold Session.evaluate at h
    split at h
    · cases h
    · cases h
    · rename_i stop e₁ _ heval
      obtain rfl : stop = .error err := Except.error.inj h
      exact ⟨e₁, Run.ends_error_iff.2 heval⟩

theorem starts_construct (r : Request) (e : Engine) : (r.construct e).Starts (r.start e) := by
  cases r <;> trivial

end Request

end Session

/-! ## Errors that leave -/

open Run in
/-- An error that leaves statements leaves every construct that it passes as it is, with its
cause, its command and its throwpoint, and so with its class, its message and its text. Of all
errors that leave a construct, or that a session reports, those show a text that begins like the
texts of the engine that have not passed from a throw statement that throws them. -/
theorem Construct.error_unaltered (host : Host) (err : ScriptError) :
    (∀ origin : Nat → Context → Stmt → Engine → Prop,
      (∀ fuel c s e, origin fuel c s e →
        ∃ e', ((Interp.ofFuel host fuel).exec c s).Ends e (.error (.error err)) e') →
      ∀ fuel (p : Construct) e, Passes host err origin fuel p e →
        ∃ e', p.Stops (.ofFuel host fuel) e (.error err) e') ∧
    (∀ fuel (p : Construct) e e', p.Starts e → p.Stops (.ofFuel host fuel) e (.error err) e' →
      (reservedStart.toList <+: err.exceptionText.toList ↔
        ¬Passes.FromThrow host err fuel p e)) ∧
    ∀ fuel (r : Session.Request) e,
      (r.perform (.ofFuel host fuel) e).1.outcome = .error (.error err) →
        (reservedStart.toList <+: err.exceptionText.toList ↔
          ¬Passes.FromThrow host err fuel (r.construct e) (r.start e)) := by
  refine ⟨fun origin horigin fuel p e h => h.stops horigin, fun fuel p e e' hstarts h => ?_,
    fun fuel r e h => ?_⟩
  · exact ScriptError.reserved_iff fun hthrown => .of_stops hthrown hstarts h
  · refine ScriptError.reserved_iff fun hthrown => ?_
    obtain ⟨e', hstops⟩ := Session.Request.construct_stops h hthrown
    exact .of_stops hthrown (r.starts_construct e) hstops

namespace Construct

/-- An engine in which a text can be thrown. -/
def armed : Engine := (Session.blank .standard).withHeap ⟨#[⟨.string "up", false, none, []⟩]⟩

def throwing : Stmt := .throw (.const ⟨0⟩)

/-- A try statement that does not catch. -/
def missing : Stmt := .tryCatch [throwing] [("down", [])] (some [])

def up : ScriptError := ⟨.thrown "up", some "throw", ""⟩

/-- To watch for the throw statement. -/
def atThrow (t : Task) (e : Engine) : Bool :=
  match t, e.heap.value ⟨0⟩, e.callStack with
  | .exec _ (.throw (.const ⟨0⟩)), .string text, [] => text == "up"
  | _, _, _ => false

theorem throws_of_atThrow {t : Task} {e : Engine} (h : atThrow t e = true) :
    Passes.FromThrow ⟨[]⟩ up 2 (.step t) e := by
  unfold atThrow at h
  split at h
  · rename_i c text hvalue hstack
    obtain rfl : text = "up" := by simpa using h
    let start := e.record (.began c throwing)
    have hup : (do Run.text (← (Interp.ofFuel ⟨[]⟩ 1).eval c (.const ⟨0⟩))).Ends start
        (.ok "up") start := by
      refine Run.ends_ok_iff.2 ?_
      change Run.settle (e.heap.value ⟨0⟩).toText start = _
      rw [hvalue]
      rfl
    have hpoint : start.throwpoint = "" := by
      simp [start, Engine.throwpoint, Engine.runningFunctions, Engine.record, hstack]
    have hthrows := Throws.intro hup (by decide)
    rw [hpoint] at hthrows
    exact .origin hthrows
  · cases h

theorem passes_missing : Passes.FromThrow ⟨[]⟩ up 3 (.step (.exec .commandLine missing)) armed := by
  have hbody : Passes.FromThrow ⟨[]⟩ up 2 (.row .commandLine [throwing])
      (armed.record (.began .commandLine missing)) := by
    have hstops : (Construct.row .commandLine [throwing]).Stops
        ((Interp.ofFuel ⟨[]⟩ 2).watched atThrow) (armed.record (.began .commandLine missing)) .alarm
        (armed.record (.began .commandLine missing)) := rfl
    exact .row (fun t e h => throws_of_atThrow h) hstops
  refine .tried hbody (fun clause hclause => ?_) fun e₁ _ b hb => ?_
  · obtain rfl := List.mem_singleton.1 hclause
    exact ⟨_, rfl, rfl⟩
  · obtain rfl := Option.some.inj hb
    exact ⟨_, rfl⟩

theorem error_unaltered_missing :
    Passes.FromThrow ⟨[]⟩ up 3 (.step (.exec .commandLine missing)) armed ∧
      (∃ e', ((Interp.ofFuel ⟨[]⟩ 3).exec .commandLine missing).Ends armed
        (.error (.error up)) e') ∧
      ¬Run.reservedStart.toList <+: up.exceptionText.toList := by
  obtain ⟨hleaves, htexts, -⟩ := error_unaltered ⟨[]⟩ up
  obtain ⟨e', hends⟩ := hleaves _ (fun _ _ _ _ h => h.ends) 3 _ armed passes_missing
  have htext := htexts 3 (.step (.exec .commandLine missing)) armed e' rfl hends
  exact ⟨passes_missing, ⟨e', hends⟩, fun hreserved => htext.1 hreserved passes_missing⟩

end Construct

end VimL
