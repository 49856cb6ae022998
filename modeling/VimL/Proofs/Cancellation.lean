import VimL.Proofs.FinalBlock
import VimL.Proofs.Runs.Sessions

/-!
# Cancellation

Once a cancellation is requested, a run only unwinds: no statement starts any more, except in the
final blocks of the statements that have begun and are not over. What was changed before stays
changed. In a history the latest event comes first.
-/

namespace VimL

/-! ## Histories -/

/-- Every final block in the history ends a statement that begins in it. -/
inductive Event.Balanced : List Event → Prop where
  | nil : Balanced []
  | began (c : Context) (s : Stmt) {events : List Event} (h : Balanced events) :
      Balanced (.began c s :: events)
  | cancelled (shown : Array Effect) {events : List Event} (h : Balanced events) :
      Balanced (.cancelled shown :: events)
  | final {c : Context} {body final : List Stmt} {catches : List (String × List Stmt)}
      {own inner events : List Event} (hinner : Balanced inner) (h : Balanced events) :
      Balanced (.final c final own ::
        (inner ++ .began c (.tryCatch body catches (some final)) :: events))

/-- The final blocks of statements that have begun and are not over, innermost first. -/
inductive Event.Entered : List Event → List (Context × List Stmt) → Prop where
  | nil {events : List Event} (h : Balanced events) : Entered events []
  | cons {c : Context} {body final : List Stmt} {catches : List (String × List Stmt)}
      {inner events : List Event} {pending : List (Context × List Stmt)} (hinner : Balanced inner)
      (h : Entered events pending) :
      Entered (inner ++ .began c (.tryCatch body catches (some final)) :: events)
        ((c, final) :: pending)

namespace Event

/-- No statement starts, except in final blocks. -/
def Quiet (events : List Event) : Prop := ∀ c s, .began c s ∉ events

/-- The final blocks that have run, the latest first. -/
def finals (events : List Event) : List (Context × List Stmt) :=
  events.filterMap fun
    | .final c body _ => some (c, body)
    | _ => none

variable {events events' before after : List Event}

theorem Balanced.append (h : Balanced events) (h' : Balanced events') :
    Balanced (events ++ events') := by
  induction h with
  | nil => exact h'
  | began c s _ ih => exact .began c s ih
  | cancelled shown _ ih => exact .cancelled shown ih
  | final hinner _ _ ih =>
    rw [List.cons_append, List.append_assoc]
    exact .final hinner ih

theorem Entered.append_began {pending : List (Context × List Stmt)} (h : Entered before pending)
    (hevents : Balanced events) (c : Context) (body final : List Stmt)
    (catches : List (String × List Stmt)) :
    Entered (before ++ .began c (.tryCatch body catches (some final)) :: events)
      (pending ++ [(c, final)]) := by
  induction h with
  | nil h => exact .cons h (.nil hevents)
  | cons hinner _ ih =>
    rw [List.append_assoc, List.cons_append, List.cons_append]
    exact .cons hinner ih

/-- A part of a row without the beginning of a statement comes before any such beginning. -/
theorem exists_of_append_eq {inner : List Event} {c : Context} {s : Stmt} {shown : Array Effect}
    (hquiet : Quiet after)
    (h : inner ++ .began c s :: events = after ++ .cancelled shown :: before) :
    ∃ rest, inner = after ++ .cancelled shown :: rest ∧ before = rest ++ .began c s :: events := by
  rcases List.append_eq_append_iff.1 h with ⟨rest, hafter, hrest⟩ | ⟨rest, hinner, hrest⟩
  · cases rest with
    | nil => cases hrest
    | cons event rest =>
      obtain ⟨rfl, -⟩ := List.cons.inj hrest
      exact absurd (hafter ▸ List.mem_append_right _ List.mem_cons_self) (hquiet c s)
  · cases rest with
    | nil => cases hrest
    | cons event rest =>
      obtain ⟨rfl, hbefore⟩ := List.cons.inj hrest
      exact ⟨rest, hinner, hbefore⟩

/-- If nothing starts after a cancellation, then the final blocks that still run are those of
statements that had begun and were not over, innermost first, each of them once. -/
theorem Balanced.entered {shown : Array Effect}
    (h : Balanced (after ++ .cancelled shown :: before)) (hquiet : Quiet after) :
    Entered before (finals after).reverse := by
  generalize hrow : after ++ .cancelled shown :: before = row at h
  induction h generalizing after before with
  | nil => simp at hrow
  | began c s _ ih =>
    cases after with
    | nil => cases hrow
    | cons event after =>
      obtain ⟨rfl, -⟩ := List.cons.inj hrow
      exact absurd List.mem_cons_self (hquiet c s)
  | cancelled shown' h ih =>
    cases after with
    | nil =>
      obtain ⟨-, rfl⟩ := List.cons.inj hrow
      exact .nil h
    | cons event after =>
      obtain ⟨rfl, hrest⟩ := List.cons.inj hrow
      have hquiet' : Quiet after := fun c s hs => hquiet c s (List.mem_cons_of_mem _ hs)
      simpa [finals] using ih hquiet' hrest
  | @final c body final catches own inner events hinner h ih _ =>
    cases after with
    | nil => cases hrow
    | cons event after =>
      obtain ⟨rfl, hrest⟩ := List.cons.inj hrow
      have hquiet' : Quiet after := fun c s hs => hquiet c s (List.mem_cons_of_mem _ hs)
      -- nothing starts after the cancellation, so the statement of this block began before it
      obtain ⟨rest, hinside, rfl⟩ := exists_of_append_eq hquiet' hrest.symm
      have hentered := ih hquiet' hinside.symm
      simpa [finals] using hentered.append_began h c body final catches

end Event

/-! ## Unwinding -/

namespace Engine

variable {host : Host} {e e' e'' : Engine}

/-- What happens in a history that grows: every final block ends a statement that begins in it. -/
theorem Leads.balanced {P : Prop} (h : e.Leads host P e') :
    ∃ events, e'.history = events ++ e.history ∧ Event.Balanced events := by
  induction h with
  | refl => exact ⟨[], rfl, .nil⟩
  | change _ hchange ih =>
    obtain ⟨events, hhistory, hbalanced⟩ := ih
    exact ⟨events, hchange.history_eq.trans hhistory, hbalanced⟩
  | began _ c s _ ih =>
    obtain ⟨events, hhistory, hbalanced⟩ := ih
    exact ⟨_ :: events, congrArg _ hhistory, .began c s hbalanced⟩
  | cancelled _ ih =>
    obtain ⟨events, hhistory, hbalanced⟩ := ih
    exact ⟨_ :: events, congrArg _ hhistory, .cancelled _ hbalanced⟩
  | called _ entry _ ih hcall =>
    obtain ⟨events, hhistory, hbalanced⟩ := ih
    obtain ⟨inner, hinner, hinnerBalanced⟩ := hcall
    have henter (e : Engine) : (e.enter entry).history = e.history := by cases entry <;> rfl
    refine ⟨inner ++ events, ?_, hinnerBalanced.append hbalanced⟩
    exact hinner.trans (by rw [henter, hhistory, List.append_assoc])
  | caught _ _ _ _ ih hcaught =>
    obtain ⟨events, hhistory, hbalanced⟩ := ih
    obtain ⟨inner, hinner, hinnerBalanced⟩ := hcaught
    refine ⟨inner ++ events, ?_, hinnerBalanced.append hbalanced⟩
    exact hinner.trans (by rw [List.append_assoc, ← hhistory]; rfl)
  | @final _ _ _ e₃ _ c body catches final _ _ _ ih htry _ =>
    obtain ⟨events, hhistory, hbalanced⟩ := ih
    obtain ⟨inner, hinner, hinnerBalanced⟩ := htry
    refine ⟨.final c final e₃.history ::
      (inner ++ .began c (.tryCatch body catches (some final)) :: events), ?_,
      .final hinnerBalanced hbalanced⟩
    simp [leaveFinal, hinner, record, hhistory]

/-- What still happens to an engine once a cancellation is pending: the statements that are running
may change it to their end, calls and catch blocks end, and final blocks run as a whole. -/
inductive Unwinds (host : Host) (e : Engine) : Engine → Prop where
  | refl : Unwinds host e e
  | change {e₁ e₂ : Engine} (h : Unwinds host e e₁) (hchange : e₁.Change host False e₂) :
      Unwinds host e e₂
  | cancelled {e₁ : Engine} (h : Unwinds host e e₁) : Unwinds host e e₁.requestCancel
  | calls {e₁ : Engine} (h : Unwinds host e e₁) (stack : List CallEntry) (depth : Nat) :
      Unwinds host e { e₁ with callStack := stack, callDepth := depth }
  | vim {e₁ : Engine} (h : Unwinds host e e₁) (table : Table Ref) :
      Unwinds host e { e₁ with vim := table }
  | final {e₁ e₂ : Engine} (h : Unwinds host e e₁) (c : Context) (body : List Stmt)
      (hfinal : e₁.enterFinal.Leads host False e₂) : Unwinds host e (e₁.leaveFinal c body e₂)

namespace Unwinds

theorem trans (h : e.Unwinds host e') (h' : e'.Unwinds host e'') : e.Unwinds host e'' := by
  induction h' with
  | refl => exact h
  | change _ hchange ih => exact ih.change hchange
  | cancelled _ ih => exact ih.cancelled
  | calls _ stack depth ih => exact ih.calls stack depth
  | vim _ table ih => exact ih.vim table
  | final _ c body hfinal ih => exact ih.final c body hfinal

theorem catching (h : e.Unwinds host e') (err : ScriptError) (exception throwpoint : Ref) :
    e.Unwinds host (e'.catching err exception throwpoint) :=
  (h.vim _).change (.note (.shown err))

theorem restoreVim (h : e.Unwinds host e'') (before : Engine) :
    e.Unwinds host (before.restoreVim e'') :=
  (h.vim _).change (.note .hidden)

theorem enter (h : e.Unwinds host e') (entry : CallEntry) : e.Unwinds host (e'.enter entry) := by
  cases entry with
  | native => exact h.calls _ e'.callDepth
  | defined => exact h.calls _ _

/-- The cancellation stays pending, also after a final block that did not see it. -/
theorem interrupted (h : e.Unwinds host e') (hpending : e.interrupted = true) :
    e'.interrupted = true := by
  induction h with
  | refl => exact hpending
  | change _ hchange ih => exact hchange.interrupted_eq.trans ih
  | cancelled => rfl
  | calls _ _ _ ih => exact ih
  | vim _ _ ih => exact ih
  | final _ c body _ ih => simp [leaveFinal, ih]

theorem effects (h : e.Unwinds host e') : e.effects.toList <+: e'.effects.toList := by
  induction h with
  | refl => exact List.prefix_rfl
  | change _ hchange ih => exact ih.trans hchange.grows.effects
  | cancelled _ ih => exact ih
  | calls _ _ _ ih => exact ih
  | vim _ _ ih => exact ih
  | final _ c body hfinal ih => exact ih.trans hfinal.grows.effects

theorem quiet (h : e.Unwinds host e') :
    ∃ events, e'.history = events ++ e.history ∧ Event.Quiet events := by
  induction h with
  | refl => exact ⟨[], rfl, fun _ _ h => nomatch h⟩
  | change _ hchange ih =>
    obtain ⟨events, hhistory, hquiet⟩ := ih
    exact ⟨events, hchange.history_eq.trans hhistory, hquiet⟩
  | cancelled _ ih =>
    obtain ⟨events, hhistory, hquiet⟩ := ih
    refine ⟨_ :: events, congrArg _ hhistory, fun c s hs => ?_⟩
    exact hquiet c s ((List.mem_cons.1 hs).resolve_left nofun)
  | calls _ _ _ ih => exact ih
  | vim _ _ ih => exact ih
  | final _ c body _ ih =>
    obtain ⟨events, hhistory, hquiet⟩ := ih
    refine ⟨_ :: events, congrArg _ hhistory, fun c s hs => ?_⟩
    exact hquiet c s ((List.mem_cons.1 hs).resolve_left nofun)

end Unwinds

/-- While a cancellation is pending, steps only unwind: no statement starts. -/
theorem Leads.unwinds (h : e.Leads host False e') (hpending : e.interrupted = true) :
    e.Unwinds host e' := by
  induction h with
  | refl => exact .refl
  | change _ hchange ih => exact (ih hpending).change hchange
  | began _ c s hclear ih =>
    have hstill := (ih hpending).interrupted hpending
    simp [hclear] at hstill
  | cancelled _ ih => exact (ih hpending).cancelled
  | called _ entry _ ih hcall =>
    have hentered := (ih hpending).enter entry
    exact (hentered.trans (hcall (hentered.interrupted hpending))).calls _ _
  | @caught _ e₁ _ err _ exception throwpoint _ ih hcaught =>
    have hshown := (ih hpending).catching err exception throwpoint
    exact (hshown.trans (hcaught (hshown.interrupted hpending))).restoreVim e₁
  | final _ _ _ _ _ hclear _ _ ih _ _ =>
    have hstill := (ih hpending).interrupted hpending
    simp [hclear] at hstill

/-- A part of a history that a run has made belongs to its beginning or to a later part of it. -/
theorem Leads.le_or_suffix {P : Prop} {event : Event} {before : List Event}
    (h : e.Leads host P e') (hin : event :: before <:+ e'.history) :
    e.history.length ≤ before.length ∨ event :: before <:+ e.history := by
  by_cases hle : e.history.length ≤ before.length
  · exact .inl hle
  · exact .inr (List.suffix_of_suffix_length_le hin h.grows.history (Nat.lt_of_not_le hle))

/-- From the request of a cancellation outside of final blocks, the run only unwinds. -/
theorem Leads.exists_unwinds (h : e.Leads host False e') {shown : Array Effect}
    {before : List Event} (hin : .cancelled shown :: before <:+ e'.history)
    (hnew : e.history.length ≤ before.length) :
    ∃ e₀ : Engine, e₀.history = .cancelled shown :: before ∧ e₀.effects = shown ∧
      e₀.interrupted = true ∧ e₀.Unwinds host e' := by
  -- the request is the last step, or it lies in an earlier part of the steps, or in an inner one
  induction h with
  | refl => exact absurd (Nat.le_trans hin.length_le hnew) (by simp)
  | change _ hchange ih =>
    obtain ⟨e₀, hhistory, heffects, hpending, h⟩ := ih (hchange.history_eq ▸ hin) hnew
    exact ⟨e₀, hhistory, heffects, hpending, h.change hchange⟩
  | began _ c s hclear ih =>
    rcases List.suffix_cons_iff.1 hin with heq | hin
    · cases heq
    -- a statement that starts has found no cancellation pending
    · obtain ⟨e₀, -, -, hpending, h⟩ := ih hin hnew
      have hstill := h.interrupted hpending
      simp [hclear] at hstill
  | @cancelled _ e₁ _ ih =>
    rcases List.suffix_cons_iff.1 hin with heq | hin
    · obtain ⟨hshown, rfl⟩ := List.cons.inj heq
      exact ⟨e₁.requestCancel, heq.symm, (Event.cancelled.inj hshown).symm, rfl, .refl⟩
    · obtain ⟨e₀, hhistory, heffects, hpending, h⟩ := ih hin hnew
      exact ⟨e₀, hhistory, heffects, hpending, h.cancelled⟩
  | @called _ e₁ _ _ entry hcall ih ihcall =>
    have henter : (e₁.enter entry).history = e₁.history := by cases entry <;> rfl
    rcases hcall.le_or_suffix hin with hlate | hearly
    · obtain ⟨e₀, hhistory, heffects, hpending, h⟩ := ihcall hin hlate
      exact ⟨e₀, hhistory, heffects, hpending, h.calls _ _⟩
    · obtain ⟨e₀, hhistory, heffects, hpending, h⟩ := ih (henter ▸ hearly) hnew
      have hentered := h.enter entry
      have hrest := hcall.unwinds (hentered.interrupted hpending)
      exact ⟨e₀, hhistory, heffects, hpending, (hentered.trans hrest).calls _ _⟩
  | @caught _ e₁ _ err _ exception throwpoint hcaught ih ihcaught =>
    rcases hcaught.le_or_suffix hin with hlate | hearly
    · obtain ⟨e₀, hhistory, heffects, hpending, h⟩ := ihcaught hin hlate
      exact ⟨e₀, hhistory, heffects, hpending, h.restoreVim e₁⟩
    · obtain ⟨e₀, hhistory, heffects, hpending, h⟩ := ih hearly hnew
      have hshown := h.catching err exception throwpoint
      have hrest := hcaught.unwinds (hshown.interrupted hpending)
      exact ⟨e₀, hhistory, heffects, hpending, (hshown.trans hrest).restoreVim e₁⟩
  | final _ c body catches final hclear htry hfinal ih ihtry _ =>
    rcases List.suffix_cons_iff.1 hin with heq | hin
    · cases heq
    rcases htry.le_or_suffix hin with hlate | hearly
    · obtain ⟨e₀, hhistory, heffects, hpending, h⟩ := ihtry hin hlate
      exact ⟨e₀, hhistory, heffects, hpending, h.final c final hfinal⟩
    · rcases List.suffix_cons_iff.1 hearly with heq | hearly
      · cases heq
      · obtain ⟨e₀, -, -, hpending, h⟩ := ih hearly hnew
        have hstill := h.interrupted hpending
        simp [hclear] at hstill

/-- What a cancellation outside of final blocks means for everything that comes after it. -/
theorem Leads.of_cancelled (h : e.Leads host False e') (hstart : e.history = [])
    {after before : List Event} {shown : Array Effect}
    (hhistory : e'.history = after ++ .cancelled shown :: before) :
    Event.Quiet after ∧ Event.Entered before (Event.finals after).reverse ∧
      shown.toList <+: e'.effects.toList ∧ e'.interrupted = true := by
  have hin : .cancelled shown :: before <:+ e'.history := ⟨after, hhistory.symm⟩
  obtain ⟨e₀, hrequest, hshown, hpending, hunwinds⟩ := h.exists_unwinds hin (by simp [hstart])
  obtain ⟨events, hevents, hquiet⟩ := hunwinds.quiet
  rw [hrequest, hhistory] at hevents
  obtain rfl := List.append_cancel_right hevents
  obtain ⟨whole, hwhole, hbalanced⟩ := h.balanced
  rw [hstart, List.append_nil, hhistory] at hwhole
  subst hwhole
  exact ⟨hquiet, hbalanced.entered hquiet, hshown ▸ hunwinds.effects, hunwinds.interrupted hpending⟩

end Engine

/-! ## Rows -/

namespace Run

variable {exec : Context → Stmt → Run Signal} {c : Context} {e e' : Engine}

theorem block_cons_of_interrupted (s : Stmt) (rest : List Stmt) (hpending : e.interrupted = true) :
    block exec c (s :: rest) e = .ok .finish e := by
  change (if e.interrupted then pure Signal.finish else _ : Run Signal) e = _
  exact congrFun (if_pos hpending) e

theorem block_cons (s : Stmt) (rest : List Stmt) (hpending : ¬e.interrupted = true) :
    block exec c (s :: rest) e = (do
      match ← exec c s with
      | .normal => block exec c rest
      | signal => return signal) e := by
  change (if e.interrupted then pure Signal.finish else _ : Run Signal) e = _
  exact congrFun (if_neg hpending) e

/-- A cancellation ends a row and leaves everything as the statements before have left it. -/
theorem block_append_of_interrupted {done : List Stmt} (s : Stmt) (rest : List Stmt)
    (hdone : block exec c done e = .ok .normal e') (hpending : e'.interrupted = true) :
    block exec c (done ++ s :: rest) e = .ok .finish e' := by
  induction done generalizing e with
  | nil =>
    obtain ⟨-, rfl⟩ := EStateM.Result.ok.inj hdone
    exact block_cons_of_interrupted s rest hpending
  | cons first done ih =>
    by_cases hearly : e.interrupted = true
    · rw [block_cons_of_interrupted first done hearly] at hdone
      cases hdone
    rw [block_cons first done hearly] at hdone
    rw [List.cons_append, block_cons first _ hearly]
    simp only [Bind.bind, EStateM.bind] at hdone ⊢
    cases hfirst : exec c first e with
    | error stop e₁ => simp [hfirst] at hdone
    | ok signal e₁ =>
      simp only [hfirst] at hdone ⊢
      cases signal with
      | normal => exact ih hdone
      | _ => cases hdone

end Run

/-! ## Sessions -/

namespace Session

open Engine

/-- Once a cancellation is requested in a run, outside of final blocks, no statement starts any more
but in the final blocks of statements that had begun and were not over, which run innermost first
and each of them once. The effects so far are kept, and a row ends with everything as its
statements have left it. A run that succeeds says that it was cancelled, and the flag is cleared. -/
theorem run_unwinds (host : Host) (fuel : Nat) (c : Context) (body : List Stmt) (e : Engine)
    {after before : List Event} {shown : Array Effect}
    (h : (run (.ofFuel host fuel) c body e).2.history = after ++ .cancelled shown :: before) :
    Event.Quiet after ∧ Event.Entered before (Event.finals after).reverse ∧
      shown.toList <+: (run (.ofFuel host fuel) c body e).1.effects.toList ∧
      ((run (.ofFuel host fuel) c body e).1.outcome.isOk →
        (run (.ofFuel host fuel) c body e).1.interrupted = true) ∧
      (run (.ofFuel host fuel) c body e).2.interrupted = false ∧
      ∀ fuel' c' done s rest e₁ e₂,
        Run.block (Interp.ofFuel host fuel').exec c' done e₁ = .ok .normal e₂ →
        e₂.interrupted = true →
        Run.block (Interp.ofFuel host fuel').exec c' (done ++ s :: rest) e₁ = .ok .finish e₂ := by
  have hsteps : (Interp.ofFuel host fuel).KeepsSteps host False :=
    Interp.keepsSteps_ofFuel False.elim fuel
  have hbody : False → ∀ s ∈ body, s.WellFormed := False.elim
  obtain ⟨e₁, hleads, hrun⟩ := exists_run hsteps c e hbody False.elim
  have hhistory : (run (.ofFuel host fuel) c body e).2.history = e₁.history := by
    rcases hrun with hok | ⟨stop, -, herror⟩
    · rw [hok]
    · rw [herror]; rfl
  obtain ⟨hquiet, hentered, hshown, hpending⟩ := hleads.of_cancelled rfl (hhistory.symm.trans h)
  rcases hrun with hok | ⟨stop, -, herror⟩
  · rw [hok]
    exact ⟨hquiet, hentered, hshown, fun _ => hpending, rfl,
      fun _ _ _ s rest _ _ => Run.block_append_of_interrupted s rest⟩
  · rw [herror]
    have hreport : e₁.effects.toList <+: (failed stop e₁).1.effects.toList := by simp [failed]
    exact ⟨hquiet, hentered, hshown.trans hreport, nofun, rfl,
      fun _ _ _ s rest _ _ => Run.block_append_of_interrupted s rest⟩

/-- After a cancellation in a block, its next statement does not start, but the final block runs. -/
theorem run_unwinds_cancelling :
    let cancel := Stmt.evaluate (.call none "cancel" [])
    let statement := Stmt.tryCatch [cancel, .echo []] [] (some [.echo []])
    let ended := run (.ofFuel Interp.cancelling 4) .commandLine [statement, .echo []]
      (blank .standard)
    Event.Entered [.began .commandLine cancel, .began .commandLine statement]
        [(.commandLine, [.echo []])] ∧
      ended.1.interrupted = true ∧ ended.2.interrupted = false := by
  intro cancel statement ended
  have hunwinds := @run_unwinds Interp.cancelling 4 .commandLine [statement, .echo []]
    (blank .standard) [.final .commandLine [.echo []] [.began .commandLine (.echo [])]]
    [.began .commandLine cancel, .began .commandLine statement] #[] rfl
  obtain ⟨-, hentered, -, hreport, hclear, -⟩ := hunwinds
  exact ⟨hentered, hreport rfl, hclear⟩

end Session

end VimL
