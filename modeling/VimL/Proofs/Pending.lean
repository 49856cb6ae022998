import VimL.Proofs.FinalBlock
import VimL.Proofs.Invariants

/-!
# Pending cancellations

In a run, a cancellation is pending exactly if it was requested in this run, be it in a final block:
no request is lost, and none is left over from an earlier run. A block clears the flag when it is
over, however it ends. An expression that is evaluated by itself does not: what was requested in it
is still pending when the next block is about to start.
-/

namespace VimL

/-- A cancellation is requested. -/
def Event.IsRequest : Event → Prop
  | .cancelled _ => True
  | _ => False

namespace Engine

/-- The flag tells whether a cancellation was requested in the run whose history this is. -/
def FlagsRequests (e : Engine) : Prop := e.interrupted = true ↔ e.Saw Event.IsRequest

variable {host : Host} {P : Prop} {e e' : Engine}

theorem flagsRequests_of_unstarted (hclear : e.interrupted = false) (h : e.history = []) :
    e.FlagsRequests :=
  iff_of_false (ne_true_of_eq_false hclear) fun ⟨_, hin, _⟩ => by
    rw [h] at hin
    cases hin

namespace FlagsRequests

theorem of_eq (he : e.FlagsRequests) (hinterrupted : e'.interrupted = e.interrupted)
    (hhistory : e'.history = e.history) : e'.FlagsRequests := by
  unfold FlagsRequests Saw at *
  rwa [hinterrupted, hhistory]

theorem began (he : e.FlagsRequests) (c : Context) (s : Stmt) :
    (e.record (.began c s)).FlagsRequests := by
  have hno : ¬(Event.began c s).Includes Event.IsRequest := by
    rintro ⟨⟨⟩⟩
  exact he.trans ((saw_record_iff e _).trans (or_iff_right hno)).symm

theorem cancelled (e : Engine) : e.requestCancel.FlagsRequests :=
  iff_of_true rfl ⟨_, List.mem_cons_self, .here trivial⟩

/-- After a final block, one of the two flags is enough. -/
theorem leaveFinal (he : e.FlagsRequests) (he' : e'.FlagsRequests) (c : Context)
    (body : List Stmt) : (e.leaveFinal c body e').FlagsRequests := by
  have hsaw : (e.leaveFinal c body e').Saw Event.IsRequest ↔
      e'.Saw Event.IsRequest ∨ e.Saw Event.IsRequest :=
    saw_leaveFinal_iff (fun _ _ _ => id) c body
  unfold FlagsRequests at *
  rw [hsaw, ← he, ← he']
  exact Bool.or_eq_true_iff

/-- Whatever a run does to an engine, the flag tells what was requested. -/
theorem leads (he : e.FlagsRequests) (h : e.Leads host P e') : e'.FlagsRequests := by
  induction h with
  | refl => exact he
  | change _ hchange ih => exact (ih he).of_eq hchange.interrupted_eq hchange.history_eq
  | began _ c s _ ih => exact (ih he).began c s
  | cancelled => exact .cancelled _
  | called _ entry _ ih hcall =>
    have hcalled := hcall ((ih he).of_eq (by cases entry <;> rfl) (by cases entry <;> rfl))
    exact hcalled.of_eq rfl rfl
  | caught _ _ _ _ ih hcaught => exact (hcaught ((ih he).of_eq rfl rfl)).of_eq rfl rfl
  | final _ c body catches final _ _ _ ih htry hfinal =>
    have hown := hfinal (flagsRequests_of_unstarted rfl rfl)
    exact (htry ((ih he).began c _)).leaveFinal hown c final

end FlagsRequests

end Engine

namespace Session

open Engine

variable {host : Host} {e : Engine}

/-- A block that runs clears the flag, and it only reports a cancellation if one was requested. -/
theorem run_clears (host : Host) (fuel : Nat) (c : Context) (body : List Stmt)
    (hclear : e.interrupted = false) :
    let ended := run (.ofFuel host fuel) c body e
    ended.2.interrupted = false ∧
      (ended.1.interrupted = true → ended.2.Saw Event.IsRequest) := by
  intro ended
  have hsteps : (Interp.ofFuel host fuel).KeepsSteps host False :=
    Interp.keepsSteps_ofFuel False.elim fuel
  have hstart : (prepare e).FlagsRequests := flagsRequests_of_unstarted hclear rfl
  have hbody : False → ∀ s ∈ body, s.WellFormed := False.elim
  obtain ⟨e₁, hleads, hok | ⟨stop, -, herror⟩⟩ := exists_run hsteps c e hbody False.elim
  · rw [show ended = _ from hok]
    exact ⟨rfl, (hstart.leads hleads).1⟩
  · rw [show ended = _ from herror]
    exact ⟨rfl, nofun⟩

/-- An evaluation leaves the flag as it is, and it reports no cancellation. -/
theorem evaluate_flags (host : Host) (fuel : Nat) (c : Context) (x : Expr)
    (hclear : e.interrupted = false) :
    let ended := evaluate (.ofFuel host fuel) c x e
    ended.2.FlagsRequests ∧ ended.1.interrupted = false := by
  intro ended
  have hsteps : (Interp.ofFuel host fuel).KeepsSteps host False :=
    Interp.keepsSteps_ofFuel False.elim fuel
  have hstart : (prepare e).FlagsRequests := flagsRequests_of_unstarted hclear rfl
  obtain ⟨e₁, hleads, ⟨r, hok⟩ | ⟨stop, -, herror⟩⟩ :=
    exists_evaluate hsteps c (x := x) (e := e) False.elim False.elim
  · rw [show ended = _ from hok]
    exact ⟨hstart.leads hleads, rfl⟩
  · rw [show ended = _ from herror]
    exact ⟨(hstart.leads hleads).of_eq rfl rfl, rfl⟩

/-- From an engine without a pending cancellation, whatever is asked for and however it ends: a
cancellation is pending afterwards exactly if an expression was evaluated and a cancellation was
requested in it. What is reported as cancelled was cancelled by a request of this very run. -/
theorem interrupted_perform_iff (host : Host) (fuel : Nat) (hclear : e.interrupted = false)
    (r : Request) :
    let ended := r.perform (.ofFuel host fuel) e
    (ended.2.interrupted = true ↔ (∃ c x, r = .evaluate c x) ∧ ended.2.Saw Event.IsRequest) ∧
      (ended.1.interrupted = true → ended.2.Saw Event.IsRequest) := by
  have hblock {r : Request} {ended : Report × Engine} (hr : ∀ c x, r ≠ .evaluate c x)
      (hended : ended.2.interrupted = false ∧
        (ended.1.interrupted = true → ended.2.Saw Event.IsRequest)) :
      (ended.2.interrupted = true ↔ (∃ c x, r = .evaluate c x) ∧ ended.2.Saw Event.IsRequest) ∧
        (ended.1.interrupted = true → ended.2.Saw Event.IsRequest) :=
    ⟨iff_of_false (ne_true_of_eq_false hended.1) fun ⟨⟨c, x, h⟩, _⟩ => hr c x h, hended.2⟩
  cases r with
  | run c body => exact hblock nofun (run_clears host fuel c body hclear)
  | source name body =>
    exact hblock nofun (run_clears host fuel (scriptContext ⟨e.scripts.size⟩) body
      (e := (newScript name e).2) hclear)
  | evaluate c x =>
    obtain ⟨hflags, hreport⟩ := evaluate_flags host fuel c x hclear
    exact ⟨hflags.trans (and_iff_right ⟨c, x, rfl⟩).symm,
      fun h => absurd h (ne_true_of_eq_false hreport)⟩

/-- A call of the function of the host that requests a cancellation. -/
def cancelCall : Request := .evaluate .commandLine (.call none "cancel" [])

theorem interrupted_perform_cancelCall :
    (holding "").interrupted = false ∧
      (cancelCall.perform (.ofFuel Interp.cancelling 2) (holding "")).2.interrupted = true := by
  have hrequested :
      (cancelCall.perform (.ofFuel Interp.cancelling 2) (holding "")).2.Saw Event.IsRequest :=
    ⟨.cancelled #[], List.mem_cons_self, .here trivial⟩
  exact ⟨rfl, (interrupted_perform_iff Interp.cancelling 2 (e := holding "") rfl cancelCall).1.2
    ⟨⟨_, _, rfl⟩, hrequested⟩⟩

/-- The cancellation is still pending when the expression has its value. -/
theorem not_forall_interrupted_perform :
    ¬∀ (host : Host) (fuel : Nat) (e : Engine) (r : Request), Arrives host e →
      e.interrupted = false → (r.perform (.ofFuel host fuel) e).2.interrupted = false := by
  intro hclaim
  have hclear := hclaim Interp.cancelling 2 (holding "") cancelCall (arrives_holding _ "") rfl
  have hpending :
      (cancelCall.perform (.ofFuel Interp.cancelling 2) (holding "")).2.interrupted = true := rfl
  rw [hpending] at hclear
  cases hclear

end Session

end VimL
