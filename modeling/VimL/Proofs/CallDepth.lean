import VimL.Proofs.Approximation
import VimL.Proofs.Restoring

/-!
# The depth of calls

The counter of calls is the number of defined functions on the call stack, and it never exceeds its
limit. However a run ends, it puts back the counter, the call stack and the variables of the
editor.
-/

namespace VimL

def CallEntry.isDefined : CallEntry → Bool
  | .defined _ => true
  | .native _ => false

/-- So many calls of defined functions are running, and so many may run. -/
structure CallsBalanced (config : Config) (stack : List CallEntry) (depth : Nat) : Prop where
  counted : depth = stack.countP CallEntry.isDefined
  bounded : depth ≤ config.callDepth

namespace Engine

def Balanced (e : Engine) : Prop := CallsBalanced e.config e.callStack e.callDepth

variable {e : Engine}

/-- A call that there is room for keeps the balance. -/
theorem Balanced.enter {entry : CallEntry} (h : e.Balanced) (hroom : e.HasRoom entry) :
    (e.enter entry).Balanced := by
  obtain ⟨hcounted, hbounded⟩ := h
  cases entry with
  | native name =>
    refine ⟨?_, hbounded⟩
    change e.callDepth = List.countP _ (.native name :: e.callStack)
    rw [List.countP_cons_of_neg (by simp [CallEntry.isDefined]), hcounted]
  | defined name =>
    refine ⟨?_, hroom⟩
    change e.callDepth + 1 = List.countP _ (.defined name :: e.callStack)
    rw [List.countP_cons_of_pos rfl, hcounted]

theorem balanced_prepare (hrest : e.callDepth = 0) : (Session.prepare e).Balanced := by
  refine ⟨?_, ?_⟩
  · exact hrest
  · change e.callDepth ≤ _
    omega

end Engine

/-! ## Runs -/

variable {host : Host} {e : Engine}

theorem Discipline.uniform_counting : (restoring host (.quiet CallsBalanced)).Uniform .any :=
  uniform_quiet fun _ _ h hroom => Engine.Balanced.enter h hroom

theorem Interp.obeys_counting (host : Host) (fuel : Nat) :
    (ofFuel host fuel).Obeys (.restoring host (.quiet CallsBalanced)) .any :=
  obeys_ofFuel Discipline.uniform_counting False.elim fuel

open Run in
/-- However a block, an expression or a call ends in an engine, the same calls are running
afterwards, and the variables of the editor are the same. -/
structure Engine.KeepsCalls (host : Host) (fuel : Nat) (c : Context) (e : Engine) : Prop where
  block : ∀ body, Reaches (fun _ => True) e (block (Interp.ofFuel host fuel).exec c body)
    e.Restored fun _ _ => True
  eval : ∀ x, Reaches (fun _ => True) e ((Interp.ofFuel host fuel).eval c x) e.Restored
    fun _ _ => True
  call : ∀ h arguments receiver,
    Reaches (fun _ => True) e ((Interp.ofFuel host fuel).call c h arguments receiver) e.Restored
      fun _ _ => True

theorem Engine.Balanced.keepsCalls (he : e.Balanced) (host : Host) (fuel : Nat) (c : Context) :
    e.KeepsCalls host fuel c := by
  have hobeys := Interp.obeys_counting host fuel
  have hall : (Discipline.restoring host (.quiet CallsBalanced)).holds e :=
    ⟨fun _ _ _ => trivial, he⟩
  have hrestored {α : Type} {m : Run α}
      (hm : Run.Allows (.restoring host (.quiet CallsBalanced)) e m fun _ _ => True) :
      Run.Reaches (fun _ => True) e m e.Restored fun _ _ => True :=
    (hm hall (.refl e)).weaken (fun _ _ => trivial) (fun _ h => h.restored) fun _ _ _ h => h
  refine ⟨fun body => hrestored ?_, fun x => hrestored ?_,
    fun h arguments receiver => hrestored ?_⟩
  · have hbody : Trees.any.body .top body := fun _ _ => trivial
    exact (Run.keeps_body hobeys hbody False.elim).allows e
  · exact (hobeys.eval c x trivial).allows e
  · exact hobeys.call e c h arguments receiver ⟨False.elim, False.elim⟩

namespace Run

variable {i : Interp} {id : FunctionId} {f : Function}

theorem callDefined_of_refused {rs : List Ref} {stop : Stop} {e' : Engine}
    (hf : e.function? id = some f) (receiver : Option Ref)
    (hcheck : checkCall f rs.length receiver.isSome e = .error stop e') :
    callDefined i id rs receiver e = .error stop e' := by
  unfold callDefined
  rw [bind_of_ok (get_eq e), hf]
  exact bind_of_error hcheck

/-- A call of a defined function for which there is no room fails, and nothing is changed. -/
theorem callDefined_of_full (hf : e.function? id = some f)
    (hfull : e.config.callDepth ≤ e.callDepth) (arguments : List Ref) (receiver : Option Ref) :
    callDefined i id arguments receiver e = .error (.ofCause .callDepth) e := by
  apply callDefined_of_refused hf receiver
  simp only [checkCall, Bind.bind, EStateM.bind]
  change (if e.config.callDepth ≤ e.callDepth then _ else _ : Run Unit) e = _
  rw [if_pos hfull]
  rfl

end Run

namespace Session

/-- Whatever is asked of an engine in which nothing is running, and however it ends: nothing is
running afterwards, and the variables of the editor are the same. In every step, the calls are in
balance; and from every engine in which they are, calls keep the balance, everything puts back
what was running, and a call for which there is no room fails and changes nothing. -/
theorem perform_keepsCalls (hrest : e.callDepth = 0) (fuel : Nat) (r : Request) :
    ((r.perform (.ofFuel host fuel) e).2.callDepth = 0 ∧
      (r.perform (.ofFuel host fuel) e).2.callStack = [] ∧
      (r.perform (.ofFuel host fuel) e).2.vim = e.vim) ∧
    (∀ hit : Task → Engine → Bool, (∀ task e₁, e₁.Balanced → hit task e₁ = false) →
      r.perform (.watching host hit fuel) e = r.perform (.ofFuel host fuel) e) ∧
    ∀ e₁ : Engine, e₁.Balanced →
      (∀ entry, e₁.HasRoom entry → (e₁.enter entry).Balanced) ∧
      (∀ fuel' c, e₁.KeepsCalls host fuel' c) ∧
      ∀ fuel' c id name f arguments receiver, e₁.function? id = some f →
        ¬e₁.HasRoom (.defined name) →
        (Interp.ofFuel host (fuel' + 1)).call c (.defined id name) arguments receiver e₁ =
          .error (.ofCause .callDepth) e₁ := by
  have hjudged : r.Judged .any := r.judged_any
  have hstart : (Discipline.restoring host (.quiet CallsBalanced)).holds (r.start e) := by
    refine ⟨fun _ _ _ => trivial, ?_⟩
    cases r <;> exact Engine.balanced_prepare hrest
  refine ⟨?_, fun hit hhit => ?_, fun e₁ he₁ => ⟨fun entry hroom => he₁.enter hroom,
    fun fuel' c => he₁.keepsCalls host fuel' c, ?_⟩⟩
  · obtain ⟨e₁, _, _, hleads, hended, -⟩ :=
      Request.leads_perform (Interp.obeys_counting host fuel) hjudged hstart
    obtain ⟨-, hstack, hdepth, hvim⟩ := hleads.restored
    rw [hended]
    cases r <;> exact ⟨hdepth.trans hrest, hstack, hvim⟩
  · have halarm : ¬(Discipline.restoring host (.quiet CallsBalanced)).admits .alarm :=
      fun h => h rfl
    exact Request.perform_watching Discipline.uniform_counting False.elim halarm
      (fun task e₁ _ he₁ => hhit task e₁ he₁.2) fuel hjudged hstart
  · intro fuel' c id name f arguments receiver hf hroom
    exact Run.callDefined_of_full hf (Nat.le_of_not_lt hroom) arguments receiver

/-- An engine in which only one call may run. -/
def narrow : Engine := blank { Config.standard with callDepth := 1 }

/-- A function that calls itself until there is no more room. -/
def descending : List Stmt :=
  [.function none "F" ⟨[], [], [.evaluate (.call none "F" [])], false, false, false, false⟩,
    .evaluate (.call none "F" [])]

example : (run (.ofFuel ⟨[]⟩ 6) .commandLine descending narrow).1.outcome =
    .error (.error ⟨.callDepth, some "call", "function F"⟩) := rfl

theorem perform_keepsCalls_descending :
    narrow.callDepth = 0 ∧
      ((Request.run .commandLine descending).perform (.ofFuel ⟨[]⟩ 6) narrow).2.callDepth = 0 ∧
      ((Request.run .commandLine descending).perform (.ofFuel ⟨[]⟩ 6) narrow).2.callStack = [] := by
  have hrest : narrow.callDepth = 0 := rfl
  obtain ⟨⟨hdepth, hstack, -⟩, -⟩ :=
    @perform_keepsCalls ⟨[]⟩ narrow hrest 6 (.run .commandLine descending)
  exact ⟨hrest, hdepth, hstack⟩

end Session

end VimL
