import VimL.Proofs.Constructs
import VimL.Proofs.FinalBlock

/-!
# Unwinding

An error that leaves a statement leaves everything around it as it is, unless a try statement takes
it or a final block ends in another way: the innermost statement has marked it, and no later mark
changes it.
-/

namespace VimL

variable {host : Host}

/-! ## What an error passes -/

open Run in
/-- The error passes from its origins to this construct, with so much fuel. A row or a step comes
to one of its parts from which the error passes; its other parts may do what they like before that.
A try statement lets the error of its body pass if its patterns can be read and are not found in
the text, and the error of a catch block in any case, and then the final block, if there is one,
ends normally. The error of a final block passes whatever the other parts came to. -/
inductive Passes (host : Host) (err : ScriptError) (origin : Nat → Context → Stmt → Engine → Prop) :
    Nat → Construct → Engine → Prop where
  | origin {fuel : Nat} {c : Context} {s : Stmt} {e : Engine} (h : origin fuel c s e) :
      Passes host err origin fuel (.step (.exec c s)) e
  | row {fuel : Nat} {c : Context} {body : List Stmt} {e e' : Engine}
      {hit : Task → Engine → Bool}
      (hhit : ∀ t e, hit t e = true → Passes host err origin fuel (.step t) e)
      (hstops : (Construct.row c body).Stops ((Interp.ofFuel host fuel).watched hit) e .alarm e') :
      Passes host err origin fuel (.row c body) e
  | step {fuel : Nat} {t : Task} {e e' : Engine} {hit : Task → Engine → Bool}
      (hhit : ∀ t e, hit t e = true → Passes host err origin fuel (.step t) e)
      (hstarts : t.Starts e) (htry : t.isTry = false)
      (hstops : t.Stops (((Interp.ofFuel host fuel).watched hit).above host) e .alarm e') :
      Passes host err origin (fuel + 1) (.step t) e
  | tried {fuel : Nat} {c : Context} {body : List Stmt} {catches : List (String × List Stmt)}
      {final : Option (List Stmt)} {e : Engine}
      (h : Passes host err origin fuel (.row c body)
        (e.record (.began c (.tryCatch body catches final))))
      (hmiss : ∀ clause ∈ catches, Searched err.exceptionText clause.1 false)
      (hfinal : ∀ e₁, (block (Interp.ofFuel host fuel).exec c body).Ends
          (e.record (.began c (.tryCatch body catches final))) (.error (.error err)) e₁ →
        FinalNormal (.ofFuel host fuel) c final e₁) :
      Passes host err origin (fuel + 1) (.step (.exec c (.tryCatch body catches final))) e
  | caught {fuel : Nat} {c : Context} {body clause : List Stmt}
      {catches : List (String × List Stmt)} {final : Option (List Stmt)} {e e₁ : Engine}
      {other : ScriptError}
      (hbody : (block (Interp.ofFuel host fuel).exec c body).Ends
        (e.record (.began c (.tryCatch body catches final))) (.error (.error other)) e₁)
      (hfound : Selects other.exceptionText catches (.ok (some clause)))
      (h : Passes host err origin fuel (.row c clause) (e₁.showing other))
      (hfinal : ∀ e₂, (block (Interp.ofFuel host fuel).exec c clause).Ends (e₁.showing other)
          (.error (.error err)) e₂ →
        FinalNormal (.ofFuel host fuel) c final (e₁.restoreVim e₂)) :
      Passes host err origin (fuel + 1) (.step (.exec c (.tryCatch body catches final))) e
  | final {fuel : Nat} {c : Context} {body b : List Stmt} {catches : List (String × List Stmt)}
      {e e₁ : Engine} {ended : Except Stop Signal}
      (htry : TryPart (.ofFuel host fuel) c body catches
        (e.record (.began c (.tryCatch body catches (some b)))) ended e₁)
      (hvisible : Visible ended) (h : Passes host err origin fuel (.row c b) e₁.enterFinal) :
      Passes host err origin (fuel + 1) (.step (.exec c (.tryCatch body catches (some b)))) e

namespace Passes

variable {err : ScriptError} {origin : Nat → Context → Stmt → Engine → Prop} {fuel : Nat}
  {p : Construct} {e : Engine}

theorem exists_origin (h : Passes host err origin fuel p e) : ∃ fuel c s e, origin fuel c s e := by
  have hnever {fuel : Nat} {hit : Task → Engine → Bool}
      (hhit : ∀ t e, hit t e = true → ∃ fuel c s e, origin fuel c s e)
      (hnone : ¬∃ fuel c s e, origin fuel c s e) :
      (Interp.ofFuel host fuel).watched hit = .ofFuel host fuel := by
    obtain rfl : hit = fun _ _ => false := by
      funext t e
      exact Bool.eq_false_iff.2 fun htrue => hnone (hhit t e htrue)
    rfl
  induction h with
  | origin h => exact ⟨_, _, _, _, h⟩
  | @row fuel c body e e' hit hhit hstops ih =>
    by_contra hnone
    rw [hnever ih hnone] at hstops
    exact hstops.ne_alarm trivial rfl
  | @step fuel t e e' hit hhit hstarts htry hstops ih =>
    by_contra hnone
    rw [hnever ih hnone] at hstops
    exact Construct.Stops.ne_alarm (p := .step t) (Task.stops_ofFuel_succ.2 hstops) hstarts rfl
  | tried h hmiss hfinal ih => exact ih
  | caught hbody hfound h hfinal ih => exact ih
  | final htry hvisible h ih => exact ih

open Run in
theorem exec_tryCatch_ends (hmarked : err.command.isSome = true) {c : Context} {body : List Stmt}
    {catches : List (String × List Stmt)} {final : Option (List Stmt)} {e' : Engine}
    (h : (tryCatch (.ofFuel host fuel) c body catches final).Ends
      (e.record (.began c (.tryCatch body catches final))) (.error (.error err)) e') :
    ((Interp.ofFuel host (fuel + 1)).exec c (.tryCatch body catches final)).Ends e
      (.error (.error err)) e' := by
  have hexec := Interp.exec_ends host (.tryCatch body catches final) h
  rwa [Except.mapError, Stop.mark, ScriptError.mark_of_isSome hmarked] at hexec

/-- What an error passes stops with this very error. -/
theorem stops (horigin : ∀ fuel c s e, origin fuel c s e →
      ∃ e', ((Interp.ofFuel host fuel).exec c s).Ends e (.error (.error err)) e')
    (h : Passes host err origin fuel p e) :
    ∃ e', p.Stops (.ofFuel host fuel) e (.error err) e' := by
  obtain ⟨own, c, s, e₀, hs⟩ := h.exists_origin
  obtain ⟨e₁, hends⟩ := horigin own c s e₀ hs
  have hmarked : err.command.isSome = true := Interp.exec_error_marked host own c s e₀ err e₁ hends
  have : (Stop.error err).Stable :=
    ⟨fun _ _ => congrArg Stop.error (ScriptError.mark_of_isSome hmarked _ _)⟩
  induction h with
  | origin h => exact horigin _ _ _ _ h
  | @row fuel c body e e' hit hhit hstops ih =>
    rcases Construct.Stops.upTo hstops (Interp.upTo_of_watched ih) with halarm | herror
    · exact absurd rfl (halarm.ne_alarm trivial)
    · exact herror
  | @step fuel t e e' hit hhit hstarts htry hstops ih =>
    rcases hstops.upTo_above (Interp.upTo_of_watched ih) htry with halarm | ⟨e₂, herror⟩
    · have hreal : (Construct.step t).Stops (.ofFuel host (fuel + 1)) e .alarm e' :=
        Task.stops_ofFuel_succ.2 halarm
      exact absurd rfl (hreal.ne_alarm hstarts)
    · exact ⟨e₂, Task.stops_ofFuel_succ.2 herror⟩
  | tried h hmiss hfinal ih =>
    obtain ⟨e₂, hbody⟩ := ih
    obtain ⟨e₃, htry⟩ := Run.tryCatch_ends_of_normal (.uncaught hbody (.none hmiss))
      (hfinal e₂ hbody)
    exact ⟨e₃, exec_tryCatch_ends hmarked htry⟩
  | caught hbody hfound h hfinal ih =>
    obtain ⟨e₂, hclause⟩ := ih
    obtain ⟨e₃, htry⟩ := Run.tryCatch_ends_of_normal (.caught hbody hfound hclause)
      (hfinal e₂ hclause)
    exact ⟨e₃, exec_tryCatch_ends hmarked htry⟩
  | final htry hvisible h ih =>
    obtain ⟨e₂, hfinal⟩ := ih
    exact ⟨_, exec_tryCatch_ends hmarked (Run.tryCatch_ends htry hvisible hfinal)⟩

end Passes

end VimL
