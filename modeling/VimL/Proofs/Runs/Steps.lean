import VimL.Proofs.Watching

/-!
# Runs lead on by steps

The discipline of steps. Under an assumption, which stands for well-formed trees, every failure of
the engine is one that well-formed trees cannot rule out.
-/

namespace VimL

variable (host : Host) (P : Prop)

/-- Under the assumption, a failure is admitted. -/
def Stop.Admitted (stop : Stop) : Prop := ∀ f, stop = .internal f → P → f.Admitted

def Discipline.steps : Discipline host where
  toDemands := .ofFits P False fun f => P → f.WellFormed
  placed := False
  linear := False
  holds e := P → e.Sound host
  leads := Engine.Leads host P
  admits stop := stop.Admitted P
  sound he := he
  wellFormed hf := hf
  function he hid hp := (he hp).functions _ _ hid
  unnamed _ := False.elim
  unentered _ := False.elim
  newFrame _ := trivial
  registry _ := False.elim
  refl := .refl
  trans := .trans
  holds_of_leads he h hp := h.sound hp (he hp)
  grows h := h.grows
  affords _ := False.elim
  edit _ h := h.leads fun _ hf => hf
  create _ h hv _ := h.change (.create _ hv)
  write _ h hv _ _ := h.change (.overwrite _ _ (Value.ne_funcref_of_isCompound hv))
  began _ c s hpending := (Engine.Leads.refl _).began c s hpending
  cancelled _ := (Engine.Leads.refl _).cancelled
  holds_catching he _ hp := (he hp).of_eq rfl rfl rfl
  caught _ h := (Engine.Leads.refl _).caught _ _ h
  holds_enterFinal he hp := (he hp).of_eq rfl rfl rfl
  final _ hpending htry hfinal := (Engine.Leads.refl _).final _ _ _ _ hpending htry hfinal
  admits_error _ _ _ h := nomatch h
  admits_mark {stop} h _ _ f hf := by
    cases stop with
    | error => cases hf
    | _ => exact h f hf
  admits_finished _ h := nomatch h
  admits_internal _ h _ hf := Stop.internal.inj hf ▸ h

def Trees.wellFormed : Trees where
  expr x := P → x.WellFormed
  stmt _ s := P → s.WellFormed

/-- An interpreter whose runs lead on by steps, for well-formed trees. -/
abbrev Interp.KeepsSteps (i : Interp) : Prop := i.Obeys (.steps host P) (.wellFormed P)

variable {host P}

namespace Discipline

theorem opens_steps (entry : CallEntry) : (steps host P).Opens (steps host P) entry :=
  .same (fun he hp => (he hp).enter entry) fun h => (Engine.Leads.refl _).called entry h

theorem uniform_steps : (steps host P).Uniform (.wellFormed P) where
  expr hx := {
    parts := fun _ hy hp => (hx hp).parts hy
    operator := fun hp => (hx hp).knownOperator
    lambda := by
      rintro parameters inner rfl name c hp
      cases hx hp with
      | lambda _ hbody => exact Function.wellFormed_lambda parameters hbody c }
  stmt hs := {
    parts := fun _ hx hp => (hs hp).parts hx
    blocks := fun _ hb _ ht hp => (hs hp).blocks hb ht
    definition := fun _ hd _ _ _ _ _ hf hp =>
      have ⟨hhead, hbody⟩ := (hs hp).definition hd
      Function.wellFormed_make hf hhead hbody
    entry := fun hp => (hs hp).hasEntryTarget
    stands := False.elim
    rounds := fun _ _ h => nomatch h
    throws := fun _ _ _ h => nomatch h }
  callable hf := {
    defaults := fun name x hx hp => (hf hp).defaults name x hx
    body := fun s hs hp => (hf hp).body s hs }
  runs _ := trivial
  opens := opens_steps
  exhausted _ h := nomatch h
  unlettered := id
  unsparing := id
  leaves := False.elim

end Discipline

theorem Interp.keepsSteps_ofFuel (hhost : P → host.functions = []) (fuel : Nat) :
    (ofFuel host fuel).KeepsSteps host P :=
  obeys_ofFuel Discipline.uniform_steps hhost fuel

theorem Run.keeps_block {i : Interp} (hi : i.KeepsSteps host P) (c : Context) {body : List Stmt}
    (hbody : P → ∀ s ∈ body, s.WellFormed) : Keeps (.steps host P) (block i.exec c body) :=
  keeps_body (z := .top) hi (fun s hs hp => hbody hp s hs) False.elim

end VimL
