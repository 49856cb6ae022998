import VimL.Proofs.Approximation
import VimL.Proofs.Restoring

/-!
# Constructs and how they stop

An error leaves one construct after the other: the steps of a run, and rows of statements. To say
that a construct comes to a part of a program, the parts are watched: then the construct gives an
alarm, which nothing else does. What a construct does when its parts stop is seen from two runs of
it that differ in its parts only.
-/

namespace VimL

/-- What an error can leave: a step down into a part of a program, or a row of statements. -/
inductive Construct where
  | step (task : Task)
  | row (c : Context) (body : List Stmt)

variable {host : Host} {D : Discipline host} {i i' : Interp} {e e' : Engine} {stop other : Stop}

namespace Task

/-- A statement only starts while no cancellation is pending. -/
def Starts (e : Engine) : Task → Prop
  | .exec .. => e.interrupted = false
  | _ => True

def isTry : Task → Bool
  | .exec _ s => s.isTry
  | _ => false

def isThrow : Task → Bool
  | .exec _ s => s.isThrow
  | _ => false

open Run in
/-- The run of the task stops short like this. -/
def Stops (i : Interp) (e : Engine) (stop : Stop) (e' : Engine) : Task → Prop
  | .eval c x => (i.eval c x).Ends e (.error stop) e'
  | .exec c s => (i.exec c s).Ends e (.error stop) e'
  | .call c h arguments receiver => (i.call c h arguments receiver).Ends e (.error stop) e'

theorem stops_ofFuel_succ {t : Task} {fuel : Nat} :
    t.Stops (.ofFuel host (fuel + 1)) e stop e' ↔
      t.Stops ((Interp.ofFuel host fuel).above host) e stop e' := by
  cases t <;> rfl

end Task

namespace Construct

def Starts (e : Engine) : Construct → Prop
  | .step task => task.Starts e
  | .row .. => True

open Run in
def Stops (i : Interp) (e : Engine) (stop : Stop) (e' : Engine) : Construct → Prop
  | .step task => task.Stops i e stop e'
  | .row c body => (block i.exec c body).Ends e (.error stop) e'

end Construct

open Run in
/-- A statement ends as its execution does, from the engine in which it has started. -/
theorem Interp.exec_ends (host : Host) {c : Context} (s : Stmt) {ended : Except Stop Signal}
    (h : (execute i c s).Ends (e.record (.began c s)) ended e') :
    ((i.above host).exec c s).Ends e (ended.mapError (Stop.mark s.command e'.throwpoint)) e' := by
  have hrecord : (record (.began c s)).Ends e (.ok ()) (e.record (.began c s)) := ends_ok_iff.2 rfl
  have hrun : (do record (.began c s); execute i c s).Ends e ended e' := hrecord.bind h
  exact hrun.marked s.command

/-! ## Two runs of a construct -/

namespace Run

variable {α : Type} {m m' : Run α}

theorem UpTo.ends (h : UpTo stop m m') (hm : m'.Ends e (.error other) e') :
    m.Ends e (.error other) e' ∨ ∃ e₁, m.Ends e (.error stop) e₁ := by
  rcases h.eq_or e with heq | ⟨e₁, hgives⟩
  · exact .inl (ends_error_iff.2 (heq.trans (ends_error_iff.1 hm)))
  · exact .inr ⟨e₁, ends_error_iff.2 hgives⟩

theorem UpTo.ends_ok {a : α} (h : UpTo stop m m') (hm : m.Ends e (.ok a) e') :
    m'.Ends e (.ok a) e' := by
  have hown : m e = .ok a e' := ends_ok_iff.1 hm
  rcases h.eq_or e with heq | ⟨e₁, hgives⟩
  · exact ends_ok_iff.2 (heq.symm.trans hown)
  · cases hown.symm.trans hgives

/-- Whoever watches for what stops a run sees the run as it is, or stopped. -/
theorem UpTo.of_watched {hit : Engine → Bool}
    (h : ∀ e, hit e = true → ∃ e', m.Ends e (.error stop) e') : UpTo stop m (watched hit m) := by
  refine ⟨fun e => ?_⟩
  unfold watched
  cases hhit : hit e with
  | true =>
    obtain ⟨e', hm⟩ := h e hhit
    exact .inr ⟨e', ends_error_iff.1 hm⟩
  | false => exact .inl rfl

end Run

namespace Interp

variable {hit : Task → Engine → Bool}

theorem upTo_watched (hit : Task → Engine → Bool) (i : Interp) : (i.watched hit).UpTo .alarm i where
  rounds := .inl rfl
  eval _ _ := by unfold watched; infer_instance
  exec _ _ := by unfold watched; infer_instance
  call _ _ _ _ := by unfold watched; infer_instance

theorem upTo_of_watched (h : ∀ t e, hit t e = true → ∃ e', t.Stops i e stop e') :
    i.UpTo stop (i.watched hit) where
  rounds := .inl rfl
  eval _ _ := .of_watched (h _)
  exec _ _ := .of_watched (h _)
  call _ _ _ _ := .of_watched (h _)

end Interp

theorem Construct.Stops.upTo {p : Construct} (hp : p.Stops i' e other e') (h : i.UpTo stop i') :
    p.Stops i e other e' ∨ ∃ e₁, p.Stops i e stop e₁ := by
  cases p with
  | row c body => exact Run.UpTo.ends inferInstance hp
  | step t =>
    cases t with
    | eval c x => exact (h.eval c x).ends hp
    | exec c s => exact (h.exec c s).ends hp
    | call c handler arguments receiver => exact (h.call c handler arguments receiver).ends hp

/-- A try statement may take what stops one of its parts. -/
theorem Task.Stops.upTo_above [stop.Stable] {t : Task} (ht : t.Stops (i'.above host) e other e')
    (h : i.UpTo stop i') (htry : t.isTry = false) :
    t.Stops (i.above host) e other e' ∨ ∃ e₁, t.Stops (i.above host) e stop e₁ := by
  cases t with
  | eval c x =>
    have heval : Run.UpTo stop ((i.above host).eval c x) ((i'.above host).eval c x) :=
      inferInstanceAs (Run.UpTo stop (Run.evaluate host i c x) (Run.evaluate host i' c x))
    exact heval.ends ht
  | exec c s =>
    have : Run.UpTo stop (Run.execute i c s) (Run.execute i' c s) := Run.upTo_execute c htry
    have hexec : Run.UpTo stop ((i.above host).exec c s) ((i'.above host).exec c s) := by
      unfold Interp.above
      dsimp only
      infer_instance
    exact hexec.ends ht
  | call c handler arguments receiver =>
    have hcall : Run.UpTo stop ((i.above host).call c handler arguments receiver)
        ((i'.above host).call c handler arguments receiver) :=
      inferInstanceAs (Run.UpTo stop (Run.callHandler host i c handler arguments receiver)
        (Run.callHandler host i' c handler arguments receiver))
    exact hcall.ends ht

/-! ## Disciplines of constructs -/

theorem Run.Allows.admits {α : Type} {m : Run α} {post : α → Engine → Prop}
    (hm : Allows D e m post) (he : D.holds e) (h : m.Ends e (.error stop) e') : D.admits stop :=
  (hm he (D.refl e)).admits_of_ends h

/-- What is known about a run from one discipline is known from another one that says the same
about engines, as far as it is about how this very run stops. -/
theorem Run.Allows.transfer {D' : Discipline host} {α : Type} {m : Run α}
    {post : α → Engine → Prop} (hm : Allows D e m post) (hholds : D'.holds e → D.holds e)
    (hleads : ∀ e', D.leads e e' → D'.leads e e')
    (hadmits : ∀ stop e', m.Ends e (.error stop) e' → D.admits stop → D'.admits stop) :
    Allows D' e m post := by
  intro he _
  have hrun := hm (hholds he) (D.refl e)
  unfold Reaches at *
  cases h : m e with
  | ok a e' =>
    simp only [h] at hrun ⊢
    exact ⟨hleads e' hrun.1, hrun.2⟩
  | error stop e' =>
    simp only [h] at hrun ⊢
    exact ⟨hleads e' hrun.1, hadmits stop e' (ends_error_iff.2 h) hrun.2⟩

/-- If trees are not judged, constructs stop as the discipline of their parts admits. -/
theorem Construct.Stops.admits {p : Construct} (h : p.Stops i e stop e') (hi : i.Obeys D .any)
    (hstrict : ¬D.strict) (hlisted : ¬D.listed) (hplaced : ¬D.placed) (he : D.holds e)
    (hstarts : p.Starts e) : D.admits stop := by
  cases p with
  | row c body =>
    have hbody : Trees.any.body .top body := fun _ _ => trivial
    exact ((Run.keeps_body hi hbody fun hp => absurd hp hplaced).allows e).admits he h
  | step t =>
    cases t with
    | eval c x => exact ((hi.eval c x trivial).allows e).admits he h
    | exec c s =>
      exact (hi.exec e c .top s trivial (fun hp => absurd hp hplaced) hstarts).admits he h
    | call c handler arguments receiver =>
      have hmay : D.MayCall handler e := ⟨fun h => absurd h hstrict, fun h => absurd h hlisted⟩
      exact (hi.call e c handler arguments receiver hmay).admits he h

theorem Interp.obeys_quiet (host : Host) (fuel : Nat) :
    (ofFuel host fuel).Obeys (.restoring host (.quiet fun _ _ _ => True)) .any :=
  obeys_ofFuel (Discipline.uniform_quiet fun _ _ _ _ => trivial) False.elim fuel

/-- No construct gives an alarm by itself. -/
theorem Construct.Stops.ne_alarm {fuel : Nat} {p : Construct}
    (h : p.Stops (.ofFuel host fuel) e stop e') (hstarts : p.Starts e) : stop ≠ .alarm :=
  h.admits (Interp.obeys_quiet host fuel) id id id ⟨fun _ _ _ => trivial, trivial⟩ hstarts

end VimL
