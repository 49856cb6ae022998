import VimL.Proofs.Runs.Interpreter

/-!
# Runs that are watched

A watched interpreter looks at the engine before every step down into a part of a program, and
stops with an alarm if it sees what it watches for. No operation of the engine stops like this.
Watched runs keep to a discipline as others do, by induction on the fuel.
-/

namespace VimL

/-- A step down into a part of a program. -/
inductive Task where
  | eval (c : Context) (x : Expr)
  | exec (c : Context) (s : Stmt)
  | call (c : Context) (h : Handler) (arguments : List Ref) (receiver : Option Ref)

def Stop.alarm : Stop := .internal .noScriptUnit

def Run.watched {α : Type} (hit : Engine → Bool) (m : Run α) : Run α := fun e =>
  if hit e then .error .alarm e else m e

namespace Interp

/-- The interpreter with all of its runs watched. -/
def watched (hit : Task → Engine → Bool) (i : Interp) : Interp where
  fuel := i.fuel
  eval c x := Run.watched (hit (.eval c x)) (i.eval c x)
  exec c s := Run.watched (hit (.exec c s)) (i.exec c s)
  call c h arguments receiver :=
    Run.watched (hit (.call c h arguments receiver)) (i.call c h arguments receiver)

/-- The interpreter that goes one step deeper. -/
def above (host : Host) (i : Interp) : Interp where
  fuel := i.fuel
  eval c x := Run.evaluate host i c x
  exec c s := Run.marked s.command do
    Run.record (.began c s)
    Run.execute i c s
  call c h arguments receiver := Run.callHandler host i c h arguments receiver

/-- The interpreter that goes `fuel` steps deep and watches each of them. -/
def watching (host : Host) (hit : Task → Engine → Bool) : Nat → Interp
  | 0 => spent
  | fuel + 1 => {
      fuel := fuel
      eval := fun c x =>
        Run.watched (hit (.eval c x)) (Run.evaluate host (watching host hit fuel) c x)
      exec := fun c s => Run.watched (hit (.exec c s)) (Run.marked s.command do
        Run.record (.began c s)
        Run.execute (watching host hit fuel) c s)
      call := fun c h arguments receiver => Run.watched (hit (.call c h arguments receiver))
        (Run.callHandler host (watching host hit fuel) c h arguments receiver) }

/-- Who watches for nothing sees a run as it is. -/
theorem watching_never (host : Host) (fuel : Nat) :
    watching host (fun _ _ => false) fuel = ofFuel host fuel := by
  induction fuel with
  | zero => rfl
  | succ fuel ih =>
    unfold watching ofFuel
    rw [ih]
    rfl

end Interp

/-- A discipline that says the same inside of calls, and that covers all parts of a tree that is
judged well. -/
structure Discipline.Uniform {host : Host} (D : Discipline host) (T : Trees) : Prop where
  expr : ∀ {x}, T.expr x → T.CoversExpr D x
  stmt : ∀ {z s}, T.stmt z s → T.CoversStmt D z s
  callable : ∀ {f}, D.fits f → T.Callable f
  runs : ∀ c, D.runs c
  opens : ∀ entry, D.Opens D entry
  exhausted : D.admits .exhausted
  unlettered : ¬D.lettered
  unsparing : ¬D.sparing
  leaves : D.minded → ∀ hit fuel, (Interp.watching host hit fuel).LeavesFilling

variable {host : Host} {D : Discipline host} {T : Trees}

/-! ## Trees that are not judged -/

namespace Trees

theorem callable_any (f : Function) : any.Callable f := ⟨fun _ _ _ => trivial, fun _ _ => trivial⟩

section Any

variable (hstrict : ¬D.strict) (hfits : ∀ f, D.fits f)

include hstrict hfits

theorem coversExpr_any (x : Expr) : any.CoversExpr D x where
  parts _ _ := trivial
  operator h := absurd h hstrict
  lambda _ _ _ := hfits _

theorem coversStmt_any (hplaced : ¬D.placed) (z : Zone) {s : Stmt}
    (hrounds : s.isWhile = true → D.admits .exhausted)
    (hthrows : s.isThrow = true → ∀ text, D.admits (.error (.ofCause (.thrown text)))) :
    any.CoversStmt D z s where
  parts _ _ := trivial
  blocks _ _ _ _ := trivial
  definition _ _ _ _ _ _ _ _ := hfits _
  entry h := absurd h hstrict
  stands h := absurd h hplaced
  rounds := hrounds
  throws := hthrows

end Any

end Trees

/-- A discipline that asks nothing of trees and functions, and that says the same inside of
calls. -/
theorem Discipline.uniform_any (hstrict : ¬D.strict) (hplaced : ¬D.placed)
    (hfits : ∀ f, D.fits f) (hruns : ∀ c, D.runs c) (hopens : ∀ entry, D.Opens D entry)
    (hexhausted : D.admits .exhausted)
    (hthrows : ∀ text, D.admits (.error (.ofCause (.thrown text)))) (hlettered : ¬D.lettered)
    (hsparing : ¬D.sparing)
    (hleaves : D.minded → ∀ hit fuel, (Interp.watching host hit fuel).LeavesFilling) :
    D.Uniform .any where
  expr _ := Trees.coversExpr_any hstrict hfits _
  stmt _ := Trees.coversStmt_any hstrict hfits hplaced _ (fun _ => hexhausted) fun _ => hthrows
  callable _ := Trees.callable_any _
  runs := hruns
  opens := hopens
  exhausted := hexhausted
  unlettered := hlettered
  unsparing := hsparing
  leaves := hleaves

/-- The tree of a step is judged well, or what is called may be called. -/
def Task.Judged (D : Discipline host) (T : Trees) (e : Engine) : Task → Prop
  | .eval _ x => T.expr x
  | .exec c s => ∃ z, T.stmt z s ∧ (D.placed → c.StandsIn z)
  | .call _ h _ _ => D.MayCall h e

theorem Run.Allows.watched {α : Type} {m : Run α} {post : α → Engine → Prop} {e : Engine}
    {hit : Engine → Bool} (halarm : D.holds e → hit e = true → D.admits .alarm)
    (hm : hit e = false → Allows D e m post) : Allows D e (watched hit m) post := by
  intro he hleads
  unfold Reaches Run.watched
  cases hhit : hit e with
  | true => exact ⟨hleads, halarm he hhit⟩
  | false => exact hm hhit he hleads

namespace Interp

theorem obeys_spent (hexhausted : D.admits .exhausted) : spent.Obeys D T where
  eval _ _ _ := ⟨fun _ => .throw hexhausted⟩
  exec _ _ _ _ _ _ _ := .throw hexhausted
  call _ _ _ _ _ _ := .throw hexhausted

theorem Obeys.allows_callHandler {i : Interp} (hi : i.Obeys D T)
    (hopens : ∀ entry, D.Opens D entry) (hcallable : ∀ {f}, D.fits f → T.Callable f)
    (hleaves : D.minded → i.LeavesFilling) (hhost : D.strict → host.functions = [])
    (e : Engine) (c : Context) (h : Handler) (arguments : List Ref)
    (hmeets : h.Meets D.toDemands e arguments) (receiver : Option Ref) (hh : D.MayCall h e) :
    Run.Allows D e (Run.callHandler host i c h arguments receiver) fun _ _ => True :=
  Run.allows_callHandler hhost c
    (fun _ _ _ _ _ hf => ⟨D, T, hi, hopens _, hcallable hf, hleaves⟩)
    (fun _ _ => ⟨D, T, hi, hopens _⟩) arguments hmeets receiver hh.known

/-- Calls that do not do what the discipline asks of them may be watched for. -/
theorem obeys_watching_of_meets {hit : Task → Engine → Bool}
    (hexpr : ∀ {x}, T.expr x → T.CoversExpr D x)
    (hstmt : ∀ {z s}, T.stmt z s → T.CoversStmt D z s)
    (hcallable : ∀ {f}, D.fits f → T.Callable f) (hruns : ∀ c, D.runs c)
    (hopens : ∀ entry, D.Opens D entry) (hexhausted : D.admits .exhausted)
    (hleaves : D.minded → ∀ fuel, (watching host hit fuel).LeavesFilling)
    (hmeets : ∀ c h arguments receiver e,
      hit (.call c h arguments receiver) e = false → h.Meets D.toDemands e arguments)
    (hhost : D.strict → host.functions = [])
    (halarm : ∀ task e, task.Judged D T e → D.holds e → hit task e = true → D.admits .alarm)
    (fuel : Nat) : (watching host hit fuel).Obeys D T := by
  induction fuel with
  | zero => exact obeys_spent hexhausted
  | succ fuel ih =>
    have hstep : (((watching host hit fuel).above host).watched hit).Obeys D T := by
      constructor
      case eval =>
        exact fun c x hx => ⟨fun e => .watched (halarm _ e hx) fun _ =>
          (Run.keeps_evaluate c ih (hexpr hx)).allows e⟩
      case exec =>
        exact fun e c z s hs hc hpending => .watched (halarm _ e ⟨z, hs, hc⟩) fun _ =>
          (Run.allows_start c ih (hstmt hs) hc (fun _ => hruns c) hpending).marked s.command
      case call =>
        exact fun e c h arguments receiver hh => .watched (halarm _ e hh) fun hfree =>
          ih.allows_callHandler hopens hcallable (fun hminded => hleaves hminded fuel) hhost e c h
            arguments (hmeets c h arguments receiver e hfree) receiver hh
    exact ⟨hstep.eval, hstep.exec, hstep.call⟩

theorem obeys_watching (hu : D.Uniform T) (hhost : D.strict → host.functions = [])
    {hit : Task → Engine → Bool}
    (halarm : ∀ task e, task.Judged D T e → D.holds e → hit task e = true → D.admits .alarm)
    (fuel : Nat) : (watching host hit fuel).Obeys D T :=
  obeys_watching_of_meets hu.expr hu.stmt hu.callable hu.runs hu.opens hu.exhausted
    (fun hminded => hu.leaves hminded hit)
    (fun _ _ _ _ _ _ => .of_none hu.unlettered hu.unsparing) hhost halarm fuel

theorem obeys_ofFuel (hu : D.Uniform T) (hhost : D.strict → host.functions = []) (fuel : Nat) :
    (ofFuel host fuel).Obeys D T := by
  have hnever (task : Task) (e : Engine) (_ : task.Judged D T e) (_ : D.holds e)
      (h : false = true) : D.admits .alarm := absurd h Bool.false_ne_true
  exact watching_never host fuel ▸ obeys_watching hu hhost hnever fuel

end Interp

end VimL
