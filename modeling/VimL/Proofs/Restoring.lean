import VimL.Proofs.Watching

/-!
# What runs put back

However a run ends, the calls that were running before it are running again, and the variables of
the editor are bound to the same objects. What is true of every function of an engine stays true
if it is true of the functions that are defined.
-/

namespace VimL

namespace Engine

/-- The same calls are running under the same limit, and the variables of the editor are the
same. -/
structure Restored (e e' : Engine) : Prop where
  config : e'.config = e.config
  callStack : e'.callStack = e.callStack
  callDepth : e'.callDepth = e.callDepth
  vim : e'.vim = e.vim

def AllFit (fits : Function → Prop) (e : Engine) : Prop :=
  ∀ id f, e.function? id = some f → fits f

variable {host : Host} {d : Demands} {fits : Function → Prop} {e e' e'' : Engine}

namespace Restored

theorem refl (e : Engine) : e.Restored e := ⟨rfl, rfl, rfl, rfl⟩

theorem trans (h : e.Restored e') (h' : e'.Restored e'') : e.Restored e'' :=
  ⟨h'.config.trans h.config, h'.callStack.trans h.callStack, h'.callDepth.trans h.callDepth,
    h'.vim.trans h.vim⟩

theorem of_edit (h : e.Edit d e') : e.Restored e' := by
  cases h with
  | bind p hp | unbind p hp =>
    cases p with
    | vim => cases hp
    | _ => exact ⟨rfl, rfl, rfl, rfl⟩
  | declare table | withdraw table => cases table <;> exact ⟨rfl, rfl, rfl, rfl⟩
  | _ => exact ⟨rfl, rfl, rfl, rfl⟩

end Restored

theorem Edit.functions_cases (h : e.Edit d e') :
    e'.functions = e.functions ∨ (∃ f, d.fits f ∧ e'.functions = e.functions.push f) ∨
      ∃ id : FunctionId, e'.functions = e.functions.modify id.index fun f =>
        { f with deleted := true } := by
  cases h with
  | define f hf => exact .inr (.inl ⟨f, hf, rfl⟩)
  | declare table name f hf => exact .inr (.inl ⟨f, hf, changeFunctions_functions _ _ table⟩)
  | withdraw table name id => exact .inr (.inr ⟨id, changeFunctions_functions _ _ table⟩)
  | bind p | unbind p => exact .inl (changeTable_functions e _ p)
  | _ => exact .inl rfl

namespace AllFit

theorem of_eq (h : e.AllFit fits) (hfunctions : e'.functions = e.functions) : e'.AllFit fits := by
  intro id f hf
  exact h id f (by simpa [function?, hfunctions] using hf)

theorem edit (hretired : ∀ {f}, d.fits f → d.fits { f with deleted := true }) (h : e.AllFit d.fits)
    (hedit : e.Edit d e') : e'.AllFit d.fits := by
  rcases hedit.functions_cases with heq | ⟨f, hf, heq⟩ | ⟨id, heq⟩
  · exact h.of_eq heq
  · intro id g hg
    simp only [function?, heq, Array.getElem?_push] at hg
    split at hg
    · exact Option.some.inj hg ▸ hf
    · exact h id g hg
  · intro other g hg
    simp only [function?, heq, Array.getElem?_modify] at hg
    split at hg
    · obtain ⟨f, hf, rfl⟩ := Option.map_eq_some_iff.1 hg
      exact hretired (h other f hf)
    · exact h other g hg

end AllFit

/-- A run puts back what was running, and functions that it defines fit. -/
structure Returns (fits : Function → Prop) (e e' : Engine) : Prop where
  grows : e.Grows e'
  restored : e.Restored e'
  functions : e.AllFit fits → e'.AllFit fits

namespace Returns

theorem refl (e : Engine) : e.Returns fits e := ⟨.refl e, .refl e, id⟩

theorem trans (h : e.Returns fits e') (h' : e'.Returns fits e'') : e.Returns fits e'' :=
  ⟨h.grows.trans h'.grows, h.restored.trans h'.restored, fun he => h'.functions (h.functions he)⟩

theorem of_eq (hgrows : e.Grows e') (hrestored : e.Restored e')
    (hfunctions : e'.functions = e.functions) : e.Returns fits e' :=
  ⟨hgrows, hrestored, fun he => he.of_eq hfunctions⟩

theorem leave {entry : CallEntry} (h : (e.enter entry).Returns fits e') :
    e.Returns fits (e.leave e') := by
  have hconfig : (e.enter entry).config = e.config := by cases entry <;> rfl
  have hvim : (e.enter entry).vim = e.vim := by cases entry <;> rfl
  have hfunctions : (e.enter entry).functions = e.functions := by cases entry <;> rfl
  refine ⟨h.grows.leave, ?_, fun hfit => ?_⟩
  · exact ⟨h.restored.config.trans hconfig, rfl, rfl, h.restored.vim.trans hvim⟩
  · exact (h.functions (hfit.of_eq hfunctions)).of_eq rfl

theorem restoreVim {err : ScriptError} {exception throwpoint : Ref}
    (h : (e.catching err exception throwpoint).Returns fits e') :
    e.Returns fits (e.restoreVim e') := by
  refine ⟨h.grows.restoreVim, ?_, fun hfit => ?_⟩
  · exact ⟨h.restored.config, h.restored.callStack, h.restored.callDepth, rfl⟩
  · exact (h.functions (hfit.of_eq rfl)).of_eq rfl

theorem leaveFinal {event : Event} (htry : (e.record event).Returns fits e')
    (hfinal : e'.enterFinal.Returns fits e'') (c : Context) (body : List Stmt) :
    e.Returns fits (e'.leaveFinal c body e'') := by
  have hended : e'.Grows (e'.leaveFinal c body e'') := hfinal.grows.leaveFinal c body
  refine ⟨(grows_record e event).trans (htry.grows.trans hended), ?_, fun hfit => ?_⟩
  · exact ⟨hfinal.restored.config.trans htry.restored.config,
      hfinal.restored.callStack.trans htry.restored.callStack,
      hfinal.restored.callDepth.trans htry.restored.callDepth,
      hfinal.restored.vim.trans htry.restored.vim⟩
  · exact (hfinal.functions ((htry.functions (hfit.of_eq rfl)).of_eq rfl)).of_eq rfl

end Returns

end Engine

/-! ## Disciplines of runs that put back -/

/-- What is asked of functions, of the calls that are running, and of the ways to stop. -/
structure Rules where
  placed : Prop
  fits : Function → Prop
  running : Config → List CallEntry → Nat → Prop
  admits : Stop → Prop
  retired : ∀ {f}, fits f → fits { f with deleted := true }
  error : ∀ {err}, (placed → err.cause.isStray = false) → err.cause.isThrown = false →
    admits (.error err)
  mark : ∀ {stop}, admits stop → ∀ command throwpoint, admits (stop.mark command throwpoint)
  finished : admits .finished
  internal : ∀ {f}, f ≠ .noScriptUnit → admits (.internal f)

namespace Stop

variable {stop : Stop}

theorem mark_ne {other : Stop} (hother : ∀ err, error err ≠ other) (h : stop ≠ other)
    (command throwpoint : String) : stop.mark command throwpoint ≠ other := by
  cases stop with
  | error err => exact hother _
  | _ => exact h

theorem error_ne_alarm (err : ScriptError) : error err ≠ .alarm := nofun

theorem mark_ne_alarm (h : stop ≠ .alarm) (command throwpoint : String) :
    stop.mark command throwpoint ≠ .alarm := mark_ne error_ne_alarm h command throwpoint

theorem finished_ne_alarm : finished ≠ .alarm := nofun

theorem exhausted_ne_alarm : exhausted ≠ .alarm := nofun

theorem internal_ne_alarm {f : Failure} (hf : f ≠ .noScriptUnit) : internal f ≠ .alarm :=
  fun h => hf (internal.inj h)

end Stop

/-- Nothing is asked of functions, and no alarm is given. -/
def Rules.quiet (running : Config → List CallEntry → Nat → Prop) : Rules where
  placed := False
  fits _ := True
  running := running
  admits stop := stop ≠ .alarm
  retired h := h
  error _ _ := Stop.error_ne_alarm _
  mark h := Stop.mark_ne_alarm h
  finished := Stop.finished_ne_alarm
  internal hf := Stop.internal_ne_alarm hf

namespace Discipline

def restoring (host : Host) (rules : Rules) : Discipline host where
  toDemands := .ofFits False False rules.fits
  placed := rules.placed
  linear := False
  holds e := e.AllFit rules.fits ∧ rules.running e.config e.callStack e.callDepth
  leads := Engine.Returns rules.fits
  admits := rules.admits
  sound _ := False.elim
  wellFormed _ := False.elim
  function he hf := he.1 _ _ hf
  unnamed _ := False.elim
  unentered _ := False.elim
  newFrame _ := trivial
  registry _ := False.elim
  refl := .refl
  trans h h' := h.trans h'
  holds_of_leads he h := by
    refine ⟨h.functions he.1, ?_⟩
    rw [h.restored.config, h.restored.callStack, h.restored.callDepth]
    exact he.2
  grows h := h.grows
  affords _ := False.elim
  edit _ h := ⟨h.grows, .of_edit h,
    fun hfit => hfit.edit rules.retired h⟩
  create _ h _ _ := h.trans (.of_eq (.of_eq rfl rfl rfl) ⟨rfl, rfl, rfl, rfl⟩ rfl)
  write _ h _ _ _ := h.trans (.of_eq (.of_eq rfl rfl rfl) ⟨rfl, rfl, rfl, rfl⟩ rfl)
  began _ _ _ _ := .of_eq (Engine.grows_record _ _) ⟨rfl, rfl, rfl, rfl⟩ rfl
  cancelled _ := .of_eq (Engine.grows_requestCancel _) ⟨rfl, rfl, rfl, rfl⟩ rfl
  holds_catching he _ := ⟨he.1.of_eq rfl, he.2⟩
  caught _ h := h.restoreVim
  holds_enterFinal he := ⟨he.1.of_eq rfl, he.2⟩
  final _ _ htry hfinal := htry.leaveFinal hfinal _ _
  admits_error := rules.error
  admits_mark := rules.mark
  admits_finished := rules.finished
  admits_internal hf _ := rules.internal hf

variable {host : Host} {rules rules' : Rules}

/-- Inside of a call, the calls that are running are one more. -/
theorem opens_restoring {entry : CallEntry} (hplaced : rules.placed → rules'.placed)
    (hfits : rules'.fits = rules.fits)
    (hrunning : ∀ e : Engine, rules.running e.config e.callStack e.callDepth → e.HasRoom entry →
      rules'.running (e.enter entry).config (e.enter entry).callStack (e.enter entry).callDepth)
    (hadmits : ∀ {stop}, rules'.admits stop → rules.admits stop) :
    (restoring host rules).Opens (restoring host rules') entry where
  strict := id
  placed := hplaced
  named := id
  minded := id
  lettered := id
  sparing := id
  fresh := id
  enter {e} he hroom := by
    have hfunctions : (e.enter entry).functions = e.functions := by cases entry <;> rfl
    exact ⟨hfits ▸ he.1.of_eq hfunctions, hrunning e he.2 hroom⟩
  leave {e e'} _ _ h := by
    have hreturns : (e.enter entry).Returns rules'.fits e' := h
    rw [hfits] at hreturns
    exact hreturns.leave
  admits := hadmits

variable {running : Config → List CallEntry → Nat → Prop}

theorem coversExpr_quiet (x : Expr) : Trees.any.CoversExpr (restoring host (.quiet running)) x :=
  Trees.coversExpr_any id (fun _ => trivial) x

theorem coversStmt_quiet (z : Zone) (s : Stmt) :
    Trees.any.CoversStmt (restoring host (.quiet running)) z s :=
  Trees.coversStmt_any id (fun _ => trivial) id z (fun _ => Stop.exhausted_ne_alarm)
    fun _ _ => Stop.error_ne_alarm _

/-- Calls that are let in keep what is asked of the calls that are running. -/
theorem uniform_quiet (hrunning : ∀ (entry : CallEntry) (e : Engine),
      running e.config e.callStack e.callDepth → e.HasRoom entry →
        running (e.enter entry).config (e.enter entry).callStack (e.enter entry).callDepth) :
    (restoring host (.quiet running)).Uniform .any :=
  uniform_any id id (fun _ => trivial) (fun _ => trivial)
    (fun entry => opens_restoring id rfl (hrunning entry) id) Stop.exhausted_ne_alarm
    (fun _ => Stop.error_ne_alarm _) id id False.elim

end Discipline

end VimL
