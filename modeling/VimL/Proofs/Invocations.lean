import VimL.Proofs.Watching

/-!
# Invocations that are still open

Arguments are bound one after the other, and the default of a parameter may be any expression.
Whatever runs while it is evaluated belongs to other invocations: this one is still open when the
evaluation is over. A discipline for each frame shows it.
-/

namespace VimL

variable {host : Host}

@[reducible] def Demands.filling (id : FrameId) : Demands where
  strict := False
  named := False
  listed := False
  minded := False
  lettered := False
  sparing := False
  fits _ := True
  runs _ := True
  fresh other := other ≠ id

namespace Engine

variable {id : FrameId} {e e' e'' : Engine}

/-- If not all arguments of the invocation are bound, it is so afterwards. -/
structure LeavesOpen (id : FrameId) (e e' : Engine) : Prop where
  grows : e.Grows e'
  filling : e.Filling id → e'.Filling id

namespace LeavesOpen

theorem of_eq (hgrows : e.Grows e') (hframes : e'.frames.size = e.frames.size)
    (hnamings : e'.namings = e.namings) : e.LeavesOpen id e' :=
  ⟨hgrows, fun he => he.of_eq hframes hnamings⟩

theorem trans (h : e.LeavesOpen id e') (h' : e'.LeavesOpen id e'') : e.LeavesOpen id e'' :=
  ⟨h.grows.trans h'.grows, fun he => h'.filling (h.filling he)⟩

theorem note (e : Engine) {n : Naming} (hn : ∀ arguments, n ≠ .called id arguments) :
    e.LeavesOpen id (e.note n) :=
  ⟨.of_eq rfl rfl rfl, fun he => he.note hn⟩

theorem changeTable (e : Engine) (change : Table Ref → Table Ref) (p : Place) :
    e.LeavesOpen id (e.changeTable change p) :=
  .of_eq (grows_changeTable e change p) (e.frames_size_changeTable change p)
    (e.changeTable_namings change p)

theorem of_edit (h : e.Edit (.filling id) e') : e.LeavesOpen id e' := by
  have hgrows : e.Grows e' := h.grows
  cases h with
  | bind p _ name r | unbind p _ name => exact (changeTable e _ p).trans (note _ nofun)
  | argument other name r | parameter other name r => exact changeTable e _ _
  | invoke f =>
    have hpush : e.LeavesOpen id { e with frames := e.frames.push f } :=
      ⟨.of_eq rfl rfl rfl, fun he => ⟨Nat.lt_of_lt_of_le he.lt_size (by simp), he.not_called⟩⟩
    exact hpush.trans (note _ nofun)
  | called other hid =>
    refine note e fun arguments heq => hid ?_
    cases heq
    rfl
  | declare table | withdraw table => cases table <;> exact .of_eq hgrows rfl rfl
  | _ => exact .of_eq hgrows rfl rfl

theorem leave {entry : CallEntry} (h : (e.enter entry).LeavesOpen id e') :
    e.LeavesOpen id (e.leave e') := by
  have henter : e.LeavesOpen id (e.enter entry) := by
    cases entry <;> exact .of_eq (.of_eq rfl rfl rfl) rfl rfl
  exact henter.trans (h.trans (.of_eq (.of_eq rfl rfl rfl) rfl rfl))

theorem restoreVim {err : ScriptError} {exception throwpoint : Ref}
    (h : (e.catching err exception throwpoint).LeavesOpen id e') :
    e.LeavesOpen id (e.restoreVim e') := by
  refine ⟨h.grows.restoreVim, fun he => ?_⟩
  exact ((h.filling he.catching).note (n := .hidden) nofun).of_eq rfl rfl

theorem leaveFinal {event : Event} (htry : (e.record event).LeavesOpen id e')
    (hfinal : e'.enterFinal.LeavesOpen id e'') (c : Context) (body : List Stmt) :
    e.LeavesOpen id (e'.leaveFinal c body e'') :=
  ⟨(grows_record e event).trans (htry.grows.trans (hfinal.grows.leaveFinal c body)),
    fun he => (hfinal.filling ((htry.filling (he.of_eq rfl rfl)).of_eq rfl rfl)).of_eq rfl rfl⟩

end LeavesOpen

end Engine

namespace Discipline

def filling (host : Host) (id : FrameId) : Discipline host where
  toDemands := .filling id
  placed := False
  linear := False
  holds e := e.Filling id
  leads := Engine.LeavesOpen id
  admits _ := True
  sound _ := False.elim
  wellFormed _ := False.elim
  function _ _ := trivial
  unnamed _ := False.elim
  unentered _ := False.elim
  newFrame {e} he := by
    rintro rfl
    exact Nat.lt_irrefl _ he.lt_size
  registry _ := False.elim
  refl e := .of_eq (.refl e) rfl rfl
  trans h h' := h.trans h'
  holds_of_leads he h := h.filling he
  grows h := h.grows
  affords _ := False.elim
  edit _ h := .of_edit h
  create _ h _ _ := h.trans (.of_eq (.of_eq rfl rfl rfl) rfl rfl)
  write _ h _ _ _ := h.trans (.of_eq (.of_eq rfl rfl rfl) rfl rfl)
  began _ _ _ _ := .of_eq (Engine.grows_record _ _) rfl rfl
  cancelled _ := .of_eq (Engine.grows_requestCancel _) rfl rfl
  holds_catching he _ := he.catching
  caught _ h := h.restoreVim
  holds_enterFinal he := he.of_eq rfl rfl
  final _ _ htry hfinal := htry.leaveFinal hfinal _ _
  admits_error _ _ := trivial
  admits_mark _ _ _ := trivial
  admits_finished := trivial
  admits_internal _ _ := trivial

theorem uniform_filling (id : FrameId) : (filling host id).Uniform .any :=
  uniform_any (fun h => h) (fun h => h) (fun _ => trivial) (fun _ => trivial)
    (fun entry => .same (fun he => by cases entry <;> exact he.of_eq rfl rfl) fun h => h.leave)
    trivial (fun _ => trivial) (fun h => h) (fun h => h) False.elim

end Discipline

/-- Whatever is evaluated, invocations that are still open stay so. -/
theorem Interp.leavesFilling_watching (host : Host) (hit : Task → Engine → Bool) (fuel : Nat) :
    (watching host hit fuel).LeavesFilling := by
  refine fun c x => ⟨fun {e r e' id} hrun he => ?_⟩
  have hobeys : (watching host hit fuel).Obeys (.filling host id) .any :=
    obeys_watching (Discipline.uniform_filling id) False.elim (fun _ _ _ _ _ => trivial) fuel
  have heval := (hobeys.eval c x trivial).allows e he (Discipline.refl _ e)
  have hleads : e.LeavesOpen id e' := heval.reach_of_ends (Run.ends_ok_iff.2 hrun)
  exact hleads.filling he

end VimL
