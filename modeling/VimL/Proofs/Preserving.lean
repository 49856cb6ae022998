import VimL.Proofs.Bindings
import VimL.Proofs.Recording
import VimL.Proofs.Watching

/-!
# What every run preserves

Whatever runs, containers are only replaced by containers, and scalars by new objects, so that a
scalar keeps its value. Scripts and frames that are there stay. The arguments of an invocation are
bound by this invocation alone: what runs while they are bound leaves those alone that are bound
already.
-/

namespace VimL

variable {host : Host} {kept : FrameId → Prop}

/-- New calls have frames that are not looked at. -/
@[reducible] def Demands.preserving (kept : FrameId → Prop) : Demands where
  strict := False
  named := False
  listed := False
  minded := False
  lettered := False
  sparing := False
  fits _ := True
  runs _ := True
  fresh id := ¬kept id

namespace Engine

variable {e e' e'' : Engine} {c : Context}

/-- Scalars keep their values, scripts and frames stay, and the frames that are looked at keep
their arguments. -/
structure Preserves (kept : FrameId → Prop) (e e' : Engine) : Prop where
  grows : e.Grows e'
  scalars : e.heap.KeepsScalars e'.heap
  scripts : e.scripts.size ≤ e'.scripts.size
  frames : e.frames.size ≤ e'.frames.size
  arguments : ∀ id, kept id → e'.tableAt (.arguments id) = e.tableAt (.arguments id)

/-- The frames that are looked at are there. -/
def HasFrames (kept : FrameId → Prop) (e : Engine) : Prop := ∀ id, kept id → id.index < e.frames.size

namespace Preserves

theorem of_heap (hgrows : e.Grows e') (hheap : e.heap.KeepsScalars e'.heap)
    (hscripts : e'.scripts.size = e.scripts.size) (hframes : e'.frames = e.frames) :
    e.Preserves kept e' where
  grows := hgrows
  scalars := hheap
  scripts := Nat.le_of_eq hscripts.symm
  frames := Nat.le_of_eq (congrArg Array.size hframes).symm
  arguments id _ := by simp only [tableAt, frame?, hframes]

theorem of_eq (hgrows : e.Grows e') (hheap : e'.heap = e.heap)
    (hscripts : e'.scripts.size = e.scripts.size) (hframes : e'.frames = e.frames) :
    e.Preserves kept e' :=
  of_heap hgrows (hheap ▸ .refl _) hscripts hframes

theorem refl (e : Engine) : e.Preserves kept e := .of_eq (.refl e) rfl rfl rfl

theorem trans (h : e.Preserves kept e') (h' : e'.Preserves kept e'') : e.Preserves kept e'' where
  grows := h.grows.trans h'.grows
  scalars := h.scalars.trans h'.scalars
  scripts := Nat.le_trans h.scripts h'.scripts
  frames := Nat.le_trans h.frames h'.frames
  arguments id hid := (h'.arguments id hid).trans (h.arguments id hid)

theorem of_onlyAdds (h : e.OnlyAdds e') : e.Preserves kept e' := by
  refine of_heap ?_ (.of_extends h.heap) (by rw [h.rest]) (by rw [h.rest])
  rw [h.rest]
  exact .of_eq rfl rfl rfl

/-- A table is changed that does not hold arguments that are looked at. -/
theorem changeTable (e : Engine) (change : Table Ref → Table Ref) {p : Place}
    (hp : ∀ id, kept id → p ≠ .arguments id) : e.Preserves kept (e.changeTable change p) where
  grows := grows_changeTable e change p
  scalars := e.changeTable_heap change p ▸ .refl _
  scripts := by cases p <;> simp [Engine.changeTable]
  frames := Nat.le_of_eq (e.frames_size_changeTable change p).symm
  arguments id hid := tableAt_changeTable_of_ne e change (hp id hid).symm

/-- Where no arguments are looked at, every table may be changed. -/
theorem changeAny (e : Engine) (change : Table Ref → Table Ref) (p : Place) :
    e.Preserves (fun _ => False) (e.changeTable change p) :=
  changeTable e change fun _ => False.elim

theorem stored (e : Engine) (r : Ref) : e.Preserves kept (e.withHeap (e.heap.stored r).2) :=
  of_heap (.of_eq rfl rfl rfl) (.of_extends (.stored e.heap r)) rfl rfl

theorem invoke (he : e.HasFrames kept) (f : Frame) : e.Preserves kept (e.invoke f) where
  grows := .of_eq rfl rfl rfl
  scalars := .refl _
  scripts := Nat.le_refl _
  frames := by simp [Engine.invoke, Engine.note]
  arguments id hid := by
    have hne : id.index ≠ e.frames.size := Nat.ne_of_lt (he id hid)
    simp only [tableAt, frame?, Engine.invoke, Engine.note, Array.getElem?_push, if_neg hne]

theorem of_edit (he : e.HasFrames kept) (h : e.Edit (.preserving kept) e') :
    e.Preserves kept e' := by
  have hgrows : e.Grows e' := h.grows
  have hheap : e.heap.KeepsScalars e'.heap := .of_edit h
  have hnote (e : Engine) (n : Naming) : e.Preserves kept (e.note n) :=
    .of_eq (.of_eq rfl rfl rfl) rfl rfl rfl
  cases h with
  | bind p hp | unbind p hp =>
    refine (changeTable e _ fun id _ heq => ?_).trans (hnote _ _)
    rw [heq] at hp
    cases hp
  | argument other name r hfresh =>
    refine changeTable e _ fun id hid heq => hfresh ?_
    cases heq
    exact hid
  | parameter => exact changeTable e _ nofun
  | invoke f => exact invoke he f
  | declare table | withdraw table =>
    cases table <;> exact .of_heap hgrows hheap (by simp [declare, withdraw, changeFunctions]) rfl
  | _ => exact .of_heap hgrows hheap rfl rfl

theorem enter (e : Engine) (entry : CallEntry) : e.Preserves kept (e.enter entry) := by
  cases entry <;> exact .of_eq (.of_eq rfl rfl rfl) rfl rfl rfl

theorem leave {entry : CallEntry} (h : (e.enter entry).Preserves kept e') :
    e.Preserves kept (e.leave e') :=
  (enter e entry).trans (h.trans (.of_eq (.of_eq rfl rfl rfl) rfl rfl rfl))

theorem catching (e : Engine) (err : ScriptError) (exception throwpoint : Ref) :
    e.Preserves kept (e.catching err exception throwpoint) :=
  .of_eq (.of_eq rfl rfl rfl) rfl rfl rfl

theorem restoreVim {err : ScriptError} {exception throwpoint : Ref}
    (h : (e.catching err exception throwpoint).Preserves kept e') :
    e.Preserves kept (e.restoreVim e') :=
  (catching e err exception throwpoint).trans (h.trans (.of_eq (.of_eq rfl rfl rfl) rfl rfl rfl))

theorem leaveFinal {event : Event} (htry : (e.record event).Preserves kept e')
    (hfinal : e'.enterFinal.Preserves kept e'') (c : Context) (body : List Stmt) :
    e.Preserves kept (e'.leaveFinal c body e'') := by
  have hbegan : e.Preserves kept (e.record event) := .of_eq (grows_record e event) rfl rfl rfl
  have hblock : e'.Preserves kept (e'.leaveFinal c body e'') :=
    ⟨hfinal.grows.leaveFinal c body, hfinal.scalars, hfinal.scripts, hfinal.frames,
      hfinal.arguments⟩
  exact hbegan.trans (htry.trans hblock)

end Preserves

theorem HasFrames.mono (he : e.HasFrames kept) (h : e.Preserves kept e') : e'.HasFrames kept :=
  fun id hid => Nat.lt_of_lt_of_le (he id hid) h.frames

theorem HasContext.mono (he : e.HasContext c) (h : e.Preserves kept e') : e'.HasContext c where
  script id hid := Nat.lt_of_lt_of_le (he.script id hid) h.scripts
  frame id hid := Nat.lt_of_lt_of_le (he.frame id hid) h.frames

end Engine

namespace Discipline

def preserving (host : Host) (kept : FrameId → Prop) : Discipline host where
  toDemands := .preserving kept
  placed := False
  linear := False
  holds := Engine.HasFrames kept
  leads := Engine.Preserves kept
  admits _ := True
  sound _ := False.elim
  wellFormed _ := False.elim
  function _ _ := trivial
  unnamed _ := False.elim
  unentered _ := False.elim
  newFrame he hid := Nat.lt_irrefl _ (he _ hid)
  registry _ := False.elim
  refl := .refl
  trans h h' := h.trans h'
  holds_of_leads he h := he.mono h
  grows h := h.grows
  affords _ := False.elim
  edit he h := .of_edit he h
  create _ h _ _ := h.trans (.of_heap (.of_eq rfl rfl rfl) (.new _ _) rfl rfl)
  write _ h hv hpermits _ :=
    h.trans (.of_heap (.of_eq rfl rfl rfl) (h.scalars.overwrite_of_permits hv hpermits) rfl rfl)
  began _ _ _ _ := .of_eq (Engine.grows_record _ _) rfl rfl rfl
  cancelled _ := .of_eq (Engine.grows_requestCancel _) rfl rfl rfl
  holds_catching he _ := he
  caught _ h := h.restoreVim
  holds_enterFinal he := he
  final _ _ htry hfinal := htry.leaveFinal hfinal _ _
  admits_error _ _ := trivial
  admits_mark _ _ _ := trivial
  admits_finished := trivial
  admits_internal _ _ := trivial

theorem uniform_preserving (kept : FrameId → Prop) : (preserving host kept).Uniform .any :=
  uniform_any (fun h => h) (fun h => h) (fun _ => trivial) (fun _ => trivial)
    (fun entry => .same (fun he => he.mono (.enter _ entry)) fun h => h.leave)
    trivial (fun _ => trivial) (fun h => h) (fun h => h) False.elim

end Discipline

namespace Run

variable {fuel : Nat} {c : Context} {e e' : Engine}

theorem preserves_of_eval {x : Expr} {ended : Except Stop Ref} (he : e.HasFrames kept)
    (h : ((Interp.ofFuel host fuel).eval c x).Ends e ended e') : e.Preserves kept e' := by
  have hobeys : (Interp.ofFuel host fuel).Obeys (.preserving host kept) .any :=
    Interp.obeys_ofFuel (Discipline.uniform_preserving kept) False.elim fuel
  exact ((hobeys.eval c x trivial).allows e he (Discipline.refl _ e)).reach_of_ends h

theorem preserves_of_block {body : List Stmt} {ended : Except Stop Signal}
    (he : e.HasFrames kept) (h : (block (Interp.ofFuel host fuel).exec c body).Ends e ended e') :
    e.Preserves kept e' := by
  have hobeys : (Interp.ofFuel host fuel).Obeys (.preserving host kept) .any :=
    Interp.obeys_ofFuel (Discipline.uniform_preserving kept) False.elim fuel
  have hbody : Trees.any.body .top body := fun _ _ => trivial
  have hkeeps : Keeps (.preserving host kept) (block (Interp.ofFuel host fuel).exec c body) :=
    keeps_body hobeys hbody False.elim
  exact (hkeeps.allows e he (Discipline.refl _ e)).reach_of_ends h

end Run

end VimL
