import VimL.Proofs.Declarations
import VimL.Proofs.Owners
import VimL.Proofs.Sites
import VimL.Proofs.Watching

/-!
# The receiver of an invocation that is yet to begin

The defaults of parameters are evaluated in the frame of the invocation, where its receiver is bound
by then. No statement runs there before all arguments are bound, and what goes on to this frame is a
lambda, whose body binds nothing. So statements only run in contexts whose frames are apart from
this one, and the receiver is left alone. If no invocation is looked at, this shows that functions
but lambdas only go on to frames that are there.
-/

namespace VimL

variable {host : Host} {kept : Option (FrameId × Ref)}

namespace Engine

variable {e e' e'' : Engine} {k own : FrameId}

/-! ## Frames that are apart -/

/-- The frame is there, as are all those that it goes on to, and none of them is the one that is
looked at. -/
inductive Apart (e : Engine) (kept : Option (FrameId × Ref)) : FrameId → Prop where
  | intro {k : FrameId} {f : Frame} (hf : e.frame? k = some f) (hne : ∀ r, kept ≠ some (k, r))
      (hclosure : ∀ outer, f.closure = some outer → Apart e kept outer) : Apart e kept k

namespace Apart

theorem ne (h : e.Apart kept k) (r : Ref) : kept ≠ some (k, r) := by
  cases h with
  | intro _ hne _ => exact hne r

theorem mono (h : e.Apart kept k) (hframes : e.KeepsFrames e') : e'.Apart kept k := by
  induction h with
  | intro hf hne _ ih =>
    obtain ⟨f', hf', hsame⟩ := hframes _ _ hf
    apply Apart.intro hf' hne
    intro outer houter
    exact ih outer (hsame.symm.trans houter)

theorem of_mem_chainFrom {fuel : Nat} (h : e.Apart kept own) (hin : k ∈ e.chainFrom fuel own) :
    e.Apart kept k := by
  induction fuel generalizing own with
  | zero => cases hin
  | succ fuel ih =>
    rcases List.mem_cons.1 hin with rfl | hin
    · exact h
    · cases h with
      | @intro _ f hf _ hclosure =>
        rw [hf, Option.bind_some] at hin
        cases houter : f.closure with
        | none => simp [houter] at hin
        | some outer =>
          simp only [houter] at hin
          exact ih (hclosure outer houter) hin

/-- The frames that were there are apart from a new one. -/
theorem invoke (h : e.Apart none k) (f : Frame) (r : Ref) :
    (e.invoke f).Apart (some (⟨e.frames.size⟩, r)) k := by
  induction h with
  | intro hf _ _ ih =>
    apply Apart.intro (frame?_invoke hf f) _ ih
    rintro s ⟨⟩
    exact absurd hf (by simp [frame?])

end Apart

/-- A context that sees the locals of the frame has no frame that is apart from it. -/
theorem ne_locals_of_inScope {c : Context} {p : Place} {id : FrameId} {r : Ref}
    (hc : ∀ own, c.frame = some own → e.Apart kept own) (hin : e.InScope c p)
    (hkept : kept = some (id, r)) : p ≠ .locals id := by
  rintro rfl
  obtain ⟨own, hown, hchain⟩ := hin
  exact ((hc own hown).of_mem_chainFrom hchain).ne r hkept

end Engine

/-! ## Functions that stay apart -/

/-- The function goes on to a frame that is apart, if to any, or it is a lambda. -/
structure Function.StaysApart (e : Engine) (kept : Option (FrameId × Ref)) (f : Function) :
    Prop where
  apart : f.isLambda = false → ∀ k, f.closure = some k → e.Apart kept k
  expression : f.isLambda = true → ∃ x, f.definition.body = [.giveBack (some x)]

theorem Function.StaysApart.mono {e e' : Engine} {f : Function} (h : f.StaysApart e kept)
    (hframes : e.KeepsFrames e') : f.StaysApart e' kept :=
  ⟨fun hf k hk => (h.apart hf k hk).mono hframes, h.expression⟩

/-- Variables are bound in these contexts only, and functions but lambdas are defined there. -/
@[reducible] def Demands.sheltering (kept : Option (FrameId × Ref)) (runs : Context → Prop) :
    Demands where
  strict := False
  named := False
  listed := False
  minded := False
  lettered := False
  sparing := False
  fits f := f.isLambda = true → ∃ x, f.definition.body = [.giveBack (some x)]
  runs := runs
  fresh id := ∀ r, kept ≠ some (id, r)

namespace Engine

variable {e e' e'' : Engine} {runs : Context → Prop}

/-- The receiver is bound in the frame that is looked at, and all functions stay apart from it. -/
structure Shelters (kept : Option (FrameId × Ref)) (e : Engine) : Prop where
  receiver : ∀ id r, kept = some (id, r) → e.Binds ⟨.locals id, "self"⟩ r
  functions : ∀ n f, e.function? n = some f → f.StaysApart e kept

/-- Functions stay what they are, but they may be taken out by command. -/
def KeepsDefinitions (e e' : Engine) : Prop :=
  ∀ n f, e.function? n = some f → ∃ deleted, e'.function? n = some { f with deleted := deleted }

theorem KeepsDefinitions.of_eq (h : e'.functions = e.functions) : e.KeepsDefinitions e' := by
  intro n f hf
  refine ⟨f.deleted, ?_⟩
  rw [function?, h]
  exact hf

theorem KeepsDefinitions.trans (h : e.KeepsDefinitions e') (h' : e'.KeepsDefinitions e'') :
    e.KeepsDefinitions e'' := by
  intro n f hf
  obtain ⟨_, hf'⟩ := h n f hf
  obtain ⟨deleted, hf''⟩ := h' n _ hf'
  exact ⟨deleted, hf''⟩

/-- A receiver that was bound in the frame still is, and functions stay apart from it. -/
structure KeepsSheltered (kept : Option (FrameId × Ref)) (e e' : Engine) : Prop where
  grows : e.Grows e'
  frames : e.KeepsFrames e'
  definitions : e.KeepsDefinitions e'
  shelters : e.Shelters kept → e'.Shelters kept

theorem Shelters.of_frames (he : e.Shelters kept) (hframes : e.KeepsFrames e')
    (hself : ∀ id r, kept = some (id, r) → e'.tableAt (.locals id) = e.tableAt (.locals id))
    (hfunctions : ∀ n f, e'.function? n = some f → f.StaysApart e kept) : e'.Shelters kept := by
  constructor
  · intro id r hkept
    exact (binds_iff_of_tableAt (hself id r hkept)).2 (he.receiver id r hkept)
  · intro n f hf
    exact (hfunctions n f hf).mono hframes

theorem Shelters.of_eq (he : e.Shelters none) (hframes : e'.frames = e.frames)
    (hfunctions : e'.functions = e.functions) : e'.Shelters none := by
  apply he.of_frames (.of_eq hframes)
  · intro _ _ hkept
    cases hkept
  · intro n f hf
    rw [function?, hfunctions] at hf
    exact he.functions n f hf

namespace KeepsSheltered

theorem of_eq (hgrows : e.Grows e') (hframes : e'.frames = e.frames)
    (hfunctions : e'.functions = e.functions) : e.KeepsSheltered kept e' := by
  refine ⟨hgrows, .of_eq hframes, .of_eq hfunctions, fun he => ?_⟩
  apply he.of_frames (.of_eq hframes)
  · intro id r _
    simp only [tableAt, frame?, hframes]
  · intro n f hf
    rw [function?, hfunctions] at hf
    exact he.functions n f hf

theorem trans (h : e.KeepsSheltered kept e') (h' : e'.KeepsSheltered kept e'') :
    e.KeepsSheltered kept e'' :=
  ⟨h.grows.trans h'.grows, h.frames.trans h'.frames, h.definitions.trans h'.definitions,
    fun he => h'.shelters (h.shelters he)⟩

/-- A table is changed that is not the one in which the receiver is bound. -/
theorem changeTable {change : Table Ref → Table Ref} {p : Place}
    (hne : ∀ id r, kept = some (id, r) → p ≠ .locals id) :
    e.KeepsSheltered kept (e.changeTable change p) := by
  have hfunctions : (e.changeTable change p).functions = e.functions :=
    e.changeTable_functions change p
  refine ⟨grows_changeTable e change p, .changeTable e change p, .of_eq hfunctions, fun he => ?_⟩
  apply he.of_frames (.changeTable e change p)
  · intro id r hkept
    exact tableAt_changeTable_of_ne e change (hne id r hkept).symm
  · intro n f hf
    rw [function?, hfunctions] at hf
    exact he.functions n f hf

/-- A new function stays apart if it is a lambda, or if its context has a frame that is apart. -/
theorem define (hruns : ∀ c own, runs c → c.frame = some own → e.Apart kept own) {f : Function}
    (hf : (Demands.sheltering kept runs).fits f) (hcloses : f.ClosesOver runs) :
    e.KeepsSheltered kept { e with functions := e.functions.push f } := by
  have hframes : e.KeepsFrames { e with functions := e.functions.push f } := .of_eq rfl
  refine ⟨grows_define e f, hframes, fun n g hg => ⟨g.deleted, ?_⟩, fun he => ?_⟩
  · exact (function?_define_of_lt f (lt_size_of_function? hg)).trans hg
  · refine he.of_frames hframes (fun _ _ _ => rfl) fun n g hg => ?_
    rw [function?_define] at hg
    split at hg
    · obtain rfl := Option.some.inj hg
      refine ⟨fun hplain k hk => ?_, hf⟩
      obtain ⟨c, hc, hown⟩ := (hcloses.resolve_left (by simp [hplain])) k hk
      exact hruns c k hc hown
    · exact he.functions n g hg

theorem changeFunctions (e : Engine) (change : Table FunctionId → Table FunctionId)
    (table : FunctionTable) : e.KeepsSheltered kept (e.changeFunctions change table) := by
  cases table <;> exact .of_eq (.of_eq rfl rfl rfl) rfl rfl

theorem retire (e : Engine) (id : FunctionId) :
    e.KeepsSheltered kept { e with functions := e.functions.modify id.index fun f =>
      { f with deleted := true } } := by
  refine ⟨grows_retire e id, .of_eq rfl, fun n f hf => ?_, fun he => ?_⟩
  · simp only [function?] at hf
    simp only [function?, Array.getElem?_modify, hf]
    split
    · exact ⟨true, rfl⟩
    · exact ⟨f.deleted, rfl⟩
  · refine he.of_frames (.of_eq rfl) (fun _ _ _ => rfl) fun n f hf => ?_
    simp only [function?, Array.getElem?_modify] at hf
    split at hf
    · obtain ⟨g, hg, rfl⟩ := Option.map_eq_some_iff.1 hf
      have hstays := he.functions n g hg
      exact ⟨hstays.apart, hstays.expression⟩
    · exact he.functions n f hf

theorem invoke (he : e.Shelters kept) (f : Frame) : e.KeepsSheltered kept (e.invoke f) := by
  refine ⟨.of_eq rfl rfl rfl, .invoke e f, .of_eq rfl, fun _ => ?_⟩
  apply he.of_frames (.invoke e f) _ he.functions
  intro id r hkept
  have hbinds := he.receiver id r hkept
  cases hframe : e.frame? id with
  | none => simp [Binds, tableAt, hframe] at hbinds
  | some own =>
    have hhas : e.Has (.bindings (.locals id)) := ⟨own, hframe⟩
    exact SameAt.invoke hhas f

theorem of_edit (he : e.Shelters kept)
    (hruns : ∀ c own, runs c → c.frame = some own → e.Apart kept own)
    (h : e.Edit (.sheltering kept runs) e') : e.KeepsSheltered kept e' := by
  have hgrows : e.Grows e' := h.grows
  cases h with
  | bind p _ name r _ _ hc hin | unbind p _ name _ hc hin =>
    have hchange (change : Table Ref → Table Ref) :
        e.KeepsSheltered kept (e.changeTable change p) :=
      changeTable fun _ _ => ne_locals_of_inScope (fun own => hruns _ own hc) hin
    exact (hchange _).trans (.of_eq (.of_eq rfl rfl rfl) rfl rfl)
  | argument id name r => exact changeTable fun _ _ _ => nofun
  | parameter id name r _ _ hid =>
    apply changeTable
    rintro other s hkept ⟨⟩
    exact hid s hkept
  | invoke f => exact invoke he f
  | define f hf _ hcloses => exact define hruns hf hcloses
  | declare table name f hf _ _ _ hcloses =>
    exact (define hruns hf hcloses).trans (changeFunctions _ _ table)
  | withdraw table name id => exact (retire e id).trans (changeFunctions _ _ table)
  | _ => exact .of_eq hgrows rfl rfl

theorem enter (e : Engine) (entry : CallEntry) : e.KeepsSheltered kept (e.enter entry) := by
  cases entry <;> exact .of_eq (.of_eq rfl rfl rfl) rfl rfl

theorem leave {entry : CallEntry} (h : (e.enter entry).KeepsSheltered kept e') :
    e.KeepsSheltered kept (e.leave e') :=
  (enter e entry).trans (h.trans (.of_eq (.of_eq rfl rfl rfl) rfl rfl))

theorem catching (e : Engine) (err : ScriptError) (exception throwpoint : Ref) :
    e.KeepsSheltered kept (e.catching err exception throwpoint) :=
  .of_eq (.of_eq rfl rfl rfl) rfl rfl

theorem restoreVim {err : ScriptError} {exception throwpoint : Ref}
    (h : (e.catching err exception throwpoint).KeepsSheltered kept e') :
    e.KeepsSheltered kept (e.restoreVim e') :=
  (catching e err exception throwpoint).trans (h.trans (.of_eq (.of_eq rfl rfl rfl) rfl rfl))

theorem leaveFinal {event : Event} (htry : (e.record event).KeepsSheltered kept e')
    (hfinal : e'.enterFinal.KeepsSheltered kept e'') (c : Context) (body : List Stmt) :
    e.KeepsSheltered kept (e'.leaveFinal c body e'') := by
  have hbegan : e.KeepsSheltered kept (e.record event) :=
    .of_eq (grows_record e event) rfl rfl
  have hblock : e'.KeepsSheltered kept (e'.leaveFinal c body e'') := by
    refine ⟨hfinal.grows.leaveFinal c body, hfinal.frames, hfinal.definitions, fun he => ?_⟩
    have hinside : e'.enterFinal.Shelters kept :=
      he.of_frames (.of_eq rfl) (fun _ _ _ => rfl) he.functions
    have hafter := hfinal.shelters hinside
    exact hafter.of_frames (.of_eq rfl) (fun _ _ _ => rfl) hafter.functions
  exact hbegan.trans (htry.trans hblock)

end KeepsSheltered

end Engine

/-! ## The discipline -/

namespace Discipline

def sheltering (host : Host) (kept : Option (FrameId × Ref)) (runs : Context → Prop) :
    Discipline host where
  toDemands := .sheltering kept runs
  placed := False
  linear := False
  holds e := e.Shelters kept ∧ ∀ c own, runs c → c.frame = some own → e.Apart kept own
  leads := Engine.KeepsSheltered kept
  admits stop := stop ≠ .alarm
  sound _ := False.elim
  wellFormed _ := False.elim
  function he hf := (he.1.functions _ _ hf).expression
  unnamed _ := False.elim
  unentered _ := False.elim
  newFrame {e} he := by
    intro r hkept
    have hbinds := he.1.receiver _ r hkept
    simp [Engine.Binds, Engine.tableAt, Engine.frame?] at hbinds
  registry _ := False.elim
  refl e := .of_eq (.refl e) rfl rfl
  trans h h' := h.trans h'
  holds_of_leads he h :=
    ⟨h.shelters he.1, fun c own hc hown => (he.2 c own hc hown).mono h.frames⟩
  grows h := h.grows
  affords _ := False.elim
  edit he h := .of_edit he.1 he.2 h
  create _ h _ _ := h.trans (.of_eq (.of_eq rfl rfl rfl) rfl rfl)
  write _ h _ _ _ := h.trans (.of_eq (.of_eq rfl rfl rfl) rfl rfl)
  began _ _ _ _ := .of_eq (Engine.grows_record _ _) rfl rfl
  cancelled _ := .of_eq (Engine.grows_requestCancel _) rfl rfl
  holds_catching he _ :=
    ⟨(Engine.KeepsSheltered.catching _ _ _ _).shelters he.1,
      fun c own hc hown => (he.2 c own hc hown).mono (.of_eq rfl)⟩
  caught _ h := h.restoreVim
  holds_enterFinal he :=
    ⟨he.1.of_frames (.of_eq rfl) (fun _ _ _ => rfl) he.1.functions,
      fun c own hc hown => (he.2 c own hc hown).mono (.of_eq rfl)⟩
  final _ _ htry hfinal := htry.leaveFinal hfinal _ _
  admits_error _ _ := Stop.error_ne_alarm _
  admits_mark h := Stop.mark_ne_alarm h
  admits_finished := Stop.finished_ne_alarm
  admits_internal hf _ := Stop.internal_ne_alarm hf

variable {runs : Context → Prop}

theorem opens_sheltering (entry : CallEntry) :
    (sheltering host kept runs).Opens (sheltering host kept runs) entry := by
  refine .same (fun {e} he => ?_) fun h => h.leave
  have henter : e.KeepsSheltered kept (e.enter entry) := .enter e entry
  exact (sheltering host kept runs).holds_of_leads he henter

theorem coversExpr_sheltering {T : Trees} (hT : ∀ x, T.expr x) (x : Expr) :
    T.CoversExpr (sheltering host kept runs) x where
  parts y _ := hT y
  operator := False.elim
  lambda _ _ _ _ := ⟨_, rfl⟩

theorem coversStmt_sheltering (z : Zone) (s : Stmt) :
    Trees.any.CoversStmt (sheltering host kept runs) z s where
  parts _ _ := trivial
  blocks _ _ _ _ := trivial
  definition _ _ _ _ _ _ _ hf hlambda := by
    rw [(Function.declared_of_make hf).2.2.2.2.1] at hlambda
    cases hlambda
  entry := False.elim
  stands := False.elim
  rounds _ := Stop.exhausted_ne_alarm
  throws _ _ := Stop.error_ne_alarm _

end Discipline

/-- Of statements, this is only about those that are the bodies of lambdas. -/
def Trees.results : Trees := ⟨fun _ => True, fun _ s => ∃ x, s = .giveBack (some x)⟩

theorem Trees.coversStmt_results {runs : Context → Prop} {z : Zone} {s : Stmt}
    (hs : Trees.results.stmt z s) : Trees.results.CoversStmt (.sheltering host kept runs) z s := by
  obtain ⟨x, rfl⟩ := hs
  exact ⟨fun _ _ => trivial, nofun, nofun, False.elim, False.elim, nofun, nofun⟩

namespace Run.Allows

variable {α : Type} {e : Engine} {m : Run α} {post : α → Engine → Prop} {c : Context}

open Discipline

/-- What binds no variables may be a part of what does. -/
theorem unbinding {runs : Context → Prop}
    (hm : Allows (sheltering host kept fun _ => False) e m post) :
    Allows (sheltering host kept runs) e m post :=
  fun he hleads => hm ⟨he.1, fun _ _ => False.elim⟩ hleads

/-- Variables may be bound in a context whose frame is apart. -/
theorem inContext (hm : Allows (sheltering host kept (· = c)) e m post)
    (hc : ∀ own, c.frame = some own → e.Apart kept own) :
    Allows (sheltering host kept fun _ => False) e m post := by
  intro he hleads
  apply hm ⟨he.1, ?_⟩ hleads
  rintro _ own rfl hown
  exact hc own hown

end Run.Allows

theorem Engine.Shelters.keeps_of_ok {α : Type} {m : Run α} {a : α} {e e' : Engine}
    (he : e.Shelters kept)
    (hm : Run.Keeps (Discipline.sheltering host kept fun _ => False) m) (h : m e = .ok a e') :
    e.KeepsSheltered kept e' :=
  (hm.allows e ⟨he, fun _ _ => False.elim⟩ (Discipline.refl _ e)).reach_of_ends
    (Run.ends_ok_iff.2 h)

namespace Interp

open Discipline

/-- The interpreter leaves the receiver alone: expressions and calls do so in any context, and
statements in those whose frames are apart. -/
structure Shelters (host : Host) (kept : Option (FrameId × Ref)) (i : Interp) : Prop where
  obeys : i.Obeys (sheltering host kept fun _ => False) .results
  obeysIn : ∀ c, i.ObeysIn (sheltering host kept (· = c)) .any c

variable {i : Interp} {e : Engine}

/-- The frame of a new invocation is apart if its function is no lambda. -/
theorem Shelters.allows_callDefined (hi : i.Shelters host kept) (id : FunctionId)
    (arguments : List Ref) (receiver : Option Ref) :
    Run.Allows (sheltering host kept fun _ => False) e
      (Run.callDefined i id arguments receiver) fun _ _ => True := by
  refine .of_holds fun he _ => ?_
  cases hfound : e.function? id with
  | none =>
    unfold Run.callDefined
    refine .get_bind ?_
    rw [hfound]
    exact .throw (Discipline.admits_internal _ nofun False.elim)
  | some f =>
    have hstays := he.1.functions id f hfound
    refine Run.allows_callDefinedOf hfound (opens_sheltering _)
      (fun _ x _ c => hi.obeys.eval c x trivial) False.elim ?_ arguments receiver
    rintro frame e₁ e₂ hfresh hstart ⟨own, hown, hclosure⟩ hentered
    cases hlambda : f.isLambda with
    | true =>
      obtain ⟨x, hbody⟩ := hstays.expression hlambda
      rw [hbody]
      refine Run.allows_block hi.obeys (z := .function) (fun s hs => ?_) False.elim e₂
      exact ⟨x, List.mem_singleton.1 hs⟩
    | false =>
      refine .inContext (Run.allows_blockIn (hi.obeysIn _) (fun _ _ => trivial) False.elim e₂) ?_
      rintro _ ⟨⟩
      have hapart : e₁.Apart kept frame := by
        apply Engine.Apart.intro hown hfresh
        intro outer houter
        exact (hstays.apart hlambda outer (hclosure ▸ houter)).mono hstart.frames
      have henter : e₁.KeepsSheltered kept (e₁.enter (.defined f.displayName)) := .enter e₁ _
      exact hapart.mono (henter.trans hentered).frames

theorem Shelters.allows_callHandler (hi : i.Shelters host kept) (c : Context) (h : Handler)
    (arguments : List Ref) (receiver : Option Ref) :
    Run.Allows (sheltering host kept fun _ => False) e
      (Run.callHandler host i c h arguments receiver) fun _ _ => True := by
  by_cases hdefined : ∃ id name, h = .defined id name
  · obtain ⟨id, name, rfl⟩ := hdefined
    exact hi.allows_callDefined id arguments receiver
  · refine Run.allows_callHandler False.elim c (fun id name heq => ?_) (fun _ _ => ?_) arguments
      (.of_none id id) receiver False.elim
    · exact absurd ⟨id, name, heq⟩ hdefined
    · exact ⟨_, _, hi.obeys, opens_sheltering _⟩

/-- By induction on the fuel: in the contexts of the calls of a run, statements leave the receiver
alone, as all of their parts do. -/
theorem shelters_watching {hit : Task → Engine → Bool}
    (hhit : ∀ task e, e.Shelters kept → hit task e = false) (fuel : Nat) :
    (watching host hit fuel).Shelters host kept := by
  have halarm {runs : Context → Prop} (task : Task) (e : Engine)
      (he : (sheltering host kept runs).holds e) (h : hit task e = true) :
      (sheltering host kept runs).admits .alarm := by
    rw [hhit task e he.1] at h
    cases h
  induction fuel with
  | zero =>
    have hspent {runs : Context → Prop} {T : Trees} :
        spent.Obeys (sheltering host kept runs) T := obeys_spent Stop.exhausted_ne_alarm
    exact ⟨hspent, fun c => hspent.obeysIn c⟩
  | succ fuel ih =>
    -- first for what binds nothing, and then for the statements in the contexts of the calls
    have hbase : (watching host hit (fuel + 1)).Obeys (sheltering host kept fun _ => False)
        .results := by
      constructor
      case eval =>
        exact fun c x _ => ⟨fun e => .watched (halarm _ e) fun _ =>
          (Run.keeps_evaluate c ih.obeys (coversExpr_sheltering (fun _ => trivial) x)).allows e⟩
      case exec =>
        intro e c z s hs _ hpending
        refine .watched (halarm _ e) fun _ => Run.Allows.marked ?_ s.command
        refine Run.allows_start c ih.obeys (Trees.coversStmt_results hs) False.elim ?_ hpending
        obtain ⟨x, rfl⟩ := hs
        rintro (hbinds | hdefines)
        · cases hbinds
        · cases hdefines
      case call =>
        exact fun e c h arguments receiver _ => .watched (halarm _ e) fun _ =>
          ih.allows_callHandler c h arguments receiver
    refine ⟨hbase, fun c => ⟨fun x hx => ⟨fun e => ?_⟩, fun e z s _ _ hpending => ?_,
      fun e h arguments receiver _ => ?_⟩⟩
    · exact ((hbase.eval c x hx).allows e).unbinding
    · refine .watched (halarm _ e) fun _ => Run.Allows.marked ?_ s.command
      exact Run.allows_startIn (ih.obeysIn c) (coversStmt_sheltering z s) False.elim
        (fun _ => rfl) hpending
    · exact (hbase.call e c h arguments receiver ⟨False.elim, False.elim⟩).unbinding

theorem shelters_ofFuel (host : Host) (kept : Option (FrameId × Ref)) (fuel : Nat) :
    (ofFuel host fuel).Shelters host kept :=
  watching_never host fuel ▸ shelters_watching (fun _ _ _ => rfl) fuel

end Interp

end VimL
