import VimL.Proofs.Constructs
import VimL.Proofs.Registry
import VimL.Proofs.Sites

/-!
# Lexical scoping

A table in which names are bound stays as it is as long as no statement starts in a context that
sees it. Whether a context sees the table of a frame can only be told once the frame of the context
is there. So a set of contexts is chosen first, and something is said about the table if all who see
it in the end are in the set.
-/

namespace VimL

/-- A statement starts in such a context, be it in a final block. -/
inductive Event.StartsIn (seen : Context → Prop) : Event → Prop where
  | began {c : Context} {s : Stmt} (hc : seen c) : StartsIn seen (.began c s)
  | final {c : Context} {body : List Stmt} {own : List Event} {event : Event} (hin : event ∈ own)
      (h : StartsIn seen event) : StartsIn seen (.final c body own)

/-- Names are bound only in contexts that are not among these, and the frames of new calls are not
the one that the table belongs to. -/
@[reducible] def Demands.scoping (site : Site) (seen : Context → Prop) : Demands where
  strict := False
  named := False
  listed := False
  minded := False
  lettered := False
  sparing := False
  fits _ := True
  runs c := ¬seen c
  fresh id := site ≠ .bindings (.locals id) ∧ site ≠ .bindings (.arguments id)

namespace Engine

variable {host : Host} {site : Site} {seen : Context → Prop} {e e' e'' : Engine}

/-! ## Statements that have started -/

/-- Since the first engine, a statement has started in such a context. -/
def StartedSince (seen : Context → Prop) (e e' : Engine) : Prop :=
  ∃ events, e'.history = events ++ e.history ∧ ∃ event ∈ events, event.StartsIn seen

namespace StartedSince

theorem later (h : StartedSince seen e e') (hgrows : e'.Grows e'') : StartedSince seen e e'' := by
  obtain ⟨events, hhistory, event, hin, hstarts⟩ := h
  obtain ⟨more, hmore⟩ := hgrows.history
  refine ⟨more ++ events, ?_, event, List.mem_append_right _ hin, hstarts⟩
  rw [← hmore, hhistory, List.append_assoc]

theorem earlier (h : StartedSince seen e' e'') (hgrows : e.Grows e') :
    StartedSince seen e e'' := by
  obtain ⟨events, hhistory, event, hin, hstarts⟩ := h
  obtain ⟨before, hbefore⟩ := hgrows.history
  refine ⟨events ++ before, ?_, event, List.mem_append_left _ hin, hstarts⟩
  rw [hhistory, ← hbefore, List.append_assoc]

theorem began {c : Context} (hc : seen c) (s : Stmt)
    (hgrows : (e.record (.began c s)).Grows e') : StartedSince seen e e' := by
  have hstarted : StartedSince seen e (e.record (.began c s)) :=
    ⟨[.began c s], rfl, .began c s, List.mem_singleton.2 rfl, .began hc⟩
  exact hstarted.later hgrows

end StartedSince

/-! ## Runs -/

/-- If all who see the table are among these contexts, it only changes once a statement has started
in one of them. -/
structure Confines (site : Site) (seen : Context → Prop) (e e' : Engine) : Prop where
  grows : e.Grows e'
  frames : e.KeepsFrames e'
  housed : e.Housed → e'.Housed
  same : (∀ c, e'.Sees c site → seen c) → ¬StartedSince seen e e' → e.SameAt e' site

namespace Confines

theorem of_names_eq (hgrows : e.Grows e') (hnames : e'.names = e.names)
    (hfunctions : e'.functions = e.functions) : e.Confines site seen e' :=
  ⟨hgrows, .of_names_eq hnames, fun he => he.of_names_eq hnames hfunctions,
    fun _ _ => .of_names_eq hnames site⟩

theorem trans (h : e.Confines site seen e') (h' : e'.Confines site seen e'') :
    e.Confines site seen e'' := by
  refine ⟨h.grows.trans h'.grows, h.frames.trans h'.frames, fun he => h'.housed (h.housed he),
    fun hseen hnone => ?_⟩
  have hbefore : e.SameAt e' site :=
    h.same (fun c hc => hseen c (hc.mono h'.frames)) fun hstarted => hnone (hstarted.later h'.grows)
  exact hbefore.trans (h'.same hseen fun hstarted => hnone (hstarted.earlier h.grows))

/-- Once a statement has started in such a context, nothing is said about the table. -/
theorem of_began {other : Context → Prop} {c : Context} {s : Stmt} (hc : seen c)
    (h : (e.record (.began c s)).Confines site other e') : e.Confines site seen e' := by
  refine ⟨(grows_record _ _).trans h.grows, h.frames, fun he => h.housed (he.of_eq rfl rfl),
    fun _ hnone => ?_⟩
  exact absurd (.began hc s h.grows) hnone

/-- A table changes that is not the one, or that someone sees who is not among the contexts. -/
theorem changeTable {change : Table Ref → Table Ref} {p : Place}
    (hne : (∀ c, (e.changeTable change p).Sees c site → seen c) → site ≠ .bindings p) :
    e.Confines site seen (e.changeTable change p) := by
  refine ⟨grows_changeTable e change p, .changeTable e change p, fun he => ?_,
    fun hseen _ => .changeTable (hne hseen)⟩
  exact he.of_eq (changeTable_functions e change p) (funext (functionsAt_changeTable e change p))

theorem changeFunctions {change : Table FunctionId → Table FunctionId} {table : FunctionTable}
    {c : Context} (hc : ¬seen c) (hin : c.Declares table)
    (hhoused : e.Housed → (e.changeFunctions change table).Housed) :
    e.Confines site seen (e.changeFunctions change table) := by
  have hgrows : e.Grows (e.changeFunctions change table) := by
    cases table <;> exact .of_eq rfl rfl rfl
  have hframes : (e.changeFunctions change table).frames = e.frames := by cases table <;> rfl
  refine ⟨hgrows, .of_eq hframes, hhoused, fun hseen _ => .changeFunctions ?_⟩
  rintro rfl
  exact hc (hseen c hin)

theorem define (e : Engine) (f : Function) :
    e.Confines site seen { e with functions := e.functions.push f } :=
  ⟨grows_define e f, .of_eq rfl, fun he => he.listsOnly.define f, fun _ _ => .of_names_eq rfl site⟩

theorem retire (e : Engine) (id : FunctionId) :
    e.Confines site seen { e with functions := e.functions.modify id.index fun f =>
      { f with deleted := true } } :=
  ⟨grows_retire e id, .of_eq rfl, fun he => he.listsOnly.retire id fun _ _ _ _ hhome => hhome,
    fun _ _ => .of_names_eq rfl site⟩

theorem of_edit (he : e.Housed) (hhas : e.Has site) (h : e.Edit (.scoping site seen) e') :
    e.Confines site seen e' := by
  have hgrows : e.Grows e' := h.grows
  cases h with
  | bind p _ name r _ _ hc hin | unbind p _ name _ hc hin =>
    refine trans (.changeTable fun hseen => ?_) (.of_names_eq (.of_eq rfl rfl rfl) rfl rfl)
    rintro rfl
    exact hc (hseen _ (InScope.mono hin (.changeTable e _ p)))
  | argument id name r hid => exact .changeTable fun _ => hid.2
  | parameter id name r _ _ hid => exact .changeTable fun _ => hid.1
  | declare table name f _ hc hin hbelongs =>
    exact trans (.define e f) (.changeFunctions hc hin fun he => he.listsOnly.enlist
      ⟨f, by simp [function?], hbelongs.homeOf_eq⟩)
  | withdraw table name id hc _ hfound hf hhome =>
    refine trans (.retire e id) (.changeFunctions hc ?_ fun he => he.listsOnly.delist table name)
    obtain ⟨other, hin, -, hlisted⟩ := exists_listed hfound
    obtain ⟨g, hg, rfl⟩ := he other name id hlisted
    obtain rfl := Option.some.inj (hf.symm.trans hg)
    exact hhome ▸ hin
  | invoke f _ =>
    exact ⟨hgrows, .invoke e f, fun he => he.of_eq rfl rfl, fun _ _ => .invoke hhas f⟩
  | define f _ => exact define e f
  | _ => exact .of_names_eq hgrows rfl rfl

theorem leave {entry : CallEntry} (h : (e.enter entry).Confines site seen e') :
    e.Confines site seen (e.leave e') := by
  have henter : e.Confines site seen (e.enter entry) := by
    cases entry <;> exact .of_names_eq (.of_eq rfl rfl rfl) rfl rfl
  exact henter.trans (h.trans (.of_names_eq (.of_eq rfl rfl rfl) rfl rfl))

/-- The variables of the editor are put back themselves. -/
theorem restoreVim {err : ScriptError} {exception throwpoint : Ref}
    (h : (e.catching err exception throwpoint).Confines site seen e') :
    e.Confines site seen (e.restoreVim e') := by
  refine ⟨h.grows.restoreVim, h.frames, fun he => ?_, fun hseen hnone => ?_⟩
  · exact (h.housed (he.of_eq rfl rfl)).of_eq rfl rfl
  · have hsame := h.same (fun c hc => hseen c (hc.mono (.of_eq rfl))) hnone
    cases site with
    | functions => exact hsame
    | bindings p =>
      cases p with
      | vim => rfl
      | _ => exact hsame

theorem leaveFinal {event : Event} (htry : (e.record event).Confines site seen e')
    (hfinal : e'.enterFinal.Confines site seen e'') (c : Context) (body : List Stmt) :
    e.Confines site seen (e'.leaveFinal c body e'') := by
  have hended : e'.Grows (e'.leaveFinal c body e'') := hfinal.grows.leaveFinal c body
  have hbegan : e.Confines site seen (e.record event) :=
    .of_names_eq (grows_record e event) rfl rfl
  have hblock : e'.Confines site seen (e'.leaveFinal c body e'') := by
    refine ⟨hended, hfinal.frames, fun he => ?_, fun hseen hnone => ?_⟩
    · exact (hfinal.housed (he.of_eq rfl rfl)).of_eq rfl rfl
    refine hfinal.same (fun c hc => hseen c (hc.mono (.of_eq rfl))) ?_
    rintro ⟨events, hhistory, inner, hin, hstarts⟩
    have hown : inner ∈ e''.history := hhistory ▸ List.mem_append_left _ hin
    exact hnone ⟨[.final c body e''.history], rfl, _, List.mem_singleton.2 rfl, .final hown hstarts⟩
  exact hbegan.trans (htry.trans hblock)

end Confines

end Engine

/-! ## The discipline -/

namespace Discipline

def scoping (host : Host) (site : Site) (seen : Context → Prop) : Discipline host where
  toDemands := .scoping site seen
  placed := False
  linear := False
  holds e := e.Housed ∧ e.Has site
  leads := Engine.Confines site seen
  admits stop := stop ≠ .alarm
  sound _ := False.elim
  wellFormed _ := False.elim
  function _ _ := trivial
  unnamed _ := False.elim
  unentered _ := False.elim
  newFrame {e} he := by
    have hnew : ¬∃ f, e.frame? ⟨e.frames.size⟩ = some f := by simp [Engine.frame?]
    constructor <;> rintro rfl <;> exact hnew he.2
  registry _ := False.elim
  refl e := .of_names_eq (.refl e) rfl rfl
  trans h h' := h.trans h'
  holds_of_leads he h := ⟨h.housed he.1, he.2.mono h.frames⟩
  grows h := h.grows
  affords _ := False.elim
  edit he h := .of_edit he.1 he.2 h
  create _ h _ _ := h.trans (.of_names_eq (.of_eq rfl rfl rfl) rfl rfl)
  write _ h _ _ _ := h.trans (.of_names_eq (.of_eq rfl rfl rfl) rfl rfl)
  began _ _ _ _ := .of_names_eq (Engine.grows_record _ _) rfl rfl
  cancelled _ := .of_names_eq (Engine.grows_requestCancel _) rfl rfl
  holds_catching he _ := ⟨he.1.of_eq rfl rfl, he.2.mono (.of_eq rfl)⟩
  caught _ h := h.restoreVim
  holds_enterFinal he := ⟨he.1.of_eq rfl rfl, he.2.mono (.of_eq rfl)⟩
  final _ _ htry hfinal := htry.leaveFinal hfinal _ _
  admits_error _ _ := Stop.error_ne_alarm _
  admits_mark h := Stop.mark_ne_alarm h
  admits_finished := Stop.finished_ne_alarm
  admits_internal hf _ := Stop.internal_ne_alarm hf

variable {host : Host} {site : Site} {seen : Context → Prop}

theorem opens_scoping (entry : CallEntry) :
    (scoping host site seen).Opens (scoping host site seen) entry := by
  refine .same (fun he => ?_) fun h => h.leave
  cases entry <;> exact ⟨he.1.of_eq rfl rfl, he.2.mono (.of_eq rfl)⟩

theorem coversStmt_scoping (z : Zone) (s : Stmt) :
    Trees.any.CoversStmt (scoping host site seen) z s :=
  Trees.coversStmt_any id (fun _ => trivial) id z (fun _ => Stop.exhausted_ne_alarm)
    fun _ _ => Stop.error_ne_alarm _

/-- Where no context is watched for, all of them may bind names. -/
theorem uniform_scoping : (scoping host site fun _ => False).Uniform .any :=
  uniform_any id id (fun _ => trivial) (fun _ => id) opens_scoping Stop.exhausted_ne_alarm
    (fun _ => Stop.error_ne_alarm _) id id False.elim

end Discipline

/-! ## Runs of statements -/

variable {host : Host} {site : Site} {seen : Context → Prop} {e e' : Engine}

open Discipline

/-- Once a statement has started in such a context, the rest of it may bind names anywhere. -/
theorem Run.Allows.began {α : Type} {m : Run α} {post : α → Engine → Prop} {c : Context} {s : Stmt}
    (hc : seen c)
    (hm : Allows (scoping host site fun _ => False) (e.record (.began c s)) m post) :
    Allows (scoping host site seen) e (do record (.began c s); m) post := by
  intro he _
  have hstart : (scoping host site fun _ => False).holds (e.record (.began c s)) :=
    ⟨he.1.of_eq rfl rfl, he.2.mono (.of_eq rfl)⟩
  have hrun : Reaches (· ≠ .alarm) (e.record (.began c s)) m
      (Engine.Confines site (fun _ => False) (e.record (.began c s))) post :=
    hm hstart (Discipline.refl _ _)
  exact hrun.mono (fun _ h => h.of_began hc) fun _ _ _ h => h

theorem Interp.obeys_scoping (host : Host) (site : Site) (seen : Context → Prop) (fuel : Nat) :
    (ofFuel host fuel).Obeys (scoping host site seen) .any := by
  induction fuel with
  | zero => exact obeys_spent Stop.exhausted_ne_alarm
  | succ fuel ih =>
    have hfree : (ofFuel host fuel).Obeys (scoping host site fun _ => False) .any :=
      obeys_ofFuel uniform_scoping False.elim fuel
    refine ⟨fun c x _ => Run.keeps_evaluate c ih (Trees.coversExpr_any id (fun _ => trivial) x),
      fun e c z s _ _ hpending => Run.Allows.marked ?_ s.command,
      fun e c h arguments receiver hh => ?_⟩
    · by_cases hbinds : (s.binds = true ∨ s.definition?.isSome = true) ∧ seen c
      · -- what binds names is no try statement, so that it runs as one that has started
        obtain ⟨hbinds, hc⟩ := hbinds
        refine .began hc (Run.allows_executeIn (hfree.obeysIn c) (coversStmt_scoping z s) False.elim
          (fun _ => id) List.mem_cons_self fun _ _ _ htry => ?_)
        subst htry
        rcases hbinds with hbinds | hbinds <;> cases hbinds
      · exact Run.allows_start c ih (coversStmt_scoping z s) False.elim
          (fun hs hc => hbinds ⟨hs, hc⟩) hpending
    · exact ih.allows_callHandler opens_scoping (fun _ => Trees.callable_any _) False.elim
        False.elim e c h arguments (.of_none id id) receiver hh

namespace Engine

/-- Frames go on to the frames that they went on to, so the last engine tells which of them a
context sees. The names of a script, or those of a frame that was there, are only bound anew once a
statement has started that sees them: in a context of the script, or in one whose frame is this one
or goes on to it. -/
structure BindsLexically (e e' : Engine) : Prop where
  frames : e.KeepsFrames e'
  script : ∀ id, ¬StartedSince (fun c => c.script = some id) e e' →
    e'.tableAt (.script id) = e.tableAt (.script id) ∧
      e'.functionsAt (.script id) = e.functionsAt (.script id)
  frame : ∀ id f, e.frame? id = some f →
    ¬StartedSince (fun c => ∃ own, c.frame = some own ∧ id ∈ e'.chain own) e e' →
      e'.tableAt (.locals id) = e.tableAt (.locals id) ∧
        e'.tableAt (.arguments id) = e.tableAt (.arguments id)

/-- The contexts to watch for are those that see the table in the end. -/
theorem BindsLexically.of_confines
    (h : ∀ site seen, e.Has site →
      ∃ e₁, e.Confines site seen e₁ ∧ e'.names = e₁.names ∧ e'.history = e₁.history) :
    e.BindsLexically e' := by
  have hsame (site : Site) (hhas : e.Has site)
      (hnone : ¬StartedSince (fun c => e'.Sees c site) e e') : e.SameAt e' site := by
    obtain ⟨e₁, hconfines, hnames, hhistory⟩ := h site (fun c => e'.Sees c site) hhas
    have hbefore : e.SameAt e₁ site := by
      refine hconfines.same (fun c hc => hc.mono (.of_names_eq hnames)) ?_
      simpa only [StartedSince, hhistory] using hnone
    exact hbefore.trans (.of_names_eq hnames site)
  obtain ⟨e₁, hconfines, hnames, -⟩ := h (.functions .globals) (fun _ => False) trivial
  exact ⟨hconfines.frames.trans (.of_names_eq hnames),
    fun id hnone => ⟨hsame (.bindings (.script id)) trivial hnone,
      hsame (.functions (.script id)) trivial hnone⟩,
    fun id f hf hnone => ⟨hsame (.bindings (.locals id)) ⟨f, hf⟩ hnone,
      hsame (.bindings (.arguments id)) ⟨f, hf⟩ hnone⟩⟩

/-- Every run of every block binds lexically. -/
theorem Housed.bindsLexically {fuel : Nat} {c : Context} {body : List Stmt}
    {ended : Except Stop Signal} (he : e.Housed)
    (h : (Run.block (Interp.ofFuel host fuel).exec c body).Ends e ended e') :
    e'.Housed ∧ e.BindsLexically e' := by
  have hbody : Trees.any.body .top body := fun _ _ => trivial
  have hconfines (site : Site) (seen : Context → Prop) (hhas : e.Has site) :
      e.Confines site seen e' := by
    have hblock := Run.allows_block (Interp.obeys_scoping host site seen fuel) hbody
      (c := c) False.elim e
    exact (hblock ⟨he, hhas⟩ (Discipline.refl _ e)).reach_of_ends h
  have hhoused : e.Housed → e'.Housed :=
    (hconfines (.functions .globals) (fun _ => False) trivial).housed
  exact ⟨hhoused he, .of_confines fun site seen hhas =>
    ⟨e', hconfines site seen hhas, rfl, rfl⟩⟩

end Engine

/-! ## Sessions -/

namespace Session

/-- What a host asks for binds lexically. -/
theorem bindsLexically_perform (he : e.Housed) (host : Host) (fuel : Nat) (r : Request) :
    (r.perform (.ofFuel host fuel) e).2.Housed ∧
      (r.start e).BindsLexically (r.perform (.ofFuel host fuel) e).2 := by
  have hstart : (r.start e).Housed := Request.listsOnly_start he.listsOnly r
  have hleads (site : Site) (seen : Context → Prop) (hhas : (r.start e).Has site) :=
    Request.leads_perform (Interp.obeys_scoping host site seen fuel) r.judged_any ⟨hstart, hhas⟩
  refine ⟨?_, .of_confines fun site seen hhas => ?_⟩
  · obtain ⟨e₁, _, _, hconfines, hended, -⟩ :=
      hleads (.functions .globals) (fun _ => False) trivial
    rw [hended]
    exact (hconfines.housed hstart).of_eq rfl rfl
  · obtain ⟨e₁, _, _, hconfines, hended, -⟩ := hleads site seen hhas
    rw [hended]
    exact ⟨e₁, hconfines, rfl, rfl⟩

theorem Arrives.housed (h : Arrives host e) : e.Housed := h.registered.housed

/-- Whatever a session asks for, names are bound where the statements stand. So it is in every block
of it: in the engines that a session comes to, between its runs and in every step of them, tables
list only functions that are declared in them, and in such engines every run of a block binds
lexically. -/
theorem perform_bindsLexically (he : Arrives host e) (fuel : Nat) (r : Request) :
    (r.start e).BindsLexically (r.perform (.ofFuel host fuel) e).2 ∧
    (r.perform (.ofFuel host fuel) e).2.Housed ∧
    (∀ hit : Task → Engine → Bool, (∀ task e₁, e₁.Housed → hit task e₁ = false) →
      r.perform (.watching host hit fuel) e = r.perform (.ofFuel host fuel) e) ∧
    ∀ e₁ : Engine, e₁.Housed → ∀ fuel c body ended e₂,
      (Run.block (Interp.ofFuel host fuel).exec c body).Ends e₁ ended e₂ →
        e₂.Housed ∧ e₁.BindsLexically e₂ := by
  obtain ⟨hhoused, hbinds⟩ := bindsLexically_perform he.housed host fuel r
  refine ⟨hbinds, hhoused, fun hit hhit => ?_, fun e₁ he₁ _ _ _ _ _ hrun =>
    he₁.bindsLexically hrun⟩
  have halarm : ¬(scoping host (.functions .globals) fun _ => False).admits .alarm :=
    fun h => h rfl
  exact Request.perform_watching uniform_scoping False.elim halarm
    (fun task e₁ _ he₁ => hhit task e₁ he₁.1) fuel r.judged_any
    ⟨Request.listsOnly_start he.housed.listsOnly r, trivial⟩

/-- A script with a variable and a function of its own. -/
def keeping : Request :=
  .source "keeping" [.assign (.var ⟨some .script, "own"⟩) .set (.list []),
    .function (some .script) "Own" ⟨[], [], [], false, false, false, false⟩]

def kept : Engine := (keeping.perform (.ofFuel ⟨[]⟩ 4) (holding "")).2

def bindingGlobal : Request :=
  .run .commandLine [.assign (.var ⟨some .globals, "own"⟩) .set (.list [])]

theorem perform_bindsLexically_kept :
    Arrives ⟨[]⟩ kept ∧
      (bindingGlobal.perform (.ofFuel ⟨[]⟩ 4) kept).2.tableAt (.script ⟨0⟩) =
        (bindingGlobal.start kept).tableAt (.script ⟨0⟩) ∧
      (bindingGlobal.perform (.ofFuel ⟨[]⟩ 4) kept).2.functionsAt (.script ⟨0⟩) =
        (bindingGlobal.start kept).functionsAt (.script ⟨0⟩) := by
  have harrives : Arrives ⟨[]⟩ kept := .perform (arrives_holding ⟨[]⟩ "") 4 _
  refine ⟨harrives, (perform_bindsLexically harrives 4 bindingGlobal).1.script ⟨0⟩ ?_⟩
  rintro ⟨events, hhistory, event, hin, hstarts⟩
  have hall : (bindingGlobal.perform (.ofFuel ⟨[]⟩ 4) kept).2.history =
      [.began .commandLine (.assign (.var ⟨some .globals, "own"⟩) .set (.list []))] := rfl
  have hevents : events = [_] := (List.append_nil events).symm.trans (hhistory.symm.trans hall)
  obtain rfl := List.mem_singleton.1 (hevents ▸ hin)
  cases hstarts with
  | began hc => cases hc

end Session

end VimL
