import VimL.Proofs.Approximation
import VimL.Proofs.Restoring

/-!
# Breaks, continues and returns in their places

If every break and continue stands inside a loop, and every return inside a function, then loops
take all breaks and continues, and calls take all returns. A function body is a place of its own:
what stands around its definition, or around its call, does not matter.
-/

namespace VimL

/-- The commands in a statement stand where they may be used, also those in the functions that it
defines. -/
inductive Stmt.Placed : Zone → Stmt → Prop where
  | intro {z : Zone} {s : Stmt} (hstands : s.StandsIn z)
      (hblocks : ∀ b ∈ s.blocks, ∀ t ∈ b, Placed (s.inner z) t)
      (hbody : ∀ d ∈ s.definition?, ∀ t ∈ d.body, Placed .function t) : Placed z s

def Function.Placed (f : Function) : Prop := ∀ s ∈ f.definition.body, s.Placed .function

def Engine.Placed (e : Engine) : Prop := e.AllFit Function.Placed

/-- A statement that starts stands in a place that its context provides. -/
def Task.Placed : Task → Prop
  | .exec c s => ∃ z, s.Placed z ∧ c.StandsIn z
  | _ => True

def Stmt.isLoop : Stmt → Bool
  | .whileLoop .. | .forEach .. | .forUnpack .. => true
  | _ => false

/-- This is no stop because of a stray break, continue or return. -/
def Stop.Regular (stop : Stop) : Prop := ∀ err, stop = .error err → err.cause.isStray = false

/-! ## Placed trees -/

namespace Stmt

variable {z : Zone} {s : Stmt}

theorem placed_of_simple (hstands : s.StandsIn z) (hblocks : s.blocks = [])
    (hbody : s.definition? = none) : s.Placed z := by
  refine .intro hstands (fun b hb => ?_) fun d hd => ?_
  · rw [hblocks] at hb
    cases hb
  · rw [hbody] at hd
    cases hd

/-- What stands around a loop does not matter for the breaks and continues in it. -/
theorem Placed.outOfLoops (h : s.Placed z) (hloop : s.isLoop = true) : s.Placed z.outOfLoops := by
  obtain ⟨hstands, hblocks, hbody⟩ := h
  cases s with
  | whileLoop | forEach | forUnpack => exact .intro trivial hblocks hbody
  | _ => cases hloop

end Stmt

theorem Function.placed_lambda (name : String) (parameters : List String) (body : Expr)
    (c : Context) : (Function.lambda name parameters body c).Placed := by
  intro s hs
  obtain rfl := List.mem_singleton.1 hs
  exact Stmt.placed_of_simple rfl rfl rfl

/-! ## Placed runs -/

def Rules.placing : Rules where
  placed := True
  fits := Function.Placed
  running _ _ _ := True
  admits stop := stop ≠ .alarm ∧ stop.Regular
  retired h := h
  error h _ := ⟨nofun, fun _ heq => Stop.error.inj heq ▸ h trivial⟩
  mark {stop} h command throwpoint := by
    cases stop with
    | error err =>
      refine ⟨nofun, fun marked hmarked => ?_⟩
      obtain rfl := Stop.error.inj hmarked
      rw [ScriptError.cause_mark]
      exact h.2 err rfl
    | _ => exact h
  finished := ⟨nofun, fun _ h => nomatch h⟩
  internal hf := ⟨fun h => hf (Stop.internal.inj h), fun _ h => nomatch h⟩

def Trees.placed : Trees := ⟨fun _ => True, fun z s => s.Placed z⟩

variable {host : Host} {e : Engine}

theorem Discipline.uniform_placing : (restoring host .placing).Uniform .placed where
  expr _ := {
    parts := fun _ _ => trivial
    operator := False.elim
    lambda := fun _ name c => Function.placed_lambda name _ _ c }
  stmt h := by
    obtain ⟨hstands, hblocks, hbody⟩ := h
    refine ⟨fun _ _ => trivial, hblocks, fun d hd name scope script closure f hf => ?_, False.elim,
      fun _ => hstands, fun _ => ⟨nofun, fun _ h => nomatch h⟩,
      fun _ _ => ⟨nofun, fun _ h => Stop.error.inj h ▸ rfl⟩⟩
    intro s hs
    rw [(Function.of_make hf).1] at hs
    exact hbody d hd s hs
  callable hf := ⟨fun _ _ _ => trivial, hf⟩
  runs _ := trivial
  opens _ := opens_restoring id rfl (fun _ _ _ => trivial) id
  exhausted := ⟨nofun, fun _ h => nomatch h⟩
  unlettered := id
  unsparing := id
  leaves := False.elim

theorem Interp.obeys_placing (host : Host) (fuel : Nat) :
    (ofFuel host fuel).Obeys (.restoring host .placing) .placed :=
  obeys_ofFuel Discipline.uniform_placing False.elim fuel

open Run in
/-- How runs of placed trees end in an engine: a block in a way that fits its place, a loop without
a break or continue that is left over, and a call with a value, if it is not stopped. None of them
stops with a stray command, and only placed functions are defined. -/
structure Engine.KeepsPlaces (host : Host) (fuel : Nat) (c : Context) (e : Engine) : Prop where
  block : ∀ z body, c.StandsIn z → (∀ s ∈ body, s.Placed z) →
    Reaches Stop.Regular e (block (Interp.ofFuel host fuel).exec c body) Engine.Placed
      fun signal _ => signal.Fits z
  loop : ∀ z s, c.StandsIn z → s.Placed z → s.isLoop = true → e.interrupted = false →
    Reaches Stop.Regular e ((Interp.ofFuel host fuel).exec c s) Engine.Placed
      fun signal _ => signal ≠ .loopBreak ∧ signal ≠ .loopContinue
  call : ∀ h arguments receiver,
    Reaches Stop.Regular e ((Interp.ofFuel host fuel).call c h arguments receiver) Engine.Placed
      fun _ _ => True

theorem Run.Allows.placed {α : Type} {m : Run α} {post : α → Engine → Prop}
    (h : Allows (.restoring host .placing) e m post) (he : e.Placed) :
    Reaches Stop.Regular e m Engine.Placed post :=
  (h ⟨he, trivial⟩ (.refl e)).weaken (fun _ hstop => hstop.2) (fun _ hleads => hleads.functions he)
    fun _ _ _ hpost => hpost

theorem Engine.Placed.keepsPlaces (he : e.Placed) (host : Host) (fuel : Nat) (c : Context) :
    e.KeepsPlaces host fuel c := by
  have hobeys := Interp.obeys_placing host fuel
  refine ⟨fun z body hc hbody => ?_, fun z s hc hs hloop hpending => ?_,
    fun h arguments receiver => ?_⟩
  · have hblock := (Run.allows_block hobeys hbody (fun _ => hc) e).placed he
    exact hblock.mono (fun _ h => h) fun _ _ _ hsignal => hsignal trivial
  · -- a loop that stands in no other loop may not end with a break or continue
    have hexec := hobeys.exec e c z.outOfLoops s (hs.outOfLoops hloop) (fun _ => hc) hpending
    refine (hexec.placed he).mono (fun _ h => h) fun signal _ _ hsignal => ?_
    have hfits := hsignal trivial
    constructor
    · rintro rfl
      cases hfits
    · rintro rfl
      cases hfits
  · exact (hobeys.call e c h arguments receiver ⟨False.elim, False.elim⟩).placed he

namespace Session

/-- What a host asks for is placed, outside of loops and functions. -/
abbrev Request.Placed (r : Request) : Prop := r.Judged .placed

/-- The engines of a session in which every block that was ever run is placed. -/
inductive Orderly (host : Host) : Engine → Prop where
  | start {e : Engine} {config : Config} {options : List (String × HostData)}
      {registers environment : List (String × String)}
      (h : start config options registers environment = .ok e) : Orderly host e
  | constant {e : Engine} (h : Orderly host e) (v : Value) :
      Orderly host (e.withHeap (e.heap.new v).2)
  | newScript {e : Engine} (h : Orderly host e) (name : String) : Orderly host (newScript name e).2
  | setVariable {e e' : Engine} (h : Orderly host e) {c : Context} {v : Variable} {d : HostData}
      {ended : Except Stop Unit} (hset : (setVariable c v d).Ends e ended e') : Orderly host e'
  | cancel {e : Engine} (h : Orderly host e) : Orderly host (cancel e)
  | perform {e : Engine} (h : Orderly host e) (fuel : Nat) {r : Request} (hr : r.Placed) :
      Orderly host (r.perform (.ofFuel host fuel) e).2

theorem holds_placing_start (he : e.Placed) (r : Request) :
    (Discipline.restoring host .placing).holds (r.start e) := by
  refine ⟨?_, trivial⟩
  cases r <;> exact he.of_eq rfl

theorem Orderly.placed (h : Orderly host e) : e.Placed := by
  induction h with
  | @start e config options registers environment h =>
    have hblank : (blank config).Placed := fun id f hf => by
      simp [blank, Engine.function?] at hf
    have hstart : (Discipline.restoring host .placing).holds e :=
      holds_start h ⟨hblank, trivial⟩ fun _ _ _ _ _ he => ⟨he.1.of_eq rfl, trivial⟩
    exact hstart.1
  | constant _ v ih => exact ih.of_eq rfl
  | newScript _ name ih => exact ih.of_eq rfl
  | setVariable _ hset ih =>
    have hleads := leads_setVariable (D := .restoring host .placing) trivial hset ⟨ih, trivial⟩
    exact hleads.functions ih
  | cancel _ ih => exact ih.of_eq rfl
  | @perform _ _ fuel r hr ih =>
    have hstart : (Discipline.restoring host .placing).holds _ := holds_placing_start ih r
    obtain ⟨e₁, _, _, hleads, hended, -⟩ :=
      Request.leads_perform (Interp.obeys_placing host fuel) hr hstart
    have hplaced : e₁.Placed := hleads.functions hstart.1
    rw [hended]
    exact hplaced.of_eq rfl

/-- In a session in which every block that is run is placed, no run stops with a stray break,
continue or return. All steps of a run are placed, so who watches for others sees none; and in all
engines of such steps, blocks, loops and calls keep breaks, continues and returns in their
places. -/
theorem never_stray (he : Orderly host e) (fuel : Nat) {r : Request} (hr : r.Placed) :
    (∀ stop, (r.perform (.ofFuel host fuel) e).1.outcome = .error stop → stop.Regular) ∧
    (∀ hit : Task → Engine → Bool, (∀ task e₁, task.Placed → e₁.Placed → hit task e₁ = false) →
      r.perform (.watching host hit fuel) e = r.perform (.ofFuel host fuel) e) ∧
    ∀ e₁ : Engine, e₁.Placed → ∀ fuel' c, e₁.KeepsPlaces host fuel' c := by
  have hstart : (Discipline.restoring host .placing).holds _ := holds_placing_start he.placed r
  refine ⟨fun stop hstop => ?_, fun hit hhit => ?_,
    fun e₁ he₁ fuel' c => he₁.keepsPlaces host fuel' c⟩
  · obtain ⟨_, _, _, _, _, hstops⟩ :=
      Request.leads_perform (Interp.obeys_placing host fuel) hr hstart
    rcases hstops stop hstop with hadmitted | rfl
    · exact hadmitted.2
    · exact fun _ h => nomatch h
  · have halarm : ¬(Discipline.restoring host .placing).admits .alarm := fun h => h.1 rfl
    refine Request.perform_watching Discipline.uniform_placing False.elim halarm
      (fun task e₁ htask he₁ => hhit task e₁ ?_ he₁.1) fuel hr hstart
    cases task with
    | exec c s =>
      obtain ⟨z, hs, hc⟩ := htask
      exact ⟨z, hs, hc trivial⟩
    | _ => trivial

example : (run (.ofFuel ⟨[]⟩ 1) .commandLine [.breakLoop] (blank .standard)).1.outcome =
    .error (Run.strayError .strayBreak "break") := rfl

/-- A loop goes on through a final block, after it has called a function that leaves a loop of its
own through a final block and returns. -/
def detours : List Stmt :=
  [.forEach ⟨none, "x"⟩ (.list [.list []])
    [.tryCatch
      [.function none "F" ⟨[], [],
        [.whileLoop (.var ⟨some .vim, "true"⟩) [.tryCatch [.breakLoop] [] (some [])],
          .giveBack (some (.register "a"))], false, false, false, true⟩,
      .evaluate (.call none "F" []), .continueLoop] [] (some [])]]

theorem placed_detours : ∀ s ∈ detours, s.Placed .top := by
  have htry {z : Zone} {body : List Stmt} (hbody : ∀ t ∈ body, t.Placed z) :
      (Stmt.tryCatch body [] (some [])).Placed z := by
    refine .intro trivial (fun b hb t ht => ?_) (by simp [Stmt.definition?])
    simp only [Stmt.blocks, List.map_nil, List.nil_append, Option.toList_some, List.mem_cons,
      List.not_mem_nil, or_false] at hb
    rcases hb with rfl | rfl
    · exact hbody t ht
    · cases ht
  have hbreak : (Stmt.tryCatch [.breakLoop] [] (some [])).Placed Zone.function.loop :=
    htry fun t ht => List.mem_singleton.1 ht ▸ Stmt.placed_of_simple rfl rfl rfl
  simp only [detours, List.mem_singleton, forall_eq]
  refine .intro trivial (fun b hb t ht => ?_) (by simp [Stmt.definition?])
  obtain rfl := List.mem_singleton.1 hb
  obtain rfl := List.mem_singleton.1 ht
  refine htry fun t ht => ?_
  simp only [List.mem_cons, List.not_mem_nil, or_false] at ht
  rcases ht with rfl | rfl | rfl
  · refine .intro trivial (by simp [Stmt.blocks]) fun d hd t ht => ?_
    obtain rfl := Option.some.inj hd
    simp only [List.mem_cons, List.not_mem_nil, or_false] at ht
    rcases ht with rfl | rfl
    · refine .intro trivial (fun b hb t ht => ?_) (by simp [Stmt.definition?])
      obtain rfl := List.mem_singleton.1 hb
      exact List.mem_singleton.1 ht ▸ hbreak
    · exact Stmt.placed_of_simple rfl rfl rfl
  · exact Stmt.placed_of_simple trivial rfl rfl
  · exact Stmt.placed_of_simple rfl rfl rfl

theorem never_stray_detours :
    Orderly ⟨[]⟩ (holding "") ∧ (Request.run .commandLine detours).Placed ∧
      ∀ stop, ((Request.run .commandLine detours).perform (.ofFuel ⟨[]⟩ 8) (holding "")).1.outcome =
        .error stop → stop.Regular := by
  have hfirst : Orderly ⟨[]⟩ (holding "") := .start (start_holding "")
  have hplaced : (Request.run .commandLine detours).Placed := placed_detours
  exact ⟨hfirst, hplaced, (never_stray hfirst 8 hplaced).1⟩

end Session

end VimL
