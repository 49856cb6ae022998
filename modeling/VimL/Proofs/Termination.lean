import VimL.Proofs.Approximation
import VimL.Proofs.Restoring
import VimL.Proofs.Sizes

/-!
# Runs that end

Without while loops, a run goes deeper than its program only by calls; loops over items go through
those that were there when they started. The calls of defined functions are counted and limited.
The calls of native functions that call others are not: a run ends unless native functions are
called directly inside of each other without end.
-/

namespace VimL

/-- There is no while loop in the statement, nor in the functions that it defines. -/
inductive Stmt.WhileFree : Stmt → Prop where
  | intro {s : Stmt} (hs : s.isWhile = false) (hblocks : ∀ b ∈ s.blocks, ∀ t ∈ b, WhileFree t)
      (hbody : ∀ d ∈ s.definition?, ∀ t ∈ d.body, WhileFree t) : WhileFree s

def Function.WhileFree (f : Function) : Prop := ∀ s ∈ f.definition.body, s.WhileFree

def Engine.WhileFree (e : Engine) : Prop := e.AllFit Function.WhileFree

theorem Engine.whileFree_of_empty {e : Engine} (h : e.functions.size = 0) : e.WhileFree := by
  intro id f hf
  have hlt : id.index < e.functions.size := Engine.lt_size_of_function? hf
  omega

/-- How many native functions are running, each called by the one below it, on top of the stack. -/
def nativesOnTop : List CallEntry → Nat
  | .native _ :: rest => nativesOnTop rest + 1
  | _ => 0

/-- A native function is called inside of so many that were called by each other. -/
def Task.nests (nesting : Nat) : Task → Engine → Bool
  | .call _ (.defined ..) _ _, _ => false
  | .call .., e => nesting ≤ nativesOnTop e.callStack
  | _, _ => false

theorem Task.nests_of_quiet {nesting : Nat} {c : Context} {h : Handler} {arguments : List Ref}
    {receiver : Option Ref} {e : Engine} (hnative : ∀ id name, h ≠ .defined id name)
    (hquiet : Task.nests nesting (.call c h arguments receiver) e = false) :
    nativesOnTop e.callStack < nesting := by
  cases h with
  | defined id name => exact absurd rfl (hnative id name)
  | _ => simpa [Task.nests] using hquiet

/-! ## Trees of bounded size -/

structure Function.Bounded (size : Nat) (f : Function) : Prop where
  whileFree : f.WhileFree
  body : ∀ s ∈ f.definition.body, sizeOf s ≤ size
  defaults : ∀ name x, f.defaults.find? name = some x → sizeOf x ≤ size

def Trees.bounded (size : Nat) : Trees :=
  ⟨fun x => sizeOf x ≤ size, fun _ s => s.WhileFree ∧ sizeOf s ≤ size⟩

variable {size nesting depth natives k : Nat}

theorem Function.Bounded.callable {f : Function} (h : f.Bounded size) :
    (Trees.bounded size).Callable f where
  defaults := h.defaults
  body s hs := ⟨h.whileFree s hs, h.body s hs⟩

theorem Function.bounded_lambda {parameters : List String} {body : Expr}
    (h : sizeOf (Expr.lambda parameters body) ≤ size) (name : String) (c : Context) :
    (Function.lambda name parameters body c).Bounded size := by
  -- the lambda is larger than its body, which becomes a statement
  have hparameters : 0 < sizeOf parameters := by cases parameters <;> simp +arith
  rw [Expr.lambda.sizeOf_spec] at h
  refine ⟨fun s hs => ?_, fun s hs => ?_, fun _ _ hx => nomatch hx⟩
  · obtain rfl := List.mem_singleton.1 hs
    exact .intro rfl nofun nofun
  · obtain rfl := List.mem_singleton.1 hs
    rw [Stmt.giveBack.sizeOf_spec, Option.some.sizeOf_spec]
    omega

theorem Function.bounded_make {s : Stmt} (hs : s.WhileFree) (hsize : sizeOf s ≤ size)
    {d : Procedure Stmt} (hd : d ∈ s.definition?) {name : String} {scope : Scope}
    {script : Option ScriptId} {closure : Option FrameId} {f : Function}
    (hf : Function.make name scope d script closure = .ok f) : f.Bounded size := by
  obtain ⟨-, -, hbody⟩ := hs
  obtain ⟨hlt, hltDefaults⟩ := Stmt.sizeOf_lt_of_definition hd
  obtain ⟨rfl, hdefaults⟩ := Function.of_make hf
  refine ⟨hbody _ hd, fun t ht => ?_, fun p x hx => ?_⟩
  · have := List.sizeOf_lt_of_mem ht
    omega
  · have hin := List.sizeOf_lt_of_mem (hdefaults p x hx)
    rw [Prod.mk.sizeOf_spec] at hin
    omega

theorem Engine.WhileFree.bounded {e : Engine} (he : e.WhileFree)
    (hsize : sizeOf e.functions ≤ size) : e.AllFit (Function.Bounded size) := by
  intro id f hf
  have hin := Array.sizeOf_lt_of_mem (Array.mem_of_getElem? hf)
  obtain ⟨hdefinition, hdefaults⟩ := f.sizeOf_lt
  refine ⟨he id f hf, fun s hs => ?_, fun name x hx => ?_⟩
  · have := List.sizeOf_lt_of_mem hs
    have := f.definition.sizeOf_lt.1
    omega
  · have := Table.sizeOf_lt_of_find? hx
    omega

/-! ## Levels -/

/-- So many more calls of defined functions may be nested, and before the next of them so many more
native functions. -/
def Rules.bounded (size nesting depth natives : Nat) : Rules where
  placed := False
  fits := Function.Bounded size
  running config stack count :=
    config.callDepth ≤ count + depth ∧ nesting ≤ nativesOnTop stack + natives
  admits stop := stop ≠ .exhausted
  retired h := ⟨h.whileFree, h.body, h.defaults⟩
  error _ _ := nofun
  mark h := Stop.mark_ne nofun h
  finished := nofun
  internal _ := nofun

variable {host : Host}

namespace Discipline

def level (host : Host) (size nesting depth natives : Nat) : Discipline host :=
  restoring host (.bounded size nesting depth natives)

theorem coversExpr_level {x : Expr} (hx : sizeOf x ≤ k + 1) (hk : k + 1 ≤ size) :
    (Trees.bounded k).CoversExpr (level host size nesting depth natives) x where
  parts y hy := Nat.le_of_lt_succ (Nat.lt_of_lt_of_le (Expr.sizeOf_lt_of_parts hy) hx)
  operator := False.elim
  lambda := by
    rintro parameters inner rfl name c
    exact Function.bounded_lambda (Nat.le_trans hx hk) name c

theorem coversStmt_level {s : Stmt} (hs : s.WhileFree) (hsize : sizeOf s ≤ k + 1)
    (hk : k + 1 ≤ size) (z : Zone) :
    (Trees.bounded k).CoversStmt (level host size nesting depth natives) z s := by
  have hwhile := hs
  obtain ⟨hnone, hblocks, -⟩ := hs
  refine ⟨fun x hx => ?_, fun b hb t ht => ⟨hblocks b hb t ht, ?_⟩,
    fun d hd _ _ _ _ _ hf => Function.bounded_make hwhile (Nat.le_trans hsize hk) hd hf,
    False.elim, False.elim, fun hloop => ?_, fun _ _ => nofun⟩
  · exact Nat.le_of_lt_succ (Nat.lt_of_lt_of_le (Stmt.sizeOf_lt_of_parts hx) hsize)
  · have hblock := Stmt.sizeOf_lt_of_blocks hb
    have hin := List.sizeOf_lt_of_mem ht
    omega
  · rw [hnone] at hloop
    cases hloop

/-- A call of a defined function leaves one less of them, and natives start anew. -/
theorem opens_defined (name : String) :
    (level host size nesting (depth + 1) natives).Opens (level host size nesting depth nesting)
      (.defined name) := by
  refine opens_restoring id rfl (fun e he _ => ⟨?_, Nat.le_add_left _ _⟩) id
  have hdepth : e.config.callDepth ≤ e.callDepth + (depth + 1) := he.1
  change e.config.callDepth ≤ e.callDepth + 1 + depth
  omega

theorem opens_native (name : String) :
    (level host size nesting depth (natives + 1)).Opens (level host size nesting depth natives)
      (.native name) := by
  refine opens_restoring id rfl (fun e he _ => ⟨he.1, ?_⟩) id
  have hnatives : nesting ≤ nativesOnTop e.callStack + (natives + 1) := he.2
  change nesting ≤ nativesOnTop e.callStack + 1 + natives
  omega

end Discipline

namespace Interp

open Discipline

theorem obeys_of_not_holds {D : Discipline host} (T : Trees) (h : ∀ e, ¬D.holds e) (i : Interp) :
    i.Obeys D T where
  eval _ _ _ := ⟨fun e he => absurd he (h e)⟩
  exec e _ _ _ _ _ _ := fun he => absurd he (h e)
  call e _ _ _ _ _ := fun he => absurd he (h e)

theorem servesDefined_zero (i : Interp) :
    i.ServesDefined (level host size nesting 0 natives) := by
  intro name f hf
  -- there is no room for a call, so nothing is asked of what would run in it
  let none : Rules := { Rules.bounded size nesting 0 natives with running := fun _ _ _ => False }
  have hobeys : i.Obeys (restoring host none) (.bounded size) :=
    obeys_of_not_holds _ (fun e (he : e.AllFit _ ∧ False) => he.2) i
  refine ⟨_, _, hobeys, opens_restoring id rfl (fun e he hroom => ?_) id, hf.callable, False.elim⟩
  have hdepth : e.config.callDepth ≤ e.callDepth + 0 := he.1
  have hless : e.callDepth < e.config.callDepth := hroom
  omega

/-- Fuel is enough if it pays for the size of a tree and, once for each level below, for all sizes.
The levels are counted down by calls: `depth` is the first digit and `natives` the second. -/
theorem obeys_level {fuel levels : Nat} (hk : k ≤ size)
    (hlevels : depth * (nesting + 1) + natives ≤ levels)
    (hfuel : k + 1 + levels * (size + 1) ≤ fuel) :
    (watching host (Task.nests nesting) fuel).Obeys (level host size nesting depth natives)
      (.bounded k) := by
  induction fuel generalizing k depth natives levels with
  | zero => omega
  | succ fuel ih =>
    -- a part of a tree is on the same level and smaller
    refine ⟨fun c x hx => ⟨fun e => ?_⟩,
      fun e c z s hs hc hpending => ?_,
      fun e c h arguments receiver hh => .watched (fun _ _ => ?_) fun hquiet => ?_⟩
    · have hpos : 0 < k := Nat.lt_of_lt_of_le x.sizeOf_pos hx
      obtain ⟨k, rfl⟩ := Nat.exists_eq_add_one_of_ne_zero (Nat.ne_of_gt hpos)
      have hparts := ih (k := k) (by omega) hlevels (by omega)
      exact (Run.keeps_evaluate c hparts (coversExpr_level hx hk)).allows e
    · have hpos : 0 < k := Nat.lt_of_lt_of_le s.sizeOf_pos hs.2
      obtain ⟨k, rfl⟩ := Nat.exists_eq_add_one_of_ne_zero (Nat.ne_of_gt hpos)
      have hparts := ih (k := k) (by omega) hlevels (by omega)
      exact (Run.allows_start c hparts (coversStmt_level hs.1 hs.2 hk z) hc (fun _ => trivial)
        hpending).marked _
    · change Stop.alarm ≠ .exhausted
      nofun
    · -- a call goes one level down, which has paid for trees of all sizes
      have hbelow {depth' natives' : Nat} (hdown : depth' * (nesting + 1) + natives' < levels) :
          (watching host (Task.nests nesting) fuel).Obeys
            (level host size nesting depth' natives') (.bounded size) := by
        obtain ⟨levels, rfl⟩ : ∃ n, levels = n + 1 := ⟨levels - 1, by omega⟩
        rw [Nat.succ_mul] at hfuel
        exact @ih _ _ _ levels (Nat.le_refl size) (by omega) (by omega)
      refine .of_holds fun he _ => ?_
      refine Run.allows_callHandler False.elim c (fun _ _ _ => ?_) (fun hnative => ?_)
        arguments (.of_none id id) receiver hh.known
      · cases depth with
        | zero => exact servesDefined_zero _
        | succ depth =>
          refine fun name f hf => ⟨_, _, hbelow ?_, opens_defined name, hf.callable, False.elim⟩
          rw [Nat.succ_mul] at hlevels
          omega
      · have hless := Task.nests_of_quiet hnative hquiet
        have hnatives : nesting ≤ nativesOnTop e.callStack + natives := he.2.2
        obtain ⟨natives, rfl⟩ : ∃ n, natives = n + 1 := ⟨natives - 1, by omega⟩
        exact fun name => ⟨_, _, hbelow (by omega), opens_native name⟩

end Interp

/-! ## Natives in a run that ends -/

/-- The native functions on top of the stack and so many more are not too many. -/
def Rules.shallow (nesting left : Nat) : Rules :=
  .quiet fun _ stack _ => nativesOnTop stack + left ≤ nesting

variable {left fuel : Nat}

theorem Discipline.opens_shallow_defined (name : String) :
    (restoring host (.shallow nesting left)).Opens (restoring host (.shallow nesting left))
      (.defined name) := by
  refine opens_restoring id rfl (fun e he _ => ?_) id
  have hleft : nativesOnTop e.callStack + left ≤ nesting := he
  change 0 + left ≤ nesting
  omega

theorem Discipline.opens_shallow_native (name : String) :
    (restoring host (.shallow nesting (left + 1))).Opens (restoring host (.shallow nesting left))
      (.native name) := by
  refine opens_restoring id rfl (fun e he _ => ?_) id
  have hleft : nativesOnTop e.callStack + (left + 1) ≤ nesting := he
  change nativesOnTop e.callStack + 1 + left ≤ nesting
  omega

/-- Every call of a native function uses up fuel, so that there are no more of them than there is
fuel. -/
theorem Interp.obeys_shallow (h : fuel ≤ left) :
    (watching host (Task.nests nesting) fuel).Obeys (.restoring host (.shallow nesting left))
      .any := by
  induction fuel generalizing left with
  | zero => exact obeys_spent nofun
  | succ fuel ih =>
    obtain ⟨left, rfl⟩ := Nat.exists_eq_add_one_of_ne_zero (Nat.ne_of_gt (Nat.zero_lt_of_lt h))
    have hparts := ih (Nat.le_of_lt h)
    have hdefined : (watching host (Task.nests nesting) fuel).ServesDefined
        (.restoring host (.shallow nesting (left + 1))) := fun name f _ =>
      ⟨_, _, hparts, Discipline.opens_shallow_defined name, Trees.callable_any f, False.elim⟩
    have hnative : (watching host (Task.nests nesting) fuel).ServesNative
        (.restoring host (.shallow nesting (left + 1))) := fun name =>
      ⟨_, _, ih (Nat.le_of_succ_le_succ h), Discipline.opens_shallow_native name⟩
    refine ⟨fun c x _ => ⟨fun e => ?_⟩, fun e c z s _ hc hpending => ?_,
      fun e c h arguments receiver hh => .watched (fun he hhit => ?_) fun _ => ?_⟩
    · exact (Run.keeps_evaluate c hparts (Discipline.coversExpr_quiet x)).allows e
    · exact (Run.allows_start c hparts (Discipline.coversStmt_quiet z s) hc (fun _ => trivial)
        hpending).marked _
    · have hleft : nativesOnTop e.callStack + (left + 1) ≤ nesting := he.2
      have hmany : nesting ≤ nativesOnTop e.callStack := by
        cases h with
        | defined => cases hhit
        | _ => simpa [Task.nests] using hhit
      omega
    · exact Run.allows_callHandler False.elim c (fun _ _ _ => hdefined) (fun _ => hnative)
        arguments (.of_none id id) receiver hh.known

/-! ## What is asked for -/

namespace Session

namespace Request

def WhileFree : Request → Prop
  | .run _ body | .source _ body => ∀ s ∈ body, s.WhileFree
  | .evaluate .. => True

/-- The run comes to an end. -/
def Ends (host : Host) (e : Engine) (r : Request) : Prop :=
  ∃ fuel, (r.perform (.ofFuel host fuel) e).1.outcome ≠ .error .exhausted

/-- No native function is ever called inside of so many others. -/
def NestsLess (host : Host) (e : Engine) (r : Request) (nesting : Nat) : Prop :=
  ∀ fuel,
    r.perform (.watching host (Task.nests nesting) fuel) e = r.perform (.ofFuel host fuel) e

variable {e : Engine} {r : Request}

theorem perform_of_le (hfuel : fuel ≤ k)
    (hr : (r.perform (.ofFuel host fuel) e).1.outcome ≠ .error .exhausted) :
    r.perform (.ofFuel host fuel) e = r.perform (.ofFuel host k) e :=
  perform_eq_of_upTo (Interp.upTo_ofFuel host hfuel) hr

theorem nestsLess_of_ends (h : r.Ends host e) : ∃ nesting, r.NestsLess host e nesting := by
  obtain ⟨enough, henough⟩ := h
  have hshort {fuel : Nat} (hfuel : fuel ≤ enough) :
      r.perform (.watching host (Task.nests enough) fuel) e =
        r.perform (.ofFuel host fuel) e := by
    refine perform_watching_of_obeys (Interp.obeys_shallow hfuel) (fun h => h rfl) r.judged_any ?_
    refine ⟨fun _ _ _ => trivial, ?_⟩
    cases r <;> exact Nat.le_of_eq (Nat.zero_add enough)
  refine ⟨enough, fun fuel => ?_⟩
  rcases Nat.le_total fuel enough with hfuel | hfuel
  · exact hshort hfuel
  · have hwatched := hshort (Nat.le_refl enough)
    calc r.perform (.watching host (Task.nests enough) fuel) e
      _ = r.perform (.watching host (Task.nests enough) enough) e :=
        (perform_eq_of_upTo (Interp.upTo_watching_of_le host _ hfuel) (hwatched ▸ henough)).symm
      _ = r.perform (.ofFuel host enough) e := hwatched
      _ = r.perform (.ofFuel host fuel) e := perform_of_le hfuel henough

theorem WhileFree.exists_judged (hr : r.WhileFree) : ∃ size, r.Judged (.bounded size) := by
  cases r with
  | run c body | source name body =>
    exact ⟨sizeOf body, fun s hs => ⟨hr s hs, Nat.le_of_lt (List.sizeOf_lt_of_mem hs)⟩⟩
  | evaluate c x => exact ⟨sizeOf x, Nat.le_refl _⟩

end Request

end Session

namespace Session

/-- Without while loops, what is asked for ends exactly if native functions are not called directly
inside of each other without end. -/
theorem ends_iff_nestsLess {e : Engine} {r : Request} (he : e.WhileFree) (hr : r.WhileFree) :
    r.Ends host e ↔ ∃ nesting, r.NestsLess host e nesting := by
  refine ⟨Request.nestsLess_of_ends, fun ⟨nesting, hnests⟩ => ?_⟩
  obtain ⟨k, hjudged⟩ := hr.exists_judged
  -- a size for the trees of the request and of all functions
  let size := max k (sizeOf e.functions)
  let depth := e.config.callDepth
  have hobeys := @Interp.obeys_level size nesting depth nesting k host _ _ (Nat.le_max_left ..)
    (Nat.le_refl _) (Nat.le_refl _)
  have hstart : (Discipline.level host size nesting depth nesting).holds (r.start e) := by
    have hfunctions : e.AllFit (Function.Bounded size) := he.bounded (Nat.le_max_right ..)
    cases r <;> exact ⟨hfunctions.of_eq rfl, Nat.le_add_left .., Nat.le_add_left ..⟩
  obtain ⟨-, -, -, -, -, hstops⟩ := Request.leads_perform hobeys hjudged hstart
  refine ⟨k + 1 + (depth * (nesting + 1) + nesting) * (size + 1), fun hexhausted => ?_⟩
  rw [← hnests] at hexhausted
  rcases hstops _ hexhausted with hadmits | hunit
  · exact hadmits rfl
  · cases hunit

/-- A loop that adds an item in every round: the rounds are those of the items before it. -/
def growing : List Stmt :=
  [.assign (.var ⟨none, "l"⟩) .set (.list [.register "a"]),
    .forEach ⟨none, "x"⟩ (.var ⟨none, "l"⟩)
      [.evaluate (.call none "add" [.var ⟨none, "l"⟩, .var ⟨none, "x"⟩])]]

theorem whileFree_growing : ∀ s ∈ growing, s.WhileFree := by
  refine List.forall_mem_cons.2 ⟨.intro rfl nofun nofun, List.forall_mem_singleton.2 ?_⟩
  refine .intro rfl (List.forall_mem_singleton.2 (List.forall_mem_singleton.2 ?_)) nofun
  exact .intro rfl nofun nofun

theorem ends_iff_nestsLess_growing :
    (holding "").WhileFree ∧ (Request.run .commandLine growing).WhileFree ∧
      ∃ nesting, (Request.run .commandLine growing).NestsLess ⟨[]⟩ (holding "") nesting := by
  have he : (holding "").WhileFree := Engine.whileFree_of_empty (by decide +kernel)
  have hr : (Request.run .commandLine growing).WhileFree := whileFree_growing
  have hok : ((Request.run .commandLine growing).perform (.ofFuel ⟨[]⟩ 4)
      (holding "")).1.outcome.isOk = true := by decide +kernel
  have hends : (Request.run .commandLine growing).Ends ⟨[]⟩ (holding "") := by
    refine ⟨4, fun h => ?_⟩
    rw [h] at hok
    cases hok
  exact ⟨he, hr, (ends_iff_nestsLess he hr).1 hends⟩

end Session

/-! ## Native functions inside of each other without end -/

instance Value.decidableEqString (v : Value) (text : String) : Decidable (v = .string text) :=
  match v with
  | .string s => decidable_of_iff (s = text) (by simp)
  | .number _ | .float _ | .list _ | .dictionary _ | .blob _ | .funcref _ => .isFalse nofun

instance Value.decidableEqList (v : Value) (items : List Ref) : Decidable (v = .list items) :=
  match v with
  | .list others => decidable_of_iff (others = items) (by simp)
  | .number _ | .float _ | .string _ | .dictionary _ | .blob _ | .funcref _ => .isFalse nofun

/-- The List holds the arguments of a call of `call` that is to call itself again. -/
structure Engine.Knotted (e : Engine) (text list : Ref) : Prop where
  name : e.heap.value text = .string "call"
  items : e.heap.value list = .list [text, list]

open Run Interp

/-- No fuel is enough, since every call of `call` makes another one like it. -/
theorem Engine.Knotted.call_exhausted {e : Engine} {text list callee : Ref}
    (h : e.Knotted text list) (hcallee : e.heap.value callee = .string "call") (fuel : Nat)
    (c : Context) : ∃ e', (ofFuel ⟨[]⟩ fuel).call c (.builtin .call) [callee, list] none e =
      .error .exhausted e' := by
  induction fuel generalizing e callee with
  | zero => exact ⟨e, rfl⟩
  | succ fuel ih =>
    let inner := e.enter (.native "call")
    have hinner : inner.Knotted text list := ⟨h.name, h.items⟩
    obtain ⟨e', he'⟩ := ih hinner h.name
    -- the items of the List are the arguments of the next call
    have hnext : Library.call ⟨⟨[]⟩, c, (ofFuel ⟨[]⟩ fuel).call c⟩ callee list none inner =
        (ofFuel ⟨[]⟩ fuel).call c (.builtin .call) [text, list] none inner := by
      have hvalue (r : Ref) : value r inner = .ok (inner.heap.value r) inner := rfl
      have hname : inner.heap.value callee = .string "call" := hcallee
      have htext : settle (Value.string "call").toText inner = .ok "call" inner := rfl
      have hsplit : Scope.split "call" = (none, "call") := by decide
      have hhandler : NativeEnv.handler ⟨⟨[]⟩, c, (ofFuel ⟨[]⟩ fuel).call c⟩ none "call" inner =
          .ok (.builtin .call) inner := rfl
      have hchecked : Library.checkReceiver none .dictionaryRequired inner = .ok () inner := rfl
      simp only [Library.call, Bind.bind, EStateM.bind, hvalue, hinner.items, hchecked, hname,
        htext, hsplit, hhandler]
      rfl
    refine ⟨e.leave e', ?_⟩
    change within (.native "call")
      (Library.call ⟨⟨[]⟩, c, (ofFuel ⟨[]⟩ fuel).call c⟩ callee list none) e = _
    change afterwards _ e.leave inner = _
    simp only [afterwards, hnext, he']

namespace Session

def calling : Expr := .call none "call" [.var ⟨none, "f"⟩, .var ⟨none, "l"⟩]

theorem calling_exhausted {e : Engine} {name text list : Ref} (h : e.Knotted text list)
    (hname : e.heap.value name = .string "call") (hf : e.globals.find? "f" = some name)
    (hl : e.globals.find? "l" = some list) (fuel : Nat) :
    ∃ e', (ofFuel ⟨[]⟩ fuel).eval .commandLine calling e = .error .exhausted e' := by
  match fuel with
  | 0 => exact ⟨e, rfl⟩
  | 1 => exact ⟨e, rfl⟩
  | fuel + 2 =>
    obtain ⟨e', he'⟩ := h.call_exhausted hname (fuel + 1) .commandLine
    refine ⟨e', ?_⟩
    have hlookup {name : String} {r : Ref} (hr : e.globals.find? name = some r) :
        (ofFuel ⟨[]⟩ (fuel + 1)).eval .commandLine (.var ⟨none, name⟩) e = .ok r e := by
      have hresolve : Run.resolve .commandLine none name e = .ok (e.globals.find? name) e := rfl
      change lookup .commandLine ⟨none, name⟩ e = _
      simp only [lookup, Bind.bind, EStateM.bind, hresolve, hr]
      rfl
    have harguments : evalAll (ofFuel ⟨[]⟩ (fuel + 1)) .commandLine
        [.var ⟨none, "f"⟩, .var ⟨none, "l"⟩] e = .ok [name, list] e := by
      simp only [evalAll, Bind.bind, EStateM.bind, hlookup hf, hlookup hl]
      rfl
    have hhandler : handler? (Host.native? ⟨[]⟩) .commandLine none "call" e =
        .ok (some (.builtin .call)) e := rfl
    change evalCall ⟨[]⟩ (ofFuel ⟨[]⟩ (fuel + 1)) .commandLine none "call" _ e = _
    simp only [evalCall, Bind.bind, EStateM.bind, harguments, hhandler, he']

/-- The List is added to itself, after the name of the function. -/
def tying : List Stmt :=
  [.assign (.var ⟨none, "f"⟩) .set (.register "a"),
    .assign (.var ⟨none, "l"⟩) .set (.list [.var ⟨none, "f"⟩]),
    .evaluate (.call none "add" [.var ⟨none, "l"⟩, .var ⟨none, "l"⟩])]

theorem wellFormed_tying : ∀ s ∈ tying, s.WellFormed := by
  have hvar (name : String) : (Expr.var ⟨none, name⟩).WellFormed := .var _
  have hitems : ∀ x ∈ [Expr.var ⟨none, "f"⟩], x.WellFormed :=
    List.forall_mem_singleton.2 (hvar "f")
  have harguments : ∀ x ∈ [Expr.var ⟨none, "l"⟩, .var ⟨none, "l"⟩], x.WellFormed :=
    List.forall_mem_cons.2 ⟨hvar "l", List.forall_mem_singleton.2 (hvar "l")⟩
  refine List.forall_mem_cons.2 ⟨.assign _ (hvar "f") (.register "a"), ?_⟩
  refine List.forall_mem_cons.2 ⟨.assign _ (hvar "l") (.list hitems), ?_⟩
  exact List.forall_mem_singleton.2 (.evaluate (.call _ _ harguments))

def knotted : Engine := (run (.ofFuel ⟨[]⟩ 4) .commandLine tying (holding "call")).2

/-- A session comes to an engine in which the List is in itself. -/
theorem exists_knotted : ∃ e name text list, Reachable ⟨[]⟩ e ∧ 1 ≤ e.config.callDepth ∧
    e.WhileFree ∧ e.Knotted text list ∧ e.heap.value name = .string "call" ∧
    e.globals.find? "f" = some name ∧ e.globals.find? "l" = some list := by
  refine ⟨knotted, ⟨6⟩, ⟨7⟩, ⟨8⟩, ?_, ?_, Engine.whileFree_of_empty ?_, ⟨?_, ?_⟩, ?_, ?_, ?_⟩
  · exact .run (.start (start_holding "call")) 4 .commandLine wellFormed_tying
  all_goals decide +kernel

theorem not_forall_ends : ¬∀ (e : Engine) (r : Request), Reachable ⟨[]⟩ e →
    1 ≤ e.config.callDepth → e.WhileFree → r.WhileFree → r.Ends ⟨[]⟩ e := by
  intro hall
  obtain ⟨e, name, text, list, he, hdepth, hwhile, hknotted, hname, hf, hl⟩ := exists_knotted
  obtain ⟨fuel, hends⟩ := hall e (.evaluate .commandLine calling) he hdepth hwhile trivial
  have hprepared : (prepare e).Knotted text list := ⟨hknotted.name, hknotted.items⟩
  obtain ⟨e', he'⟩ := calling_exhausted hprepared hname hf hl fuel
  refine hends ?_
  change (evaluate (.ofFuel ⟨[]⟩ fuel) .commandLine calling e).1.outcome = _
  unfold evaluate
  rw [he']
  rfl

end Session

end VimL
