import VimL.Proofs.Invariants
import VimL.Proofs.Reach

/-!
# Shared scalars

Numbers, Floats and Strings are copied when they are stored, so that a scalar is held in one place
only, and a lock of one container does not touch what another one holds. Some operations hand
scalars on as they are. These are all the scalars that two containers can share, and only there a
lock reaches from one container into the other.
-/

namespace VimL

namespace Engine

/-- Every scalar that has more places than one was handed on. -/
def KnowsShared (e : Engine) : Prop :=
  ∀ s, (e.heap.value s).isScalar = true → s ∉ e.handedOn → 0 ≤ e.heap.room s

variable {host : Host} {d : Demands} {e e' e'' : Engine}

theorem KnowsShared.of_affords (he : e.KnowsShared) (h : e.Affords e' []) : e'.KnowsShared := by
  intro s hs hkept
  have hroom := h.room s hs hkept
  have hbefore := he s (h.scalar s hs) fun hin => hkept (h.handedOn hin)
  rw [List.count_nil] at hroom
  omega

/-- Two values hold a scalar only if it was handed on. -/
theorem KnowsShared.handedOn_of_mem_parts (he : e.KnowsShared) {r r' s : Ref} (hne : r ≠ r')
    (hs : (e.heap.value s).isScalar = true) (hr : s ∈ (e.heap.value r).parts)
    (hr' : s ∈ (e.heap.value r').parts) : s ∈ e.handedOn := by
  by_contra hkept
  exact hne (Heap.eq_of_mem_parts (he s hs hkept) hr hr')

theorem affords_of_edit (h : e.Edit d e') : e.Affords e' [] := by
  refine .of_value_eq h.size_value.1 h.size_value.2 ?_
  cases h with
  | handOn rs => exact List.subset_append_right _ _
  | bind p | unbind p => cases p <;> exact List.Subset.refl _
  | declare table | withdraw table => cases table <;> exact List.Subset.refl _
  | _ => exact List.Subset.refl _

theorem Supplies.affords {r : Ref} {v : Value} (h : e.Supplies e' r v) (hv : v.isCompound = true) :
    e.Affords (e'.withHeap (e'.heap.setValue r v)) [] := by
  obtain ⟨added, haffords, hparts⟩ := h
  exact haffords.setValue (Value.isScalar_of_isCompound hv) hparts

end Engine

theorem Session.knowsShared_blank (config : Config) : (blank config).KnowsShared := by
  intro s _ _
  have hnone : (blank config).heap.holders s = 0 := rfl
  unfold Heap.room
  rw [hnone]
  split <;> decide

/-- No scalar comes to have more places than it has room for, unless it is handed on. -/
def Invariant.sharing : Invariant where
  named := False
  linear := True
  holds := Engine.KnowsShared
  keeps e e' := e.Affords e' []
  unnamed _ := False.elim
  affords h _ := h
  blank := Session.knowsShared_blank
  holds_of_keeps := .of_affords
  trans h h' := h.trans h'
  same h hhanded := .of_heap_eq h.heap (hhanded ▸ List.Subset.refl _)
  edit _ h := Engine.affords_of_edit h
  create _ hparts := (Engine.Affords.new_of_parts (hparts trivial)).mono fun _ => Nat.zero_le _
  write _ hv _ hsupplies := (hsupplies trivial).affords hv

/-! ## Locks -/

/-- Everything that can be reached from both objects is scalar. -/
def Heap.Apart (h : Heap) (a b : Ref) : Prop :=
  ∀ r, h.Reaches a r → h.Reaches b r → (h.value r).isScalar = true

theorem Heap.apart_of_closed {h : Heap} {a b : Ref} {rs rs' : List Ref} (ha : a ∈ rs)
    (hrs : ∀ r ∈ rs, ∀ s ∈ (h.value r).parts, s ∈ rs) (hb : b ∈ rs')
    (hrs' : ∀ r ∈ rs', ∀ s ∈ (h.value r).parts, s ∈ rs')
    (hscalar : ∀ r ∈ rs, r ∈ rs' → (h.value r).isScalar = true) : h.Apart a b :=
  fun r hreaches hreaches' =>
    hscalar r (hreaches.mem_of_closed ha hrs) (hreaches'.mem_of_closed hb hrs')

namespace Run

variable {e e' : Engine} {c : Context} {target : Expr} {depth : Int}

theorem lock_ok_iff {eval : Expr → Run Ref} : lock eval c depth target e = .ok () e' ↔
    ∃ a e₁, eval target e = .ok a e₁ ∧
      e' = e₁.withHeap (e₁.heap.lock depth (lockOwner? e₁ c target a) a) := by
  constructor
  · intro h
    obtain ⟨a, e₁, heval, hlock⟩ := of_bind_ok h
    cases hlock
    exact ⟨a, e₁, heval, rfl⟩
  · rintro ⟨a, e₁, heval, rfl⟩
    exact bind_of_ok heval

theorem eval_global (host : Host) (fuel : Nat) {name : String} {r : Ref}
    (h : e.globals.find? name = some r) :
    (Interp.ofFuel host (fuel + 1)).eval .commandLine (.var ⟨some .globals, name⟩) e = .ok r e := by
  change lookup .commandLine ⟨some .globals, name⟩ e = .ok r e
  have hresolve : e.resolve .commandLine (some .globals) name = .ok (some r) := congrArg Except.ok h
  have hrun : resolve .commandLine (some .globals) name e = .ok (some r) e := by
    rw [resolve_eq, hresolve]
    rfl
  exact bind_of_ok hrun

end Run

namespace Engine

variable {host : Host} {e e' : Engine} {depth : Int} {a b s : Ref}

/-- The lock comes to a scalar that was handed on. -/
structure LocksShared (e : Engine) (depth : Int) (a s : Ref) : Prop where
  scalar : (e.heap.value s).isScalar = true
  handedOn : s ∈ e.handedOn
  reaches : e.heap.LockReaches depth a s

/-- Whatever is locked from here, it is a value that the target has come to, in an engine that knows
what is shared. A lock of a container leaves what another one comes to as it was, if they share
only scalars; except for those that were handed on, which a lock without an end locks as well. -/
structure ConfinesLocks (host : Host) (e : Engine) : Prop where
  lock : ∀ fuel c depth target e',
    Run.lock ((Interp.ofFuel host fuel).eval c) c depth target e = .ok () e' → ∃ a e₁,
      (Interp.ofFuel host fuel).eval c target e = .ok a e₁ ∧ e₁.KnowsShared ∧
        e' = e₁.withHeap (e₁.heap.lock depth (Run.lockOwner? e₁ c target a) a)
  apart : ∀ a b s depth owner, (e.heap.value a).isScalar = false →
    (e.heap.value b).isScalar = false → e.heap.Apart a b → e.heap.Reaches b s →
      ¬e.LocksShared depth a s → (e.heap.lock depth owner a).cell s = e.heap.cell s
  shared : ∀ a s depth owner, e.LocksShared depth a s → depth < 1 → s.index < e.heap.size →
    (e.heap.lock depth owner a).isLocked s = true ∧
      (e.heap.lock depth owner a).owner s = owner.map (·.canonicalName)

/-- What a lock of one container comes to and the other one holds was handed on. -/
theorem KnowsShared.locksShared (he : e.KnowsShared) (ha : (e.heap.value a).isScalar = false)
    (hb : (e.heap.value b).isScalar = false) (hapart : e.heap.Apart a b)
    (hs : e.heap.Reaches b s) (hlock : e.heap.LockReaches depth a s) :
    e.LocksShared depth a s := by
  have hscalar := hapart s hlock.reaches hs
  refine ⟨hscalar, ?_, hlock⟩
  -- the scalar is neither of the containers, so each of them comes to a value that holds it
  have hholder {r : Ref} (hr : (e.heap.value r).isScalar = false) (hreaches : e.heap.Reaches r s) :
      ∃ t, e.heap.Reaches r t ∧ s ∈ (e.heap.value t).parts := by
    rcases hreaches.cases_tail with rfl | hlast
    · rw [hscalar] at hr
      cases hr
    · exact hlast
  obtain ⟨r, hreaches, hr⟩ := hholder ha hlock.reaches
  obtain ⟨r', hreaches', hr'⟩ := hholder hb hs
  refine he.handedOn_of_mem_parts ?_ hscalar hr hr'
  rintro rfl
  have hparts := hapart r hreaches hreaches'
  cases hv : e.heap.value r with
  | number | float | string => simp [hv, Value.parts] at hr
  | _ => simp [hv, Value.isScalar] at hparts

theorem KnowsShared.confinesLocks (he : e.KnowsShared) (host : Host) : e.ConfinesLocks host where
  lock fuel c depth target e' h := by
    obtain ⟨a, e₁, hrun, hlocked⟩ := Run.lock_ok_iff.1 h
    have heval := Invariant.sharing.reaches_eval he host fuel c target
    simp only [Run.Reaches, hrun] at heval
    exact ⟨a, e₁, hrun, heval.1.1, hlocked⟩
  apart a b s depth owner ha hb hapart hs hshared :=
    Heap.cell_lock_of_not_lockReaches owner fun hlock =>
      hshared (he.locksShared ha hb hapart hs hlock)
  shared a s depth owner h hdepth hin := Heap.locked_of_lockReaches hdepth owner h.reaches hin

end Engine

namespace Session

variable {host : Host} {e : Engine}

/-- Whatever a session asks for: in the engines that it comes to, between its runs and in every step
of them, a lock of one container touches what another one apart from it comes to only where scalars
were handed on. -/
theorem perform_confinesLocks (he : Arrives host e) (fuel : Nat) (r : Request) :
    (r.perform (.ofFuel host fuel) e).2.KnowsShared ∧
    (∀ hit : Task → Engine → Bool, (∀ task e₁, e₁.KnowsShared → hit task e₁ = false) →
      r.perform (.watching host hit fuel) e = r.perform (.ofFuel host fuel) e) ∧
    ∀ e₁ : Engine, e₁.KnowsShared → e₁.ConfinesLocks host := by
  have hknows : e.KnowsShared := Invariant.sharing.holds_of_arrives he
  have hkeeps : e.Affords (r.perform (.ofFuel host fuel) e).2 [] :=
    Invariant.sharing.keeps_perform hknows host fuel r
  exact ⟨hknows.of_affords hkeeps,
    fun _ hhit => Invariant.sharing.perform_watching hknows fuel r hhit,
    fun e₁ he₁ => he₁.confinesLocks host⟩

/-! ### A copy and a slice -/

def original : Variable := ⟨some .globals, "original"⟩

def derived : Variable := ⟨some .globals, "derived"⟩

/-- A List of one String, and what is made of it. -/
def making (x : Expr) : Request :=
  .run .commandLine [.assign (.var original) .set (.list [.var ⟨some .vim, "exception"⟩]),
    .assign (.var derived) .set x]

def made (x : Expr) : Engine := ((making x).perform (.ofFuel ⟨[]⟩ 4) (holding "")).2

def copyOfOriginal : Expr := .call none "copy" [.var original]

def sliceOfOriginal : Expr := .slice (.var original) none none

/-- A copy has items of its own. -/
theorem perform_confinesLocks_copy :
    Arrives ⟨[]⟩ (holding "") ∧ ∀ depth owner,
      ((made copyOfOriginal).heap.lock depth owner ⟨6⟩).cell ⟨7⟩ =
        (made copyOfOriginal).heap.cell ⟨7⟩ := by
  have harrives := arrives_holding ⟨[]⟩ ""
  obtain ⟨hknows, -, hconfines⟩ := perform_confinesLocks harrives 4 (making copyOfOriginal)
  have hlocks : (made copyOfOriginal).ConfinesLocks ⟨[]⟩ := hconfines _ hknows
  have hlist : ((made copyOfOriginal).heap.value ⟨6⟩).isScalar = false := by decide +kernel
  have hcopy : ((made copyOfOriginal).heap.value ⟨8⟩).isScalar = false := by decide +kernel
  have hbelow : ∀ r ∈ [(⟨6⟩ : Ref), ⟨5⟩], ∀ s ∈ ((made copyOfOriginal).heap.value r).parts,
      s ∈ [(⟨6⟩ : Ref), ⟨5⟩] := by decide +kernel
  have hbelow' : ∀ r ∈ [(⟨8⟩ : Ref), ⟨7⟩], ∀ s ∈ ((made copyOfOriginal).heap.value r).parts,
      s ∈ [(⟨8⟩ : Ref), ⟨7⟩] := by decide +kernel
  have hapart : (made copyOfOriginal).heap.Apart ⟨6⟩ ⟨8⟩ :=
    Heap.apart_of_closed List.mem_cons_self hbelow List.mem_cons_self hbelow' (by decide)
  have hitem : (⟨7⟩ : Ref) ∈ ((made copyOfOriginal).heap.value ⟨8⟩).parts := by decide +kernel
  have hkept : (⟨7⟩ : Ref) ∉ (made copyOfOriginal).handedOn := by decide +kernel
  exact ⟨harrives, fun depth owner => hlocks.apart ⟨6⟩ ⟨8⟩ ⟨7⟩ depth owner hlist hcopy hapart
    (.single hitem) fun h => hkept h.handedOn⟩

/-- A slice holds the items of the List itself, so that a lock of the List locks them in both. -/
theorem not_forall_apart_kept :
    ¬∀ (fuel : Nat) (e e₁ e' : Engine) (c : Context) (target : Expr) (a b s : Ref) (depth : Int),
      Arrives ⟨[]⟩ e → (Interp.ofFuel ⟨[]⟩ fuel).eval c target e = .ok a e₁ →
      (e₁.heap.value a).isScalar = false → (e₁.heap.value b).isScalar = false →
      e₁.heap.Apart a b → e₁.heap.Reaches b s →
      Run.lock ((Interp.ofFuel ⟨[]⟩ fuel).eval c) c depth target e = .ok () e' →
      e'.heap.isLocked s = e₁.heap.isLocked s ∧ e'.heap.owner s = e₁.heap.owner s := by
  intro hall
  have harrives : Arrives ⟨[]⟩ (made sliceOfOriginal) := .perform (arrives_holding ⟨[]⟩ "") 4 _
  have hlist : ((made sliceOfOriginal).heap.value ⟨6⟩).isScalar = false := by decide +kernel
  have hslice : ((made sliceOfOriginal).heap.value ⟨7⟩).isScalar = false := by decide +kernel
  have hbelow : ∀ r ∈ [(⟨6⟩ : Ref), ⟨5⟩], ∀ s ∈ ((made sliceOfOriginal).heap.value r).parts,
      s ∈ [(⟨6⟩ : Ref), ⟨5⟩] := by decide +kernel
  have hbelow' : ∀ r ∈ [(⟨7⟩ : Ref), ⟨5⟩], ∀ s ∈ ((made sliceOfOriginal).heap.value r).parts,
      s ∈ [(⟨7⟩ : Ref), ⟨5⟩] := by decide +kernel
  have hscalar : ∀ r ∈ [(⟨6⟩ : Ref), ⟨5⟩], r ∈ [(⟨7⟩ : Ref), ⟨5⟩] →
      ((made sliceOfOriginal).heap.value r).isScalar = true := by decide +kernel
  have hapart : (made sliceOfOriginal).heap.Apart ⟨6⟩ ⟨7⟩ :=
    Heap.apart_of_closed List.mem_cons_self hbelow List.mem_cons_self hbelow' hscalar
  have hitem : (⟨5⟩ : Ref) ∈ ((made sliceOfOriginal).heap.value ⟨7⟩).parts := by decide +kernel
  have hbound : (made sliceOfOriginal).globals.find? "original" = some ⟨6⟩ := by decide +kernel
  have heval := Run.eval_global ⟨[]⟩ 3 hbound
  have hlock : Run.lock ((Interp.ofFuel ⟨[]⟩ 4).eval .commandLine) .commandLine 2 (.var original)
      (made sliceOfOriginal) = .ok () _ := Run.lock_ok_iff.2 ⟨_, _, heval, rfl⟩
  obtain ⟨hkept, -⟩ := hall 4 _ _ _ _ _ _ _ _ _ harrives heval hlist hslice hapart (.single hitem)
    hlock
  revert hkept
  decide +kernel

end Session

end VimL
