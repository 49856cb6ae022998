import VimL.Proofs.Locks
import VimL.Proofs.Owners

/-!
# Locks of variables

A variable that was locked refuses to be bound anew, as long as its lock stands. An assignment is
refused because of a lock only if the latest lock of the object was taken in this name, be it that
of another variable: the name that owns a lock shows neither the script nor the frame.
-/

namespace VimL

/-- What is said to refuse a removal. -/
def Variable.removalRefusal (v : Variable) : Cause :=
  if v.scope = some .arguments ∨ v.scope = some .vim then .cannotDelete v.text else .locked v.text

namespace Engine

variable {host : Host} {e e' : Engine} {c : Context} {v : Variable} {b : Binding} {r : Ref}

/-- In this context, the variable is looked up where it is bound. -/
structure Refers (e : Engine) (c : Context) (v : Variable) (b : Binding) : Prop where
  place : e.placeOf? c v.scope v.name = .ok (some b.place)
  name : v.name = b.name

/-- In this context, the variable is removed from where it is bound. -/
structure Removes (c : Context) (v : Variable) (b : Binding) : Prop where
  place : c.place (c.effectiveScope v.scope) v.name true = .ok b.place
  name : v.name = b.name

/-- Assignments, loops and removals that mean this variable fail before they change anything. -/
structure Refuses (e : Engine) (c : Context) (v : Variable) (b : Binding) : Prop where
  assign : e.Refers c v b → ∀ eval op x,
    Run.assign eval c (.var v) op x e = .error (.ofCause (e.refusal c v)) e
  store : e.Refers c v b → ∀ r, Run.store c v r e = .error (.ofCause (e.refusal c v)) e
  round : e.Refers c v b → e.interrupted = false → ∀ i d body r rest,
    Run.forEach i d (Run.store c v) body (r :: rest) e = .error (.ofCause (e.refusal c v)) e
  unlet : Removes c v b → ∀ eval force,
    Run.unlet eval c force (.var v) e = .error (.ofCause v.removalRefusal) e

end Engine

namespace Run

variable {e e' : Engine} {c : Context} {v : Variable} {stop : Stop}

theorem settle_of_error {α : Type} {x : Except Stop α} (h : x = .error stop) (e : Engine) :
    settle x e = .error stop e := by
  rw [h]
  rfl

theorem assign_of_not_writable (h : e.checkWritable c v = .error stop) (eval : Expr → Run Ref)
    (op : AssignOperator) (x : Expr) : assign eval c (.var v) op x e = .error stop e := by
  change assignVariable eval c v op x e = .error stop e
  unfold assignVariable
  rw [bind_of_ok (get_eq e)]
  exact bind_of_error (settle_of_error h e)

theorem store_of_not_writable (h : e.checkWritable c v = .error stop) (r : Ref) :
    store c v r e = .error stop e := by
  unfold store
  rw [bind_of_ok (get_eq e)]
  exact bind_of_error (settle_of_error h e)

theorem forEach_of_not_writable (h : e.checkWritable c v = .error stop)
    (hinterrupted : e.interrupted = false) (i : Interp) (d : Context) (body : List Stmt) (r : Ref)
    (rest : List Ref) : forEach i d (store c v) body (r :: rest) e = .error stop e := by
  have hgoes : isInterrupted e = .ok false e := by
    rw [← hinterrupted]
    rfl
  unfold forEach
  rw [bind_of_ok hgoes]
  exact bind_of_error (store_of_not_writable h r)

/-- A removal ends as it does in its table, unless it is forced and the name is unknown. -/
theorem unlet_of_error {err : ScriptError} (h : unbind c v e = .error (.error err) e')
    (herr : err.errorClass ≠ .name) (eval : Expr → Run Ref) (force : Bool) :
    unlet eval c force (.var v) e = .error (.error err) e' := by
  have hended : outcome (unbind c v) e = .ok (.error (.error err)) e' := by
    unfold outcome
    rw [h]
  change unletVariable c v force e = .error (.error err) e'
  unfold unletVariable
  rw [bind_of_ok hended]
  simp only [herr, and_false, if_false]
  rfl

end Run

namespace Engine

variable {host : Host} {e e' : Engine} {c : Context} {v : Variable} {b : Binding} {r : Ref}

theorem TrueToNotes.checkWritable_of_lockStands (he : e.TrueToNotes)
    (hstands : LockStands b (e.heap.notes r)) (href : e.Refers c v b) :
    e.checkWritable c v = .error (.ofCause (e.refusal c v)) := by
  refine checkWritable_of_guards href.place fun hwritable => ⟨r, ?_⟩
  have hguards := he.guards hwritable hstands
  rw [href.name]
  exact hguards

theorem TrueToNotes.unbind_of_lockStands (he : e.TrueToNotes)
    (hstands : LockStands b (e.heap.notes r)) (hremoves : Removes c v b) :
    Run.unbind c v e = .error (.ofCause v.removalRefusal) e := by
  unfold Run.unbind Variable.removalRefusal
  by_cases hrefused : v.scope = some .arguments ∨ v.scope = some .vim
  · rw [if_pos hrefused, if_pos hrefused]
    rfl
  rw [if_neg hrefused, if_neg hrefused]
  have hscope : b.place.scope = c.effectiveScope v.scope := Context.scope_of_place hremoves.place
  have hwritable : b.place.isWritable = true := Context.isWritable_of_scope hscope hrefused
  have hguards : e.Guards ⟨b.place, v.name⟩ r := by
    rw [hremoves.name]
    exact he.guards hwritable hstands
  rw [hremoves.place]
  simp only [Run.settle, pure_bind]
  rw [Run.bind_of_ok (Run.get_eq e)]
  simp only [hguards.bound, hguards.isLockedAs hscope, if_true]
  rfl

theorem TrueToNotes.refuses (he : e.TrueToNotes) (hstands : LockStands b (e.heap.notes r)) :
    e.Refuses c v b where
  assign href := Run.assign_of_not_writable (he.checkWritable_of_lockStands hstands href)
  store href := Run.store_of_not_writable (he.checkWritable_of_lockStands hstands href)
  round href hgoes :=
    Run.forEach_of_not_writable (he.checkWritable_of_lockStands hstands href) hgoes
  unlet hremoves := by
    refine Run.unlet_of_error (he.unbind_of_lockStands hstands hremoves) ?_
    change v.removalRefusal.errorClass ≠ .name
    unfold Variable.removalRefusal
    split <;> exact nofun

theorem exists_refers_of_resolve (h : e.resolve c v.scope v.name = .ok (some r)) :
    ∃ b, e.Refers c v b ∧ e.Binds b r ∧ e.binding? c v r = some b := by
  obtain ⟨p, hplace, hbound⟩ := exists_placeOf? h
  refine ⟨⟨p, v.name⟩, ⟨hplace, rfl⟩, hbound, ?_⟩
  simp only [binding?, hplace, hbound, if_true]

end Engine

namespace Run

variable {e e' : Engine} {c : Context} {v : Variable} {r : Ref}

theorem of_lookup_ok (h : lookup c v e = .ok r e') :
    e' = e ∧ e.resolve c v.scope v.name = .ok (some r) := by
  unfold lookup at h
  obtain ⟨found, e₁, hfound, hrest⟩ := of_bind_ok h
  rw [resolve_eq] at hfound
  obtain ⟨hresolve, rfl⟩ := of_settle_ok hfound
  cases found with
  | none => cases hrest
  | some s =>
    cases hrest
    exact ⟨rfl, hresolve⟩

/-- A lock of a variable that has succeeded stands. -/
theorem lockStands_of_lock {eval : Expr → Run Ref} (heval : eval (.var v) = lookup c v)
    (he : e.TrueToNotes) {depth : Int} (h : lock eval c depth (.var v) e = .ok () e') :
    ∃ b r, e.Refers c v b ∧ e.Binds b r ∧ e' = e.withHeap (e.heap.lock depth (some b) r) ∧
      (b.place.isWritable = true → LockStands b (e'.heap.notes r)) := by
  unfold lock at h
  rw [heval] at h
  obtain ⟨r, e₁, hlookup, hlock⟩ := of_bind_ok h
  obtain ⟨rfl, hresolve⟩ := of_lookup_ok hlookup
  obtain ⟨b, hrefers, hbinds, howner⟩ := Engine.exists_refers_of_resolve hresolve
  have hlocked : e' = e₁.withHeap (e₁.heap.lock depth (lockOwner? e₁ c (.var v) r) r) := by
    cases hlock
    rfl
  rw [show lockOwner? e₁ c (.var v) r = some b from howner] at hlocked
  refine ⟨b, r, hrefers, hbinds, hlocked, fun hwritable => ?_⟩
  have hr : r.index < e₁.heap.size := he.objects b r hwritable hbinds
  obtain ⟨notes, hnotes⟩ := Heap.notes_lock_self hr depth b
  rw [hlocked]
  exact hnotes ▸ lockStands_named b notes

end Run

/-! ## Locks that stand -/

theorem lockStands_append {b : Binding} {newer notes : List Note} (h : LockStands b notes)
    (hnewer : ∀ note ∈ newer, note.Spares b) : LockStands b (newer ++ notes) := by
  induction newer with
  | nil => exact h
  | cons note rest ih =>
    rw [List.cons_append, lockStands_cons]
    refine ⟨hnewer note List.mem_cons_self, .inr (ih fun other hother => ?_)⟩
    exact hnewer other (List.mem_cons_of_mem _ hother)

namespace Engine

variable {host : Host} {e e' : Engine}

/-- Every lock that stands in the one engine stands in the other, unless something else has been
done to the lock of its object. -/
def Prolongs (e e' : Engine) : Prop :=
  ∀ b r, LockStands b (e.heap.notes r) → ∃ newer, e'.heap.notes r = newer ++ e.heap.notes r ∧
    ((∀ note ∈ newer, note.Spares b) → LockStands b (e'.heap.notes r))

theorem KeepsNotes.prolongs (h : e.KeepsNotes e') : e.Prolongs e' := by
  intro b r hstands
  obtain ⟨newer, hnotes⟩ := h.notes r
  exact ⟨newer, hnotes.symm, fun hnewer => hnotes ▸ lockStands_append hstands hnewer⟩

/-- Where a run that starts in this engine may end: notes are right, and locks are prolonged. -/
def GoesOn (e e' : Engine) : Prop := e'.TrueToNotes ∧ e.Prolongs e'

open Run in
/-- Locks are upheld, by whatever runs from here. A lock of a variable stands at first. As long as
it stands, the variable is bound to the same object, and it refuses to be bound anew. -/
structure UpholdsLocks (host : Host) (e : Engine) : Prop where
  block : ∀ fuel c body, Reaches (fun _ => True) e (block (Interp.ofFuel host fuel).exec c body)
    e.GoesOn fun _ _ => True
  eval : ∀ fuel c x, Reaches (fun _ => True) e ((Interp.ofFuel host fuel).eval c x) e.GoesOn
    fun _ _ => True
  call : ∀ fuel c h arguments receiver,
    Reaches (fun _ => True) e ((Interp.ofFuel host fuel).call c h arguments receiver) e.GoesOn
      fun _ _ => True
  lock : ∀ fuel c v depth e',
    Run.lock ((Interp.ofFuel host (fuel + 1)).eval c) c depth (.var v) e = .ok () e' →
      ∃ b r, e.Refers c v b ∧ e.Binds b r ∧
        (b.place.isWritable = true → LockStands b (e'.heap.notes r))
  binds : ∀ b r, b.place.isWritable = true → LockStands b (e.heap.notes r) → e.Binds b r
  refuses : ∀ b r, LockStands b (e.heap.notes r) → ∀ c v, e.Refuses c v b

theorem TrueToNotes.upholdsLocks (he : e.TrueToNotes) (host : Host) : e.UpholdsLocks host := by
  have hgoesOn {α : Type} {m : Run α}
      (hm : Run.Allows (Invariant.noting.discipline host) e m fun _ _ => True) :
      Run.Reaches (fun _ => True) e m e.GoesOn fun _ _ => True :=
    (Invariant.noting.reaches hm he).mono (fun _ h => ⟨h.1, KeepsNotes.prolongs h.2⟩)
      fun _ _ _ h => h
  have hobeys (fuel : Nat) := Invariant.noting.obeys host fuel
  refine ⟨fun fuel c body => hgoesOn ?_, fun fuel c x => hgoesOn ?_,
    fun fuel c h arguments receiver => hgoesOn ?_, fun fuel c v depth e' hlock => ?_, he.binds,
    fun b r hstands c v => he.refuses hstands⟩
  · have hbody : Trees.any.body .top body := fun _ _ => trivial
    exact (Run.keeps_body (hobeys fuel) hbody False.elim).allows e
  · exact ((hobeys fuel).eval c x trivial).allows e
  · exact (hobeys fuel).call e c h arguments receiver ⟨False.elim, False.elim⟩
  · obtain ⟨b, r, hrefers, hbinds, -, hstands⟩ := Run.lockStands_of_lock rfl he hlock
    exact ⟨b, r, hrefers, hbinds, hstands⟩

end Engine

namespace Session

variable {host : Host} {e : Engine}

/-- Whatever a session asks for: in the engines that it comes to, between its runs and in every step
of them, a variable that was locked cannot be bound anew as long as its lock stands. -/
theorem perform_upholdsLocks (he : Arrives host e) (fuel : Nat) (r : Request) :
    ((r.perform (.ofFuel host fuel) e).2.TrueToNotes ∧
      e.Prolongs (r.perform (.ofFuel host fuel) e).2) ∧
    (∀ hit : Task → Engine → Bool, (∀ task e₁, e₁.TrueToNotes → hit task e₁ = false) →
      r.perform (.watching host hit fuel) e = r.perform (.ofFuel host fuel) e) ∧
    ∀ e₁ : Engine, e₁.TrueToNotes → e₁.UpholdsLocks host := by
  have htrue := he.trueToNotes
  have hkeeps : e.KeepsNotes (r.perform (.ofFuel host fuel) e).2 :=
    Invariant.noting.keeps_perform htrue host fuel r
  exact ⟨⟨hkeeps.right htrue, hkeeps.prolongs⟩,
    fun _ hhit => Invariant.noting.perform_watching htrue fuel r hhit,
    fun e₁ he₁ => he₁.upholdsLocks host⟩

def list : Variable := ⟨some .globals, "list"⟩

def other : Variable := ⟨some .globals, "other"⟩

/-- A list that is locked under one name, or under two of them. -/
def lockedUnder (names : List Variable) : Request :=
  .run .commandLine [.assign (.var list) .set (.list []), .assign (.var other) .set (.var list),
    .lock (names.map .var) 2]

theorem perform_upholdsLocks_list :
    Arrives ⟨[]⟩ (holding "") ∧ ∀ eval op x,
      Run.assign eval .commandLine (.var list) op x
          ((lockedUnder [list]).perform (.ofFuel ⟨[]⟩ 4) (holding "")).2 =
        .error (.ofCause (.locked "g:list"))
          ((lockedUnder [list]).perform (.ofFuel ⟨[]⟩ 4) (holding "")).2 := by
  have harrives := arrives_holding ⟨[]⟩ ""
  obtain ⟨⟨htrue, -⟩, -, hupholds⟩ := perform_upholdsLocks harrives 4 (lockedUnder [list])
  have hstands : LockStands ⟨.globals, "list"⟩
      (((lockedUnder [list]).perform (.ofFuel ⟨[]⟩ 4) (holding "")).2.heap.notes ⟨5⟩) := by
    decide
  exact ⟨harrives, ((hupholds _ htrue).refuses _ _ hstands .commandLine list).assign ⟨rfl, rfl⟩⟩

/-- Nothing was unlocked, but the list was locked under its other name as well. -/
theorem not_forall_locked_refuses :
    ¬∀ (fuel : Nat) (body : List Stmt) (b : Binding) (r : Ref) (v : Variable),
      .named b ∈ (run (.ofFuel ⟨[]⟩ fuel) .commandLine body (holding "")).2.heap.notes r →
      ¬(run (.ofFuel ⟨[]⟩ fuel) .commandLine body (holding "")).2.Unlocks →
      (run (.ofFuel ⟨[]⟩ fuel) .commandLine body (holding "")).2.Refers .commandLine v b →
      (run (.ofFuel ⟨[]⟩ fuel) .commandLine body (holding "")).2.Binds b r →
      ∀ x e', Run.assign ((Interp.ofFuel ⟨[]⟩ fuel).eval .commandLine) .commandLine (.var v) .set x
        (run (.ofFuel ⟨[]⟩ fuel) .commandLine body (holding "")).2 ≠ .ok () e' := by
  intro hall
  have hnamed : .named ⟨.globals, "list"⟩ ∈
      ((lockedUnder [list, other]).perform (.ofFuel ⟨[]⟩ 4) (holding "")).2.heap.notes ⟨5⟩ := by
    decide
  have hnone : ¬((lockedUnder [list, other]).perform (.ofFuel ⟨[]⟩ 4) (holding "")).2.Unlocks := by
    rintro ⟨event, hin, hunlocks⟩
    have hhistory : ((lockedUnder [list, other]).perform (.ofFuel ⟨[]⟩ 4) (holding "")).2.history =
        [.began .commandLine (.lock [.var list, .var other] 2),
          .began .commandLine (.assign (.var other) .set (.var list)),
          .began .commandLine (.assign (.var list) .set (.list []))] := rfl
    rw [hhistory] at hin
    simp only [List.mem_cons, List.not_mem_nil, or_false] at hin
    rcases hin with rfl | rfl | rfl
    all_goals
      cases hunlocks with
      | began hs => cases hs
  exact hall 4 _ ⟨.globals, "list"⟩ ⟨5⟩ list hnamed hnone ⟨rfl, rfl⟩ rfl (.list []) _ rfl

end Session

/-! ## Locks that refuse -/

theorem Scope.prefixText_append_inj {s s' : Scope} {name name' : String}
    (h : s.prefixText ++ name = s'.prefixText ++ name') : s = s' ∧ name = name' := by
  have hlist := congrArg String.toList h
  simp only [prefixText, String.toList_append, String.toList_ofList, List.cons_append,
    List.nil_append, List.cons.injEq, true_and] at hlist
  obtain ⟨hletter, hname⟩ := hlist
  refine ⟨?_, String.toList_inj.1 hname⟩
  have hscope := ofLetter?_letter s
  rw [hletter, ofLetter?_letter] at hscope
  exact (Option.some.inj hscope).symm

namespace Engine

variable {host : Host} {e e' : Engine} {c : Context} {v : Variable} {b : Binding} {r : Ref}

/-- The latest that was done to the lock of the object is that it was locked for a variable of this
name and scope. For a global variable, that is the same variable. -/
def LockedAs (e : Engine) (b : Binding) (r : Ref) : Prop :=
  ∃ note ∈ (e.heap.notes r).head?, ∃ owner, note.owner? = some owner ∧
    owner.place.scope = b.place.scope ∧ owner.name = b.name ∧ (b.place = .globals → owner = b)

theorem TrueToNotes.isLockedAs_iff (he : e.TrueToNotes)
    (hscope : b.place.scope = c.effectiveScope v.scope) (hname : v.name = b.name) :
    e.isLockedAs c v r = true ↔ e.LockedAs b r := by
  have hcanonical : c.canonicalName v = b.canonicalName := by
    unfold Context.canonicalName Binding.canonicalName
    rw [hscope, hname]
  obtain ⟨hlocked, howner⟩ := he.noted r
  have hlocked : e.heap.isLocked r = (e.heap.notes r).head?.any (·.locks) := hlocked
  have howner : e.heap.owner r =
      ((e.heap.notes r).head?.bind (·.owner?)).map (·.canonicalName) := howner
  simp only [isLockedAs, Bool.and_eq_true, beq_iff_eq, hcanonical]
  rw [hlocked, howner]
  cases hnotes : (e.heap.notes r).head? with
  | none => simp [LockedAs, hnotes]
  | some note =>
    simp only [LockedAs, hnotes, Option.any_some, Option.bind_some, Option.map_eq_some_iff,
      Option.mem_some_iff, exists_eq_left']
    constructor
    · rintro ⟨-, owner, hfor, heq⟩
      obtain ⟨hsame, hnamed⟩ := Scope.prefixText_append_inj heq
      refine ⟨owner, hfor, hsame, hnamed, fun hglobals => ?_⟩
      have hplace : owner.place = b.place := by
        rw [hglobals] at hsame ⊢
        cases hother : owner.place with
        | globals => rfl
        | _ => simp [hother, Place.scope] at hsame
      cases owner
      cases b
      cases hplace
      cases hnamed
      rfl
    · rintro ⟨owner, hfor, hsame, hnamed, -⟩
      refine ⟨?_, owner, hfor, ?_⟩
      · cases note with
        | unlocked => cases hfor
        | _ => rfl
      · unfold Binding.canonicalName
        rw [hsame, hnamed]

theorem cause_ne_locked_of_place {scope : Scope} {name : String} {writing : Bool}
    {err : ScriptError} (h : c.place scope name writing = .error (.error err)) (text : String) :
    err.cause ≠ .locked text := by
  unfold Context.place at h
  split at h
  · cases h
  · cases h
  all_goals
    split at h
    · cases h
    · first
        | split at h <;> cases h <;> exact nofun
        | cases h; exact nofun

theorem cause_ne_locked_of_resolve {scope : Option Scope} {name : String} {err : ScriptError}
    (h : e.resolve c scope name = .error (.error err)) (text : String) :
    err.cause ≠ .locked text :=
  cause_ne_locked_of_place (place_of_resolve_error h) text

/-- A check that a lock fails has found it. -/
theorem TrueToNotes.lockedAs_of_checkWritable (he : e.TrueToNotes) {err : ScriptError}
    {text : String} (h : e.checkWritable c v = .error (.error err))
    (hcause : err.cause = .locked text) :
    ∃ b r, e.Refers c v b ∧ e.Binds b r ∧ e.LockedAs b r := by
  unfold checkWritable at h
  split at h
  · cases h
    cases hcause
  split at h
  · cases h
    cases hcause
  split at h
  · cases h
    cases hcause
  cases hresolve : e.resolve c v.scope v.name with
  | error stop =>
    rw [hresolve] at h
    obtain rfl := Except.error.inj h
    exact absurd hcause (cause_ne_locked_of_resolve hresolve text)
  | ok found =>
    rw [hresolve] at h
    cases found with
    | none => cases h
    | some r =>
      obtain ⟨b, hrefers, hbinds, -⟩ := exists_refers_of_resolve hresolve
      dsimp only at h
      split at h
      · rename_i hlocked
        have hscope := scope_of_placeOf? hrefers.place
        exact ⟨b, r, hrefers, hbinds, (he.isLockedAs_iff hscope hrefers.name).1 hlocked⟩
      · cases h

end Engine

namespace Run

variable {host : Host} {e e' : Engine} {c : Context} {v : Variable} {err : ScriptError}
  {text : String}

theorem lockedAs_of_store (he : e.TrueToNotes) {r : Ref}
    (h : store c v r e = .error (.error err) e') (hcause : err.cause = .locked text) :
    e' = e ∧ ∃ b r, e.Refers c v b ∧ e.Binds b r ∧ e.LockedAs b r := by
  unfold store at h
  rw [bind_of_ok (get_eq e)] at h
  rcases of_bind_error h with hcheck | ⟨_, e₁, hcheck, hrest⟩
  · obtain ⟨hrefused, rfl⟩ := of_settle_error hcheck
    exact ⟨rfl, he.lockedAs_of_checkWritable hrefused hcause⟩
  -- nothing that comes after the check looks at locks
  · obtain ⟨-, rfl⟩ := of_settle_ok hcheck
    exfalso
    dsimp only at hrest
    split at hrest
    · rcases of_bind_error hrest with hsmall | ⟨_, _, hsmall, -⟩
      · cases hsmall
        cases hcause
      · cases hsmall
    · rcases of_bind_error hrest with hplace | ⟨p, e₂, -, hstore⟩
      · obtain ⟨hplace, -⟩ := of_settle_error hplace
        unfold Engine.writePlace at hplace
        dsimp only at hplace
        split at hplace
        · cases hplace
        · exact Engine.cause_ne_locked_of_place hplace text hcause
      · rcases of_bind_error hstore with hstored | ⟨s, e₃, -, hbind⟩
        · cases hstored
        · cases hbind

theorem lockedAs_of_assign {eval : Expr → Run Ref} {x : Expr} (he : e.TrueToNotes)
    (heval : Reaches (fun _ => True) e (eval x) Engine.TrueToNotes fun _ _ => True)
    (h : assign eval c (.var v) .set x e = .error (.error err) e')
    (hcause : err.cause = .locked text) :
    eval x e = .error (.error err) e' ∨
      ∃ b r, e'.Refers c v b ∧ e'.Binds b r ∧ e'.LockedAs b r := by
  change assignVariable eval c v .set x e = .error (.error err) e' at h
  unfold assignVariable at h
  rw [bind_of_ok (get_eq e)] at h
  rcases of_bind_error h with hcheck | ⟨_, e₁, hcheck, hrest⟩
  · obtain ⟨hrefused, rfl⟩ := of_settle_error hcheck
    exact .inr (he.lockedAs_of_checkWritable hrefused hcause)
  obtain ⟨-, rfl⟩ := of_settle_ok hcheck
  rcases of_bind_error hrest with hresolve | ⟨current, e₂, hresolve, hright⟩
  · rw [resolve_eq] at hresolve
    obtain ⟨hresolve, -⟩ := of_settle_error hresolve
    exact absurd hcause (Engine.cause_ne_locked_of_resolve hresolve text)
  rw [resolve_eq] at hresolve
  obtain ⟨-, rfl⟩ := of_settle_ok hresolve
  simp only [ne_eq, not_true_eq_false, false_and, if_false] at hright
  rcases of_bind_error hright with hfailed | ⟨right, e₃, hdone, hstore⟩
  · exact .inl hfailed
  unfold Reaches at heval
  rw [hdone] at heval
  have hcombine : combine .set current right v.text e₃ = .ok right e₃ := rfl
  rw [bind_of_ok hcombine] at hstore
  obtain ⟨rfl, hlocked⟩ := lockedAs_of_store heval.1 hstore hcause
  exact .inr hlocked

theorem lockedAs_of_unlet (he : e.TrueToNotes) {eval : Expr → Run Ref} {force : Bool}
    (h : unlet eval c force (.var v) e = .error (.error err) e')
    (hcause : err.cause = .locked text) :
    e' = e ∧ ∃ b r, Engine.Removes c v b ∧ e.Binds b r ∧ e.LockedAs b r := by
  change unletVariable c v force e = .error (.error err) e' at h
  -- an error that is passed over does not come out, so this one is that of the removal
  have hunbind : unbind c v e = .error (.error err) e' := by
    unfold unletVariable outcome at h
    cases hrun : unbind c v e with
    | ok _ e₁ => simp [Bind.bind, EStateM.bind, hrun, Pure.pure, EStateM.pure] at h
    | error stop e₁ =>
      simp only [Bind.bind, EStateM.bind, hrun] at h
      cases stop with
      | error other =>
        dsimp only at h
        split at h
        · cases h
        · cases h
          rfl
      | _ => cases h
  unfold unbind at hunbind
  split at hunbind
  · rcases of_bind_error hunbind with hrefused | ⟨_, _, hrefused, -⟩
    · cases hrefused
      cases hcause
    · cases hrefused
  rcases of_bind_error hunbind with hplace | ⟨p, e₁, hplace, hrest⟩
  · obtain ⟨hplace, -⟩ := of_settle_error hplace
    exact absurd hcause (Engine.cause_ne_locked_of_place hplace text)
  obtain ⟨hwhere, rfl⟩ := of_settle_ok hplace
  rw [bind_of_ok (get_eq e₁)] at hrest
  cases hbound : (e₁.tableAt p).find? v.name with
  | none =>
    rw [hbound] at hrest
    cases hrest
    cases hcause
  | some r =>
    rw [hbound] at hrest
    dsimp only at hrest
    split at hrest
    · rename_i hlocked
      have hscope : p.scope = c.effectiveScope v.scope := Context.scope_of_place hwhere
      rcases of_bind_error hrest with hraised | ⟨_, _, hraised, -⟩
      · cases hraised
        exact ⟨rfl, ⟨p, v.name⟩, r, ⟨hwhere, rfl⟩, hbound,
          (he.isLockedAs_iff (b := ⟨p, v.name⟩) hscope rfl).1 hlocked⟩
      · cases hraised
    · cases hrest

end Run

namespace Engine

variable {e : Engine}

/-- An assignment or a removal is refused because of a lock only if the latest that was done to the
lock of the object is that it was locked in this name. Then an assignment is refused indeed. -/
structure BlamesOwners (host : Host) (e : Engine) : Prop where
  assign : ∀ fuel c v x err text e',
    Run.assign ((Interp.ofFuel host fuel).eval c) c (.var v) .set x e = .error (.error err) e' →
    err.cause = .locked text →
      (Interp.ofFuel host fuel).eval c x e = .error (.error err) e' ∨
        ∃ b r, e'.Refers c v b ∧ e'.Binds b r ∧ e'.LockedAs b r
  unlet : ∀ eval c v force err text e',
    Run.unlet eval c force (.var v) e = .error (.error err) e' → err.cause = .locked text →
      e' = e ∧ ∃ b r, Removes c v b ∧ e.Binds b r ∧ e.LockedAs b r
  refuses : ∀ c v b r, e.Refers c v b → e.Binds b r → e.LockedAs b r →
    e.isReadOnly c v = false → ∀ eval x,
      Run.assign eval c (.var v) .set x e = .error (.ofCause (.locked v.text)) e

theorem TrueToNotes.blamesOwners (he : e.TrueToNotes) (host : Host) : e.BlamesOwners host where
  assign fuel c v x err text e' h hcause := by
    refine Run.lockedAs_of_assign he ?_ h hcause
    exact (Invariant.noting.reaches_eval he host fuel c x).mono (fun _ h => h.1) fun _ _ _ h => h
  unlet eval c v force err text e' h hcause := Run.lockedAs_of_unlet he h hcause
  refuses c v b r hrefers hbinds hlocked hfree eval x := by
    have hscope := scope_of_placeOf? hrefers.place
    have hguards : e.Guards ⟨b.place, v.name⟩ r := by
      have hown := (he.isLockedAs_iff hscope hrefers.name).2 hlocked
      simp only [isLockedAs, Bool.and_eq_true, beq_iff_eq] at hown
      refine ⟨hrefers.name ▸ hbinds, hown.1, ?_⟩
      rw [hown.2, canonicalName_of_scope hscope]
    have hcheck := checkWritable_of_guards hrefers.place fun _ => ⟨r, hguards⟩
    unfold refusal at hcheck
    rw [if_neg (by simp [hfree])] at hcheck
    exact Run.assign_of_not_writable hcheck eval .set x

end Engine

namespace Session

variable {host : Host} {e : Engine}

/-- Whatever a session asks for: in the engines that it comes to, between its runs and in every step
of them, a lock refuses an assignment only to the name that it was taken in. -/
theorem perform_blamesOwners (he : Arrives host e) (fuel : Nat) (r : Request) :
    (r.perform (.ofFuel host fuel) e).2.TrueToNotes ∧
    (∀ hit : Task → Engine → Bool, (∀ task e₁, e₁.TrueToNotes → hit task e₁ = false) →
      r.perform (.watching host hit fuel) e = r.perform (.ofFuel host fuel) e) ∧
    ∀ e₁ : Engine, e₁.TrueToNotes → e₁.BlamesOwners host := by
  have htrue := he.trueToNotes
  have hkeeps : e.KeepsNotes (r.perform (.ofFuel host fuel) e).2 :=
    Invariant.noting.keeps_perform htrue host fuel r
  exact ⟨hkeeps.right htrue, fun _ hhit => Invariant.noting.perform_watching htrue fuel r hhit,
    fun _ he₁ => he₁.blamesOwners host⟩

theorem perform_blamesOwners_list :
    Arrives ⟨[]⟩ (holding "") ∧ ∀ eval x,
      Run.assign eval .commandLine (.var other) .set x
          ((lockedUnder [other]).perform (.ofFuel ⟨[]⟩ 4) (holding "")).2 =
        .error (.ofCause (.locked "g:other"))
          ((lockedUnder [other]).perform (.ofFuel ⟨[]⟩ 4) (holding "")).2 := by
  have harrives := arrives_holding ⟨[]⟩ ""
  obtain ⟨htrue, -, hblames⟩ := perform_blamesOwners harrives 4 (lockedUnder [other])
  have hlocked : ((lockedUnder [other]).perform (.ofFuel ⟨[]⟩ 4) (holding "")).2.LockedAs
      ⟨.globals, "other"⟩ ⟨5⟩ :=
    ⟨.named ⟨.globals, "other"⟩, rfl, ⟨.globals, "other"⟩, rfl, rfl, rfl, fun _ => rfl⟩
  exact ⟨harrives, (hblames _ htrue).refuses .commandLine other ⟨.globals, "other"⟩ ⟨5⟩ ⟨rfl, rfl⟩
    rfl hlocked rfl⟩

def mine : Variable := ⟨some .script, "mine"⟩

/-- A list that two scripts have under one name, of which the first one has locked it. -/
def sharing : List Request :=
  [.run .commandLine [.assign (.var list) .set (.list [])],
    .source "first" [.assign (.var mine) .set (.var list), .lock [.var mine] 2],
    .source "second" [.assign (.var mine) .set (.var list)]]

def shared : Engine :=
  sharing.foldl (fun e r => (r.perform (.ofFuel ⟨[]⟩ 4) e).2) (holding "")

/-- The second script did not lock its variable, but the lock of the first one bears its name. -/
theorem not_forall_refused_owns :
    ¬∀ (e : Engine) (c : Context) (v : Variable) (b : Binding), Arrives ⟨[]⟩ e → e.Refers c v b →
      (∀ r, .locked (some b) ∉ e.heap.notes r) → ∀ fuel x e',
        Run.assign ((Interp.ofFuel ⟨[]⟩ fuel).eval c) c (.var v) .set x e ≠
          .error (.ofCause (.locked v.text)) e' := by
  intro hall
  have harrives : Arrives ⟨[]⟩ shared :=
    .perform (.perform (.perform (arrives_holding ⟨[]⟩ "") 4 _) 4 _) 4 _
  refine hall shared ⟨some ⟨1⟩, none⟩ mine ⟨.script ⟨1⟩, "mine"⟩ harrives ⟨rfl, rfl⟩
    (fun r hr => ?_) 4 (.list []) _ rfl
  have hcells : ∀ c ∈ shared.heap.cells.toList, .locked (some ⟨.script ⟨1⟩, "mine"⟩) ∉ c.notes := by
    decide
  by_cases hin : r.index < shared.heap.cells.size
  · have hcell : shared.heap.cell r ∈ shared.heap.cells.toList := by
      simp [Heap.cell, Array.getD_eq_getD_getElem?, hin]
    exact hcells _ hcell hr
  · rw [Heap.notes, Heap.cell_of_size_le _ r (Nat.le_of_not_lt hin)] at hr
    cases hr

end Session

end VimL
