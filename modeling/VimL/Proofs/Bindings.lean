import VimL.Proofs.Additions
import VimL.Proofs.VariableLocks

/-!
# Storing and removing variables

A variable that was stored is found again: a lookup of its name comes to the table that was written
first. A removal looks into the table of the scope alone. It takes away what a lookup finds there,
and it does not know a name that only an enclosing frame binds.
-/

namespace VimL

namespace Table

variable {α : Type} {t : Table α} {name : String}

theorem fst_insertIn_of_findIn (value : α) {entries : List (String × α)}
    (h : (findIn name entries).isSome = true) :
    (insertIn name value entries).map (·.1) = entries.map (·.1) := by
  induction entries with
  | nil => cases h
  | cons entry rest ih =>
    by_cases hn : entry.1 = name
    · simp [insertIn, hn]
    · rw [findIn, if_neg hn] at h
      simp [insertIn, hn, ih h]

/-- A name that is bound keeps its place. -/
theorem keys_insert_of_contains (h : t.contains name = true) (value : α) :
    (t.insert name value).keys = t.keys :=
  fst_insertIn_of_findIn value h

theorem contains_insert (t : Table α) (name other : String) (value : α) :
    (t.insert name value).contains other = (t.contains other || decide (other = name)) := by
  by_cases hn : other = name
  · subst hn
    simp [contains]
  · simp [contains, find?_insert_of_ne hn, hn]

end Table

/-- The scope exists in this context. -/
def Context.Offers (c : Context) : Scope → Prop
  | .globals | .vim => True
  | .script => c.script.isSome = true
  | .locals | .arguments => c.frame.isSome = true

theorem Context.exists_place {c : Context} {scope : Scope} (h : c.Offers scope) (name : String)
    (writing : Bool) : ∃ p, c.place scope name writing = .ok p := by
  cases scope with
  | globals | vim => exact ⟨_, rfl⟩
  | script =>
    obtain ⟨id, hid⟩ := Option.isSome_iff_exists.1 h
    exact ⟨.script id, by simp [place, hid]⟩
  | locals | arguments =>
    obtain ⟨id, hid⟩ := Option.isSome_iff_exists.1 h
    exact ⟨_, by simp only [place, hid]; rfl⟩

namespace Engine

variable {e e' : Engine} {c : Context} {v : Variable} {p : Place}

/-- The script and the frame of this context exist. -/
structure HasContext (e : Engine) (c : Context) : Prop where
  script : ∀ id, c.script = some id → id.index < e.scripts.size
  frame : ∀ id, c.frame = some id → id.index < e.frames.size

/-! ## Tables that exist -/

def HasPlace (e : Engine) : Place → Prop
  | .globals | .vim => True
  | .script id => id.index < e.scripts.size
  | .locals id | .arguments id => id.index < e.frames.size

theorem HasPlace.withHeap (hp : e.HasPlace p) {h : Heap} : (e.withHeap h).HasPlace p := by
  cases p <;> exact hp

theorem tableAt_changeTable_self (h : e.HasPlace p) (change : Table Ref → Table Ref) :
    (e.changeTable change p).tableAt p = change (e.tableAt p) := by
  cases p with
  | globals | vim => rfl
  | script id =>
    obtain ⟨s, hs⟩ : ∃ s, e.scripts[id.index]? = some s := ⟨_, Array.getElem?_eq_getElem h⟩
    simp [tableAt, script?, changeTable, Array.getElem?_modify, hs]
  | locals id | arguments id =>
    obtain ⟨f, hf⟩ : ∃ f, e.frames[id.index]? = some f := ⟨_, Array.getElem?_eq_getElem h⟩
    simp [tableAt, frame?, changeTable, Array.getElem?_modify, hf]

theorem hasPlace_of_contains {name : String} (h : (e.tableAt p).contains name = true) :
    e.HasPlace p := by
  cases p with
  | globals | vim => trivial
  | script id =>
    by_contra hnone
    simp [tableAt, script?, Array.getElem?_eq_none (Nat.le_of_not_lt hnone), Table.contains] at h
  | locals id | arguments id =>
    by_contra hnone
    simp [tableAt, frame?, Array.getElem?_eq_none (Nat.le_of_not_lt hnone), Table.contains] at h

theorem HasContext.hasPlace_of_place (he : e.HasContext c) {scope : Scope} {name : String}
    {writing : Bool} (h : c.place scope name writing = .ok p) : e.HasPlace p := by
  have hin : e.InScope c p := inScope_of_place h
  cases p with
  | globals | vim => trivial
  | script id => exact he.script id hin
  | locals id => exact he.frame id (Context.frame_of_place h)
  | arguments id =>
    obtain rfl : Place.scope (.arguments id) = scope := Context.scope_of_place h
    obtain ⟨own, hown, -⟩ := hin
    simp only [Place.scope, Context.place, hown, Except.ok.injEq, Place.arguments.injEq] at h
    exact h ▸ he.frame own hown

/-! ## The frames of a closure -/

theorem chain_congr (h : ∀ id, (e'.frame? id).bind (·.closure) = (e.frame? id).bind (·.closure))
    (id : FrameId) : e'.chain id = e.chain id := by
  have hfrom (fuel : Nat) : e'.chainFrom fuel id = e.chainFrom fuel id := by
    induction fuel generalizing id with
    | zero => rfl
    | succ fuel ih =>
      unfold chainFrom
      rw [h id]
      cases (e.frame? id).bind (·.closure) with
      | none => rfl
      | some outer => exact congrArg (id :: ·) (ih outer)
  exact hfrom (id.index + 1)

theorem closure_changeTable (e : Engine) (change : Table Ref → Table Ref) (p : Place)
    (id : FrameId) :
    ((e.changeTable change p).frame? id).bind (·.closure) = (e.frame? id).bind (·.closure) := by
  cases p with
  | locals own | arguments own =>
    simp only [frame?, changeTable, Array.getElem?_modify]
    split
    · cases e.frames[id.index]? <;> rfl
    · rfl
  | _ => rfl

/-- Of the frames that the closure goes through, this is the first that binds the local. -/
structure Innermost (e : Engine) (own : FrameId) (name : String) (id : FrameId) : Prop where
  binds : (e.tableAt (.locals id)).contains name = true
  first : ∃ inner outer, e.chain own = inner ++ id :: outer ∧
    ∀ other ∈ inner, (e.tableAt (.locals other)).contains name = false

theorem Innermost.binder?_eq {own id : FrameId} {name : String} (h : e.Innermost own name id)
    (hframe : c.frame = some own) : e.binder? c .locals name = some (.locals id) := by
  obtain ⟨inner, outer, hchain, hinner⟩ := h.first
  have hfirst : (e.chain own).find? (fun f => (e.tableAt (.locals f)).contains name) = some id :=
    List.find?_eq_some_iff_append.2
      ⟨h.binds, inner, outer, hchain, fun other hin => by simp [hinner other hin]⟩
  simp only [binder?, hframe, reduceCtorEq, if_false, List.find?_map]
  exact congrArg (Option.map Place.locals) hfirst

/-- The frame of the context itself comes first. -/
theorem innermost_self {own : FrameId} {name : String}
    (h : (e.tableAt (.locals own)).contains name = true) : e.Innermost own name own := by
  refine ⟨h, [], ?_⟩
  unfold chain chainFrom
  exact ⟨_, rfl, fun other hin => absurd hin List.not_mem_nil⟩

theorem contains_of_binder? {scope : Scope} {name : String}
    (h : e.binder? c scope name = some p) : (e.tableAt p).contains name = true := by
  unfold binder? at h
  cases hframe : c.frame with
  | none => simp [hframe] at h
  | some id =>
    simp only [hframe] at h
    have hfound := List.find?_some h
    exact hfound

theorem binder?_congr (hchain : ∀ id, e'.chain id = e.chain id) {name : String}
    (htables : ∀ q, (e'.tableAt q).contains name = (e.tableAt q).contains name) (scope : Scope) :
    e'.binder? c scope name = e.binder? c scope name := by
  unfold binder?
  simp only [hchain, htables]

theorem HasContext.hasPlace_of_writePlace (he : e.HasContext c) (h : e.writePlace c v = .ok p) :
    e.HasPlace p := by
  rcases writePlace_cases h with ⟨-, hbinder⟩ | ⟨-, hplace⟩
  · exact hasPlace_of_contains (contains_of_binder? hbinder)
  · exact he.hasPlace_of_place hplace

/-- A variable that was written is written there again. -/
theorem writePlace_of_insert (h : e.writePlace c v = .ok p)
    (hchain : ∀ id, e'.chain id = e.chain id) {s : Ref}
    (htable : e'.tableAt p = (e.tableAt p).insert v.name s)
    (hothers : ∀ q, q ≠ p → e'.tableAt q = e.tableAt q) : e'.writePlace c v = .ok p := by
  unfold writePlace at h ⊢
  dsimp only at h ⊢
  by_cases hlocal : c.effectiveScope v.scope = .locals
  · rw [if_pos hlocal] at h ⊢
    rw [hlocal] at h ⊢
    cases hbinder : e.binder? c .locals v.name with
    | some q =>
      rw [hbinder] at h
      obtain rfl : q = p := Except.ok.inj h
      have htables (place : Place) :
          (e'.tableAt place).contains v.name = (e.tableAt place).contains v.name := by
        by_cases hplace : place = q
        · rw [hplace, htable, Table.contains_insert, contains_of_binder? hbinder, Bool.true_or]
        · rw [hothers place hplace]
      rw [binder?_congr hchain htables, hbinder]
    | none =>
      rw [hbinder] at h
      -- nothing of the closure binds it, so it comes to the frame of the context
      obtain ⟨own, hown⟩ : ∃ own, c.frame = some own := by
        cases hframe : c.frame with
        | none => simp [Context.place, hframe] at h
        | some own => exact ⟨own, rfl⟩
      obtain rfl : Place.locals own = p := by simpa [Context.place, hown] using h
      have hcontains : (e'.tableAt (.locals own)).contains v.name = true := by
        rw [htable, Table.contains_insert]
        simp
      rw [(innermost_self hcontains).binder?_eq hown]
  · rw [if_neg hlocal] at h ⊢
    exact h

end Engine

/-! ## What is stored -/

theorem Heap.stored_of_isScalar {h : Heap} {r : Ref} (hr : (h.value r).isScalar = true) :
    h.stored r = h.new (h.value r) := by
  unfold Heap.stored
  simp only [hr, if_true]

theorem Heap.stored_of_not_isScalar {h : Heap} {r : Ref} (hr : (h.value r).isScalar = false) :
    h.stored r = (r, h) := by
  unfold Heap.stored
  simp [hr]

namespace Engine

variable {e e' : Engine} {c : Context} {v : Variable} {p : Place} {r : Ref}

/-- One entry of one table is written, which binds the variable to an object that stands for the
value: to the value itself, or to a new object if it is a scalar. A lookup of the variable finds
this object, and an enclosing frame that binds the name keeps doing so. -/
structure Stores (e : Engine) (c : Context) (v : Variable) (r : Ref) (b : Binding) (s : Ref)
    (e' : Engine) : Prop where
  name : b.name = v.name
  table : e'.tableAt b.place = (e.tableAt b.place).insert b.name s
  others : ∀ p, p ≠ b.place → e'.tableAt p = e.tableAt p
  resolves : e'.resolve c v.scope v.name = .ok (some s)
  shared : (e.heap.value r).isScalar = false → s = r ∧ e'.heap = e.heap
  copied : (e.heap.value r).isScalar = true →
    s = ⟨e.heap.size⟩ ∧ e'.heap.cell s = .fresh (e.heap.value r) ∧ e.heap.Extends e'.heap
  innermost : ∀ own id, c.effectiveScope v.scope = .locals → c.frame = some own →
    e.Innermost own v.name id →
      b.place = .locals id ∧ ∀ p, (e'.tableAt p).keys = (e.tableAt p).keys

/-- The engine that a variable is stored into. -/
def storing (e : Engine) (c : Context) (v : Variable) (r : Ref) (p : Place) : Engine :=
  ((e.withHeap (e.heap.stored r).2).changeTable (·.insert v.name (e.heap.stored r).1) p).note
    (.bound c ⟨p, v.name⟩)

theorem heap_storing (e : Engine) (c : Context) (v : Variable) (r : Ref) (p : Place) :
    (e.storing c v r p).heap = (e.heap.stored r).2 :=
  changeTable_heap _ _ _

theorem tableAt_storing_self (h : e.HasPlace p) (c : Context) (v : Variable) (r : Ref) :
    (e.storing c v r p).tableAt p = (e.tableAt p).insert v.name (e.heap.stored r).1 := by
  unfold storing
  rw [tableAt_note]
  exact tableAt_changeTable_self (h.withHeap (h := (e.heap.stored r).2)) _

theorem tableAt_storing_of_ne {q : Place} (h : q ≠ p) (c : Context) (v : Variable) (r : Ref) :
    (e.storing c v r p).tableAt q = e.tableAt q := by
  unfold storing
  rw [tableAt_note]
  exact tableAt_changeTable_of_ne (e.withHeap (e.heap.stored r).2) _ h

theorem chain_storing (e : Engine) (c : Context) (v : Variable) (r : Ref) (p : Place)
    (id : FrameId) : (e.storing c v r p).chain id = e.chain id := by
  refine chain_congr (fun own => ?_) id
  exact (e.withHeap (e.heap.stored r).2).closure_changeTable _ p own

theorem resolve_storing (hexists : e.HasPlace p) (hscope : c.effectiveScope v.scope ≠ .arguments)
    (hplace : e.writePlace c v = .ok p) (r : Ref) :
    (e.storing c v r p).resolve c v.scope v.name = .ok (some (e.heap.stored r).1) := by
  have htable := tableAt_storing_self hexists c v r
  have hbound : ((e.storing c v r p).tableAt p).find? v.name = some (e.heap.stored r).1 := by
    rw [htable, Table.find?_insert_self]
  have hagain := writePlace_of_insert hplace (e.chain_storing c v r p) htable
    fun q hq => tableAt_storing_of_ne hq c v r
  rw [resolve_of_placeOf? (placeOf?_of_writePlace hscope hagain hbound), hbound]

theorem stores_storing (hexists : e.HasPlace p) (hscope : c.effectiveScope v.scope ≠ .arguments)
    (hplace : e.writePlace c v = .ok p) (r : Ref) :
    e.Stores c v r ⟨p, v.name⟩ (e.heap.stored r).1 (e.storing c v r p) where
  name := rfl
  table := tableAt_storing_self hexists c v r
  others q hq := tableAt_storing_of_ne hq c v r
  resolves := resolve_storing hexists hscope hplace r
  shared hr := by
    rw [heap_storing, Heap.stored_of_not_isScalar hr]
    exact ⟨rfl, rfl⟩
  copied hr := by
    rw [heap_storing, Heap.stored_of_isScalar hr]
    exact ⟨rfl, e.heap.cell_new_self _, .new _ _⟩
  innermost own id hlocal hown hinnermost := by
    have hbinder := hinnermost.binder?_eq hown
    obtain rfl : Place.locals id = p := by simpa [writePlace, hlocal, hbinder] using hplace
    refine ⟨rfl, fun q => ?_⟩
    by_cases hq : q = .locals id
    · rw [hq, tableAt_storing_self hexists, Table.keys_insert_of_contains hinnermost.binds]
    · rw [tableAt_storing_of_ne hq]

end Engine

/-! ### A function in a function -/

namespace Session

/-- A local, which only the outer frame binds. -/
def sharedLocal : Variable := ⟨none, "x"⟩

/-- A function is running that was defined in another one. -/
def nested : Engine :=
  let e := (blank .standard).withHeap ⟨#[.fresh (.number 7)]⟩
  (e.invoke ⟨⟨0⟩, .empty, Table.empty.insert "x" ⟨0⟩, none⟩).invoke ⟨⟨1⟩, .empty, .empty, some ⟨0⟩⟩

def outermost : Context := ⟨none, some ⟨0⟩⟩

def inmost : Context := ⟨none, some ⟨1⟩⟩

theorem nested_hasContext : nested.HasContext inmost := by
  refine ⟨nofun, fun id hid => ?_⟩
  cases hid
  decide

theorem nested_innermost : nested.Innermost ⟨1⟩ "x" ⟨0⟩ := by
  refine ⟨by decide +kernel, [⟨1⟩], [], by decide +kernel, fun other hin => ?_⟩
  obtain rfl := List.mem_singleton.1 hin
  rfl

theorem sharedLocal_isRemovable :
    ¬(sharedLocal.scope = some .arguments ∨ sharedLocal.scope = some .vim) := by decide

end Session

namespace Run

open EStateM (Result)
open Session (sharedLocal nested inmost nested_hasContext nested_innermost)

variable {e e' : Engine} {c : Context} {v : Variable} {r : Ref}

theorem of_store_ok (h : store c v r e = .ok () e') :
    e.checkWritable c v = .ok () ∧ ∃ p, e.writePlace c v = .ok p ∧ e' = e.storing c v r p := by
  unfold store at h
  rw [bind_of_ok (get_eq e)] at h
  obtain ⟨⟨⟩, e₁, hwritable, h⟩ := of_bind_ok h
  obtain ⟨hwritable, rfl⟩ := of_settle_ok hwritable
  refine ⟨hwritable, ?_⟩
  split at h
  · cases h
  dsimp only at h
  obtain ⟨p, e₂, hplace, hstored⟩ := of_bind_ok h
  obtain ⟨hplace, rfl⟩ := of_settle_ok hplace
  exact ⟨p, hplace, (Result.ok.inj hstored).2.symm⟩

/-- A variable that is not stored changes nothing. It is not writable, it has no name for a Funcref,
or there is no table for it. -/
theorem of_store_error {stop : Stop} (h : store c v r e = .error stop e') :
    e' = e ∧ (e.checkWritable c v = .error stop ∨ stop = .ofCause (.smallFuncrefName v.text) ∨
      e.writePlace c v = .error stop) := by
  unfold store at h
  rw [bind_of_ok (get_eq e)] at h
  rcases of_bind_error h with h | ⟨⟨⟩, e₁, hwritable, h⟩
  · obtain ⟨hwritable, rfl⟩ := of_settle_error h
    exact ⟨rfl, .inl hwritable⟩
  obtain ⟨-, rfl⟩ := of_settle_ok hwritable
  split at h
  · cases h
    exact ⟨rfl, .inr (.inl rfl)⟩
  dsimp only at h
  rcases of_bind_error h with h | ⟨p, e₂, hplace, h⟩
  · obtain ⟨hplace, rfl⟩ := of_settle_error h
    exact ⟨rfl, .inr (.inr hplace)⟩
  · cases h

/-- A variable that can be stored is bound in one table, where a lookup finds it. If it cannot be
stored, nothing changes. -/
theorem store_stores (he : e.HasContext c) (v : Variable) (r : Ref) :
    match store c v r e with
    | .ok () e' => ∃ b s, e.Stores c v r b s e'
    | .error _ e' => e' = e := by
  cases hrun : store c v r e with
  | error stop e' => exact (of_store_error hrun).1
  | ok _ e' =>
    obtain ⟨hwritable, p, hplace, rfl⟩ := of_store_ok hrun
    refine ⟨_, _, Engine.stores_storing (he.hasPlace_of_writePlace hplace) (fun heq => ?_) hplace r⟩
    -- arguments are not writable
    have hwritable := Engine.isWritable_of_checkWritable hwritable hplace
    cases p with
    | arguments => cases hwritable
    | _ => exact nomatch (Engine.scope_of_writePlace hplace).trans heq

/-- The inner function writes to the frame of the outer one. -/
theorem store_stores_enclosing :
    nested.HasContext inmost ∧ ∃ b s e', store inmost sharedLocal ⟨0⟩ nested = .ok () e' ∧
      nested.Stores inmost sharedLocal ⟨0⟩ b s e' ∧ b.place = .locals ⟨0⟩ := by
  have hstores := store_stores nested_hasContext sharedLocal ⟨0⟩
  obtain ⟨e', hrun⟩ : ∃ e', store inmost sharedLocal ⟨0⟩ nested = .ok () e' := ⟨_, rfl⟩
  rw [hrun] at hstores
  obtain ⟨b, s, hstores⟩ := hstores
  exact ⟨nested_hasContext, b, s, e', hrun, hstores,
    (hstores.innermost ⟨1⟩ ⟨0⟩ rfl rfl nested_innermost).1⟩

end Run

/-! ## What is removed -/

namespace Engine

variable {e e' : Engine} {c : Context} {v : Variable} {p : Place} {b : Binding}

/-- A name that its own table binds is looked up there. -/
theorem placeOf?_of_own (hplace : c.place (c.effectiveScope v.scope) v.name true = .ok p)
    (hscope : c.effectiveScope v.scope ≠ .arguments)
    (hbound : (e.tableAt p).contains v.name = true) :
    e.placeOf? c v.scope v.name = .ok (some p) := by
  obtain ⟨r, hr⟩ := Option.isSome_iff_exists.1 hbound
  refine placeOf?_of_writePlace (r := r) hscope ?_ hr
  unfold writePlace
  dsimp only
  by_cases hlocal : c.effectiveScope v.scope = .locals
  · rw [hlocal] at hplace ⊢
    obtain ⟨own, hown⟩ : ∃ own, c.frame = some own := by
      cases hframe : c.frame with
      | none => simp [Context.place, hframe] at hplace
      | some own => exact ⟨own, rfl⟩
    obtain rfl : Place.locals own = p := by simpa [Context.place, hown] using hplace
    simp [(innermost_self hbound).binder?_eq hown]
  · rw [if_neg hlocal]
    exact hplace

/-- Where there is a table for the scope, a lookup fails for no other reason. -/
theorem resolve_isOk (hplace : c.place (c.effectiveScope v.scope) v.name true = .ok p) :
    ∃ found, e.resolve c v.scope v.name = .ok found := by
  unfold resolve placeOf?
  dsimp only
  split
  · exact ⟨_, rfl⟩
  · rw [Context.place_of_writing hplace]
    exact ⟨_, rfl⟩

/-- A lookup comes to the table of the scope, or to a frame that encloses it. -/
theorem Refers.own_or_enclosing (href : e.Refers c v b)
    (hplace : c.place (c.effectiveScope v.scope) v.name true = .ok p)
    (hscope : c.effectiveScope v.scope ≠ .arguments) :
    b.place = p ∨ ∃ own outer, c.frame = some own ∧ outer ≠ own ∧ b.place = .locals outer := by
  rcases placeOf?_cases href.place with ⟨hlocal, hbinder⟩ | hfound
  · obtain ⟨own, hown⟩ := Option.isSome_iff_exists.1 (frame_isSome_of_binder? hbinder)
    have hlocal := hlocal.resolve_right hscope
    rw [hlocal] at hplace hbinder
    obtain rfl : Place.locals own = p := by simpa [Context.place, hown] using hplace
    have hscope := scope_of_binder? (.inl rfl) hbinder
    cases hb : b.place with
    | locals outer =>
      by_cases heq : outer = own
      · exact .inl (congrArg Place.locals heq)
      · exact .inr ⟨own, outer, hown, heq, rfl⟩
    | _ =>
      rw [hb] at hscope
      cases hscope
  · rw [Context.place_of_writing hplace] at hfound
    exact .inl (Except.ok.inj hfound).symm

/-- What the table of the scope does not bind is not bound at all, or only by an enclosing frame. -/
theorem find?_eq_none_iff (hplace : c.place (c.effectiveScope v.scope) v.name true = .ok p)
    (hscope : c.effectiveScope v.scope ≠ .arguments) :
    (e.tableAt p).find? v.name = none ↔
      e.resolve c v.scope v.name = .ok none ∨
        ∃ own outer r, c.frame = some own ∧ outer ≠ own ∧
          e.Refers c v ⟨.locals outer, v.name⟩ ∧ e.Binds ⟨.locals outer, v.name⟩ r := by
  cases hbound : (e.tableAt p).find? v.name with
  | none =>
    refine iff_of_true rfl ?_
    obtain ⟨found, hresolve⟩ := resolve_isOk (e := e) hplace
    cases found with
    | none => exact .inl hresolve
    | some r =>
      obtain ⟨b, href, hbinds, -⟩ := exists_refers_of_resolve hresolve
      obtain ⟨place, name⟩ := b
      obtain rfl : v.name = name := href.name
      rcases href.own_or_enclosing hplace hscope with heq | ⟨own, outer, hown, hne, heq⟩
      · obtain rfl : place = p := heq
        exact absurd (hbinds.symm.trans hbound) (by simp)
      · obtain rfl : place = .locals outer := heq
        exact .inr ⟨own, outer, r, hown, hne, href, hbinds⟩
  | some r =>
    refine iff_of_false (by simp) ?_
    have hfound := placeOf?_of_own hplace hscope (Option.isSome_iff_exists.2 ⟨r, hbound⟩)
    -- the frame of the context is the first that a lookup comes to
    rintro (hnone | ⟨own, outer, -, hown, hne, href, -⟩)
    · rw [resolve_of_placeOf? hfound, hbound] at hnone
      cases hnone
    · have heq : p = .locals outer := by simpa using hfound.symm.trans href.place
      rw [heq] at hplace
      exact hne (Option.some.inj ((Context.frame_of_place hplace).symm.trans hown))

/-- The engine that a variable is removed from. -/
def removing (e : Engine) (c : Context) (v : Variable) (p : Place) : Engine :=
  (e.changeTable (·.erase v.name) p).note (.unbound c ⟨p, v.name⟩)

theorem binds_removing_iff (h : e.HasPlace p) (c : Context) (v : Variable) (other : Binding)
    (s : Ref) : (e.removing c v p).Binds other s ↔ other ≠ ⟨p, v.name⟩ ∧ e.Binds other s := by
  unfold Binds removing
  rw [tableAt_note]
  by_cases hplace : other.place = p
  · rw [hplace, tableAt_changeTable_self h]
    by_cases hname : other.name = v.name
    · have heq : other = ⟨p, v.name⟩ := by rw [← hplace, ← hname]
      simp [heq, Table.find?_erase_self]
    · have hne : other ≠ ⟨p, v.name⟩ := fun heq => hname (congrArg Binding.name heq)
      rw [Table.find?_erase_of_ne hname, and_iff_right hne]
  · have hne : other ≠ ⟨p, v.name⟩ := fun heq => hplace (congrArg Binding.place heq)
    rw [tableAt_changeTable_of_ne _ _ hplace, and_iff_right hne]

/-- How a variable is removed. The name is said to be unknown if it is, and also if only a frame
that encloses the context binds it. A variable of the table of the scope is taken away if it is not
locked in its own name. -/
structure Unlets (e : Engine) (c : Context) (v : Variable) (eval : Expr → Run Ref) : Prop where
  unknown : (∃ e', Run.unlet eval c false (.var v) e =
      .error (.ofCause (.noSuchVariable v.text)) e') ↔
    e.resolve c v.scope v.name = .ok none ∨
      ∃ own outer r, c.frame = some own ∧ outer ≠ own ∧
        e.Refers c v ⟨.locals outer, v.name⟩ ∧ e.Binds ⟨.locals outer, v.name⟩ r
  removed : ∀ b r, e.Refers c v b → e.Binds b r →
    (∀ outer, b.place = .locals outer → c.frame = some outer) → e.isLockedAs c v r = false →
    ∀ force, ∃ e', Run.unlet eval c force (.var v) e = .ok () e' ∧
      ∀ other s, e'.Binds other s ↔ other ≠ b ∧ e.Binds other s
  refused : ∀ force stop e', Run.unlet eval c force (.var v) e = .error stop e' → e' = e

end Engine

namespace Run

open Session (sharedLocal nested inmost outermost sharedLocal_isRemovable)

variable {e e' : Engine} {c : Context} {v : Variable} {p : Place} {r : Ref}

theorem unbind_of_place (hscope : ¬(v.scope = some .arguments ∨ v.scope = some .vim))
    (hplace : c.place (c.effectiveScope v.scope) v.name true = .ok p) :
    unbind c v e =
      match (e.tableAt p).find? v.name with
      | none => .error (.ofCause (.noSuchVariable v.text)) e
      | some r =>
        if e.isLockedAs c v r then .error (.ofCause (.locked v.text)) e
        else .ok () (e.removing c v p) := by
  unfold unbind
  rw [if_neg hscope, hplace]
  simp only [settle, pure_bind]
  rw [bind_of_ok (get_eq e)]
  cases (e.tableAt p).find? v.name with
  | none => rfl
  | some r =>
    dsimp only
    split <;> rfl

theorem unlet_of_ok (h : unbind c v e = .ok () e') (eval : Expr → Run Ref) (force : Bool) :
    unlet eval c force (.var v) e = .ok () e' := by
  have hended : outcome (unbind c v) e = .ok (.ok ()) e' := by
    unfold outcome
    rw [h]
  change unletVariable c v force e = .ok () e'
  unfold unletVariable
  rw [bind_of_ok hended]
  rfl

theorem unlet_of_unknown
    (h : unbind c v e = .error (.ofCause (.noSuchVariable v.text)) e') (eval : Expr → Run Ref)
    (force : Bool) :
    unlet eval c force (.var v) e =
      if force then .ok () e' else .error (.ofCause (.noSuchVariable v.text)) e' := by
  have hended : outcome (unbind c v) e =
      .ok (.error (.ofCause (.noSuchVariable v.text))) e' := by
    unfold outcome
    rw [h]
  change unletVariable c v force e = _
  unfold unletVariable
  rw [bind_of_ok hended]
  cases force <;> rfl

theorem unlet_unknown_iff (hscope : ¬(v.scope = some .arguments ∨ v.scope = some .vim))
    (hplace : c.place (c.effectiveScope v.scope) v.name true = .ok p) (eval : Expr → Run Ref) :
    (∃ e', unlet eval c false (.var v) e = .error (.ofCause (.noSuchVariable v.text)) e') ↔
      (e.tableAt p).find? v.name = none := by
  have hunbind := unbind_of_place (e := e) hscope hplace
  cases hbound : (e.tableAt p).find? v.name with
  | none =>
    simp only [hbound] at hunbind
    exact iff_of_true ⟨e, unlet_of_unknown hunbind eval false⟩ rfl
  | some r =>
    refine iff_of_false ?_ nofun
    rintro ⟨e', hunlet⟩
    simp only [hbound] at hunbind
    split at hunbind
    · rw [unlet_of_error hunbind nofun] at hunlet
      cases hunlet
    · rw [unlet_of_ok hunbind] at hunlet
      cases hunlet

/-- In a context where its scope exists, a variable is removed from the table of the scope. -/
theorem unlet_unlets (e : Engine) (hscope : ¬(v.scope = some .arguments ∨ v.scope = some .vim))
    (hoffers : c.Offers (c.effectiveScope v.scope)) (eval : Expr → Run Ref) :
    e.Unlets c v eval := by
  obtain ⟨p, hplace⟩ := Context.exists_place hoffers v.name true
  have harguments : c.effectiveScope v.scope ≠ .arguments := fun heq =>
    hscope (Context.scope_of_effectiveScope (.inl heq))
  have hunbind := unbind_of_place (e := e) hscope hplace
  refine ⟨(unlet_unknown_iff hscope hplace eval).trans (Engine.find?_eq_none_iff hplace harguments),
    ?_, ?_⟩
  · intro b r href hbinds hown hfree force
    obtain ⟨place, name⟩ := b
    obtain rfl : v.name = name := href.name
    obtain rfl : place = p := by
      rcases href.own_or_enclosing hplace harguments with heq | ⟨own, outer, hframe, hne, heq⟩
      · exact heq
      · exact absurd (Option.some.inj ((hown outer heq).symm.trans hframe)) hne
    have hbound : (e.tableAt place).find? v.name = some r := hbinds
    simp only [hbound, hfree] at hunbind
    have hexists := Engine.hasPlace_of_contains (Option.isSome_iff_exists.2 ⟨r, hbound⟩)
    exact ⟨_, unlet_of_ok hunbind eval force, Engine.binds_removing_iff hexists c v⟩
  · intro force stop e' hunlet
    cases hbound : (e.tableAt p).find? v.name with
    | none =>
      simp only [hbound] at hunbind
      rw [unlet_of_unknown hunbind] at hunlet
      split at hunlet <;> cases hunlet
      rfl
    | some r =>
      simp only [hbound] at hunbind
      split at hunbind
      · rw [unlet_of_error hunbind nofun] at hunlet
        cases hunlet
        rfl
      · rw [unlet_of_ok hunbind] at hunlet
        cases hunlet

/-- The outer function removes its local. -/
theorem unlet_unlets_own :
    ¬(sharedLocal.scope = some .arguments ∨ sharedLocal.scope = some .vim) ∧
      outermost.Offers (outermost.effectiveScope sharedLocal.scope) ∧
      ∃ e', unlet (fun _ => pure ⟨0⟩) outermost false (.var sharedLocal) nested = .ok () e' ∧
        ∀ other s, e'.Binds other s ↔ other ≠ ⟨.locals ⟨0⟩, "x"⟩ ∧ nested.Binds other s := by
  have hunlets := unlet_unlets nested sharedLocal_isRemovable (c := outermost) rfl
    fun _ => pure ⟨0⟩
  refine ⟨sharedLocal_isRemovable, rfl, hunlets.removed ⟨.locals ⟨0⟩, "x"⟩ ⟨0⟩ ⟨rfl, rfl⟩ rfl ?_ rfl
    false⟩
  rintro outer ⟨⟩
  rfl

/-- The inner function sees the local, but it cannot remove it. -/
theorem not_forall_unlet_resolved :
    ¬∀ (e : Engine) (c : Context) (v : Variable) (eval : Expr → Run Ref),
      ¬(v.scope = some .arguments ∨ v.scope = some .vim) →
        c.Offers (c.effectiveScope v.scope) →
          ((∃ e', unlet eval c false (.var v) e =
            .error (.ofCause (.noSuchVariable v.text)) e') ↔
              e.resolve c v.scope v.name = .ok none) := by
  intro hclaim
  have hunknown := (unlet_unknown_iff (e := nested) (c := inmost) (p := .locals ⟨1⟩)
    sharedLocal_isRemovable rfl fun _ => pure ⟨0⟩).2 rfl
  have hunresolved := (hclaim nested inmost sharedLocal _ sharedLocal_isRemovable rfl).1 hunknown
  cases hunresolved

end Run

end VimL
