import VimL.Proofs.Runs.Sessions

/-!
# Locked containers

As long as no unlock starts, a container that is locked keeps its size, and its items and entries
that are locked as well stay where they are. Other items may be replaced. A check and the write
that it allows may be far apart, with a script running between them; what the check has seen holds
until then, since nothing unlocks.
-/

namespace VimL

/-- An unlock starts, be it in a final block. -/
inductive Event.Unlocks : Event → Prop where
  | began {c : Context} {s : Stmt} (hs : s.unlocks = true) : Unlocks (.began c s)
  | final {c : Context} {body : List Stmt} {own : List Event} {event : Event} (hin : event ∈ own)
      (h : Unlocks event) : Unlocks (.final c body own)

/-- A statement starts that is not an unlock. -/
def Event.startsOther : Event → Bool
  | .began _ s => !s.unlocks
  | .cancelled _ | .final .. => false

def Engine.Unlocks (e : Engine) : Prop := ∃ event ∈ e.history, event.Unlocks

/-- A container has the size that it had, and what was locked in it is where it was. -/
inductive Value.Held (locked : Ref → Bool) : Value → Value → Prop where
  | list {items items' : List Ref} (hlength : items'.length = items.length)
      (hitems : ∀ (i : Nat) r, items[i]? = some r → locked r = true → items'[i]? = some r) :
      Held locked (.list items) (.list items')
  | dictionary {entries entries' : Table Ref}
      (hkeys : ∀ key, entries'.contains key = entries.contains key)
      (hentries : ∀ key r, entries.find? key = some r → locked r = true →
        entries'.find? key = some r) : Held locked (.dictionary entries) (.dictionary entries')
  | blob (bytes : List UInt8) : Held locked (.blob bytes) (.blob bytes)
  | other {v v' : Value} (hlist : ∀ items, v ≠ .list items)
      (hdictionary : ∀ entries, v ≠ .dictionary entries) (hblob : ∀ bytes, v ≠ .blob bytes) :
      Held locked v v'

namespace Value.Held

variable {locked locked' : Ref → Bool} {v v' v'' : Value}

theorem refl (locked : Ref → Bool) (v : Value) : v.Held locked v := by
  cases v with
  | list => exact .list rfl fun _ _ h _ => h
  | dictionary => exact .dictionary (fun _ => rfl) fun _ _ h _ => h
  | blob bytes => exact .blob bytes
  | _ => exact .other nofun nofun nofun

theorem trans (h : v.Held locked v') (h' : v'.Held locked' v'')
    (hle : ∀ r, locked r = true → locked' r = true) : v.Held locked v'' := by
  cases h with
  | list hlength hitems =>
    cases h' with
    | list hlength' hitems' =>
      exact .list (hlength'.trans hlength) fun i r hr hlocked =>
        hitems' i r (hitems i r hr hlocked) (hle r hlocked)
    | other hlist => exact absurd rfl (hlist _)
  | dictionary hkeys hentries =>
    cases h' with
    | dictionary hkeys' hentries' =>
      exact .dictionary (fun key => (hkeys' key).trans (hkeys key)) fun key r hr hlocked =>
        hentries' key r (hentries key r hr hlocked) (hle r hlocked)
    | other _ hdictionary => exact absurd rfl (hdictionary _)
  | blob bytes =>
    cases h' with
    | blob => exact .blob bytes
    | other _ _ hblob => exact absurd rfl (hblob _)
  | other hlist hdictionary hblob => exact .other hlist hdictionary hblob

theorem set {items items' : List Ref} (h : (Value.list items).Held locked (.list items')) {i : Nat}
    {current : Ref} (hi : items[i]? = some current) (hcurrent : locked current = false)
    (r : Ref) : (Value.list items).Held locked (.list (items'.set i r)) := by
  cases h with
  | list hlength hitems =>
    refine .list (by rw [List.length_set, hlength]) fun j other hother hlocked => ?_
    have hne : i ≠ j := by
      rintro rfl
      obtain rfl := Option.some.inj (hi.symm.trans hother)
      rw [hcurrent] at hlocked
      cases hlocked
    rw [List.getElem?_set_ne hne]
    exact hitems j other hother hlocked
  | other hlist => exact absurd rfl (hlist _)

theorem insert {entries entries' : Table Ref}
    (h : (Value.dictionary entries).Held locked (.dictionary entries')) {key : String}
    {current : Ref} (hkey : entries.find? key = some current) (hcurrent : locked current = false)
    (r : Ref) : (Value.dictionary entries).Held locked (.dictionary (entries'.insert key r)) := by
  cases h with
  | dictionary hkeys hentries =>
    refine .dictionary (fun other => ?_) fun other found hfound hlocked => ?_
    · by_cases heq : other = key
      · subst heq
        simp only [Table.contains, Table.find?_insert_self, hkey, Option.isSome_some]
      · rw [← hkeys other]
        simp only [Table.contains, Table.find?_insert_of_ne heq]
    · have hne : other ≠ key := by
        rintro rfl
        obtain rfl := Option.some.inj (hkey.symm.trans hfound)
        rw [hcurrent] at hlocked
        cases hlocked
      rw [Table.find?_insert_of_ne hne]
      exact hentries other found hfound hlocked
  | other _ hdictionary => exact absurd rfl (hdictionary _)

end Value.Held

/-! ## Heaps -/

namespace Heap

/-- Every container that was locked still is, and it is held. -/
def HoldsLocked (h h' : Heap) : Prop :=
  ∀ r, h.isLocked r = true → h'.isLocked r = true ∧ (h.value r).Held h.isLocked (h'.value r)

variable {h h' h'' : Heap}

theorem lt_size_of_isLocked {r : Ref} (hlocked : h.isLocked r = true) :
    r.index < h.cells.size := by
  by_contra hout
  simp [isLocked, cell, Array.getD, hout, default, Cell.fresh] at hlocked

namespace HoldsLocked

theorem refl (h : Heap) : h.HoldsLocked h := fun _ hlocked => ⟨hlocked, .refl _ _⟩

theorem trans (hh : h.HoldsLocked h') (hh' : h'.HoldsLocked h'') : h.HoldsLocked h'' := by
  intro r hlocked
  obtain ⟨hlocked', hheld⟩ := hh r hlocked
  obtain ⟨hlocked'', hheld'⟩ := hh' r hlocked'
  exact ⟨hlocked'', hheld.trans hheld' fun other hother => (hh other hother).1⟩

theorem of_value_eq (hvalue : ∀ r, h'.value r = h.value r)
    (hlocked : ∀ r, h.isLocked r = true → h'.isLocked r = true) : h.HoldsLocked h' := by
  intro r hr
  refine ⟨hlocked r hr, ?_⟩
  rw [hvalue]
  exact .refl _ _

theorem new (h : Heap) (v : Value) : h.HoldsLocked (h.new v).2 := by
  intro r hlocked
  have hlt := lt_size_of_isLocked hlocked
  have hcell : (h.new v).2.cell r = h.cell r := by
    simp [cell, Heap.new, Array.getD_eq_getD_getElem?, Array.getElem?_push, Nat.ne_of_lt hlt]
  simp only [isLocked, Heap.value, hcell] at hlocked ⊢
  exact ⟨hlocked, .refl _ _⟩

/-- A write leaves all other objects and all locks alone. -/
theorem setValue (hh : h.HoldsLocked h') {r : Ref} {v : Value}
    (hv : h.isLocked r = true → (h.value r).Held h.isLocked v) :
    h.HoldsLocked (h'.setValue r v) := by
  intro other hlocked
  obtain ⟨hlocked', hheld⟩ := hh other hlocked
  have hlt := lt_size_of_isLocked hlocked'
  have hcell : (h'.setValue r v).cell other =
      if r.index = other.index then { h'.cell other with value := v } else h'.cell other := by
    simp only [cell, Heap.setValue, modifyCell, Array.getD_eq_getD_getElem?, Array.getElem?_modify,
      Array.getElem?_eq_getElem hlt]
    split <;> rfl
  by_cases hr : r.index = other.index
  · obtain rfl : r = other := by cases r; cases other; exact congrArg _ hr
    simp only [isLocked, Heap.value, hcell, if_pos] at hlocked' ⊢
    exact ⟨hlocked', hv hlocked⟩
  · simp only [isLocked, Heap.value, hcell, if_neg hr] at hlocked' ⊢
    exact ⟨hlocked', hheld⟩

end HoldsLocked

end Heap

/-! ## Runs -/

/-- Nothing is asked but that entries are spared. -/
@[reducible] def Demands.ofSparing (sparing : Prop) : Demands where
  strict := False
  named := False
  listed := False
  minded := False
  lettered := False
  sparing := sparing
  fits _ := True
  runs _ := True
  fresh _ := True

/-- What locks keep as it was: it does not depend on new objects or new locks, and a write that a
check has allowed does not change it. -/
structure Heap.LockRule (sparing : Prop) (R : Heap → Heap → Prop) : Prop where
  refl : ∀ h, R h h
  trans : ∀ {h h' h''}, R h h' → R h' h'' → R h h''
  relock : ∀ {h h' : Heap}, (∀ r, h'.value r = h.value r) →
    (∀ r, h.isLocked r = true → h'.isLocked r = true) → R h h'
  new : ∀ h v, R h (h.new v).2
  write : ∀ {e e' : Engine} {r v}, R e.heap e'.heap → e.Permits (.ofSparing sparing) e' r v →
    R e.heap (e'.heap.setValue r v)

/-- What a check has seen holds until the write that it allows. -/
theorem Heap.lockRule_holdsLocked : Heap.LockRule False Heap.HoldsLocked where
  refl := .refl
  trans hh hh' := hh.trans hh'
  relock := .of_value_eq
  new := .new
  write {e e' r v} hholds hpermits := by
    refine hholds.setValue fun hlocked => ?_
    obtain ⟨-, hheld⟩ := hholds r hlocked
    cases hpermits with
    | unlocked hfree => simp [hlocked] at hfree
    | item hitems hi hcurrent hitems' hv =>
      rw [hitems, hitems'] at hheld
      rw [hitems, hv]
      exact hheld.set hi hcurrent _
    | entry hentries hkey hcurrent hentries' hv =>
      rw [hentries, hentries'] at hheld
      rw [hentries, hv]
      exact hheld.insert hkey hcurrent _

namespace Engine

variable {host : Host} {d : Demands} {sparing : Prop} {R : Heap → Heap → Prop}
  {e e' e'' : Engine}

theorem Unlocks.mono (h : e.Unlocks) (hgrows : e.Grows e') : e'.Unlocks := by
  obtain ⟨event, hin, hunlocks⟩ := h
  exact ⟨event, hgrows.history.subset hin, hunlocks⟩

theorem not_unlocks_of_all (h : e.history.all Event.startsOther = true) : ¬e.Unlocks := by
  rintro ⟨event, hin, hunlocks⟩
  have hother : event.startsOther = true := List.all_eq_true.1 h event hin
  cases hunlocks with
  | began hs => exact absurd hother (by rw [Event.startsOther, hs]; decide)
  | final => cases hother

/-- Unless an unlock has started, locks keep what they keep. -/
structure RespectsLocks (R : Heap → Heap → Prop) (e e' : Engine) : Prop where
  grows : e.Grows e'
  holds : ¬e'.Unlocks → R e.heap e'.heap

namespace RespectsLocks

variable (hR : Heap.LockRule sparing R)

include hR

theorem of_heap_eq (hgrows : e.Grows e') (hheap : e'.heap = e.heap) : e.RespectsLocks R e' :=
  ⟨hgrows, fun _ => hheap ▸ hR.refl _⟩

theorem trans (h : e.RespectsLocks R e') (h' : e'.RespectsLocks R e'') :
    e.RespectsLocks R e'' := by
  refine ⟨h.grows.trans h'.grows, fun hnone => ?_⟩
  have hbefore : ¬e'.Unlocks := fun hunlocks => hnone (hunlocks.mono h'.grows)
  exact hR.trans (h.holds hbefore) (h'.holds hnone)

theorem of_edit (h : e.Edit d e') : e.RespectsLocks R e' := by
  have hgrows : e.Grows e' := h.grows
  cases h with
  | lock depth owner r =>
    exact ⟨hgrows, fun _ => hR.relock (fun other => e.heap.value_lock r other depth owner)
      fun _ hlocked => e.heap.isLocked_lock r depth owner hlocked⟩
  | unlock depth r hs hbegan =>
    exact ⟨hgrows, fun hnone => absurd ⟨_, hbegan, .began hs⟩ hnone⟩
  | bind p | unbind p => exact of_heap_eq hR hgrows (changeTable_heap e _ p)
  | declare table | withdraw table => cases table <;> exact of_heap_eq hR hgrows rfl
  | _ => exact of_heap_eq hR hgrows rfl

theorem new (e : Engine) (v : Value) : e.RespectsLocks R (e.withHeap (e.heap.new v).2) :=
  ⟨.of_eq rfl rfl rfl, fun _ => hR.new e.heap v⟩

theorem write (h : e.RespectsLocks R e') {r : Ref} {v : Value}
    (hpermits : e.Permits (.ofSparing sparing) e' r v) :
    e.RespectsLocks R (e'.withHeap (e'.heap.setValue r v)) :=
  ⟨h.grows.trans (.of_eq rfl rfl rfl), fun hnone => hR.write (h.holds hnone) hpermits⟩

theorem leave {entry : CallEntry} (h : (e.enter entry).RespectsLocks R e') :
    e.RespectsLocks R (e.leave e') := by
  have henter : (e.enter entry).heap = e.heap := by cases entry <;> rfl
  have hentered : e.RespectsLocks R (e.enter entry) := of_heap_eq hR (grows_enter e entry) henter
  have hleft : e'.RespectsLocks R (e.leave e') := of_heap_eq hR (.of_eq rfl rfl rfl) rfl
  exact trans hR hentered (trans hR h hleft)

theorem restoreVim {err : ScriptError} {exception throwpoint : Ref}
    (h : (e.catching err exception throwpoint).RespectsLocks R e') :
    e.RespectsLocks R (e.restoreVim e') := by
  have hshow : e.RespectsLocks R (e.catching err exception throwpoint) :=
    of_heap_eq hR (.of_eq rfl rfl rfl) rfl
  have hrestore : e'.RespectsLocks R (e.restoreVim e') := of_heap_eq hR (.of_eq rfl rfl rfl) rfl
  exact trans hR hshow (trans hR h hrestore)

/-- An unlock in a final block is one in the history of the statement. -/
theorem leaveFinal {event : Event} (htry : (e.record event).RespectsLocks R e')
    (hfinal : e'.enterFinal.RespectsLocks R e'') (c : Context) (body : List Stmt) :
    e.RespectsLocks R (e'.leaveFinal c body e'') := by
  have hended : e'.Grows (e'.leaveFinal c body e'') := hfinal.grows.leaveFinal c body
  have hbegan : e.RespectsLocks R (e.record event) := of_heap_eq hR (grows_record e event) rfl
  refine ⟨hbegan.grows.trans (htry.grows.trans hended), fun hnone => ?_⟩
  have hbefore : ¬e'.Unlocks := fun hunlocks => hnone (hunlocks.mono hended)
  have hown : ¬e''.Unlocks := by
    rintro ⟨inner, hin, hunlocks⟩
    exact hnone ⟨_, List.mem_cons_self, .final hin hunlocks⟩
  have hparts : R e.heap e'.heap := htry.holds hbefore
  exact hR.trans hparts (hfinal.holds hown)

end RespectsLocks

end Engine

namespace Discipline

variable {sparing : Prop} {R : Heap → Heap → Prop}

def locking (host : Host) (hR : Heap.LockRule sparing R) : Discipline host where
  toDemands := .ofSparing sparing
  placed := False
  linear := False
  holds _ := True
  leads := Engine.RespectsLocks R
  admits _ := True
  sound _ := False.elim
  wellFormed _ h := Function.wellFormed_of_false h
  function _ _ := trivial
  unnamed _ := False.elim
  unentered _ := False.elim
  newFrame _ := trivial
  registry _ := False.elim
  refl e := .of_heap_eq hR (.refl e) rfl
  trans h h' := .trans hR h h'
  holds_of_leads _ _ := trivial
  grows h := h.grows
  affords _ := False.elim
  edit _ h := .of_edit hR h
  create _ h _ _ := .trans hR h (.new hR _ _)
  write _ h _ hpermits _ := .write hR h hpermits
  began _ _ _ _ := .of_heap_eq hR (Engine.grows_record _ _) rfl
  cancelled _ := .of_heap_eq hR (Engine.grows_requestCancel _) rfl
  holds_catching _ _ := trivial
  caught _ h := .restoreVim hR h
  holds_enterFinal _ := trivial
  final _ _ htry hfinal := .leaveFinal hR htry hfinal _ _
  admits_error _ _ := trivial
  admits_mark _ _ _ := trivial
  admits_finished := trivial
  admits_internal _ _ := trivial

variable {host : Host}

theorem opens_locking (hR : Heap.LockRule sparing R) (entry : CallEntry) :
    (locking host hR).Opens (locking host hR) entry :=
  .same (fun _ => trivial) fun h => .leave hR h

theorem uniform_locking (hR : Heap.LockRule False R) : (locking host hR).Uniform .any :=
  uniform_any id id (fun _ => trivial) (fun _ => trivial) (opens_locking hR) trivial
    (fun _ => trivial) id id False.elim

end Discipline

namespace Session

/-- Locks keep out every run that starts no unlock, whatever it does otherwise and however it ends:
containers that were locked before the run have the same size or bytes after it, and those of their
items and entries that were locked are where they were. -/
theorem heap_holdsLocked (host : Host) (fuel : Nat) (e : Engine) (r : Request)
    (h : ¬(r.perform (.ofFuel host fuel) e).2.Unlocks) :
    e.heap.HoldsLocked (r.perform (.ofFuel host fuel) e).2.heap := by
  have hobeys : (Interp.ofFuel host fuel).Obeys (.locking host Heap.lockRule_holdsLocked) .any :=
    Interp.obeys_ofFuel (Discipline.uniform_locking Heap.lockRule_holdsLocked) False.elim fuel
  have hstart : (r.start e).heap = e.heap := by cases r <;> rfl
  obtain ⟨e₁, _, _, hleads, hended, -⟩ :=
    Request.leads_perform (e := e) hobeys r.judged_any trivial
  rw [hended] at h ⊢
  exact hstart ▸ hleads.holds h

/-- An engine with a locked List in itself. -/
def sealed : Engine := (blank .standard).withHeap ⟨#[⟨.list [⟨0⟩], true, none, []⟩]⟩

def adding : Request :=
  .run .commandLine [.evaluate (.call none "add" [.const ⟨0⟩, .const ⟨0⟩])]

theorem heap_holdsLocked_adding :
    ¬(adding.perform (.ofFuel ⟨[]⟩ 4) sealed).2.Unlocks ∧
      sealed.heap.HoldsLocked (adding.perform (.ofFuel ⟨[]⟩ 4) sealed).2.heap := by
  have hnone : ¬(adding.perform (.ofFuel ⟨[]⟩ 4) sealed).2.Unlocks :=
    Engine.not_unlocks_of_all rfl
  exact ⟨hnone, heap_holdsLocked ⟨[]⟩ 4 sealed adding hnone⟩

end Session

end VimL
