import VimL.Proofs.Approximation
import VimL.Proofs.Invariants
import VimL.Proofs.Locks

/-!
# Locked entries

An entry of a Dictionary may be locked although the Dictionary is not. Every assignment and every
removal looks at the lock of the entry before it replaces it or takes it away. Only extend(), when
it is to replace entries, looks at the lock of the Dictionary alone. So in a run that unlocks
nothing, and in which no call of extend() puts another object in the place of a locked one, a
Dictionary keeps all of its entries that are locked, whatever else becomes of it.
-/

namespace VimL

namespace Heap

/-- What a Dictionary has under this key. -/
def entryAt? (h : Heap) (r : Ref) (key : String) : Option Ref :=
  match h.value r with
  | .dictionary entries => entries.find? key
  | _ => none

/-- Locks stay, and so do the entries that are locked: the same objects under the same keys. -/
structure KeepsLockedEntries (h h' : Heap) : Prop where
  locked : ∀ r, h.isLocked r = true → h'.isLocked r = true
  entries : ∀ r key item, h.entryAt? r key = some item → h.isLocked item = true →
    h'.entryAt? r key = some item

variable {h h' h'' : Heap} {r : Ref} {key : String}

theorem entryAt?_of_value {entries : Table Ref} (hv : h.value r = .dictionary entries) :
    h.entryAt? r key = entries.find? key := by
  rw [entryAt?, hv]

theorem entryAt?_congr (hvalue : h'.value r = h.value r) : h'.entryAt? r key = h.entryAt? r key := by
  rw [entryAt?, hvalue, entryAt?]

theorem exists_of_entryAt? {item : Ref} (hkey : h.entryAt? r key = some item) :
    ∃ entries, h.value r = .dictionary entries ∧ entries.find? key = some item := by
  unfold entryAt? at hkey
  split at hkey
  · rename_i entries hv
    exact ⟨entries, hv, hkey⟩
  · cases hkey

namespace KeepsLockedEntries

theorem of_value_eq (hvalue : ∀ r, h'.value r = h.value r)
    (hlocked : ∀ r, h.isLocked r = true → h'.isLocked r = true) : h.KeepsLockedEntries h' :=
  ⟨hlocked, fun r _ _ hkey _ => (entryAt?_congr (hvalue r)).trans hkey⟩

theorem trans (hh : h.KeepsLockedEntries h') (hh' : h'.KeepsLockedEntries h'') :
    h.KeepsLockedEntries h'' := by
  constructor
  case locked =>
    intro r hr
    exact hh'.locked r (hh.locked r hr)
  case entries =>
    intro r key item hkey hitem
    have hkept : h'.entryAt? r key = some item := hh.entries r key item hkey hitem
    exact hh'.entries r key item hkept (hh.locked item hitem)

theorem new (h : Heap) (v : Value) : h.KeepsLockedEntries (h.new v).2 := by
  constructor
  case locked =>
    intro r hr
    exact (HoldsLocked.new h v r hr).1
  case entries =>
    intro r key item hkey _
    obtain ⟨entries, hv, -⟩ := exists_of_entryAt? hkey
    exact (entryAt?_congr ((Extends.new h v).value_eq (hv ▸ rfl))).trans hkey

end KeepsLockedEntries

theorem isLocked_setValue (h : Heap) (r s : Ref) (v : Value) :
    (h.setValue r v).isLocked s = h.isLocked s := by
  unfold isLocked Heap.setValue
  rcases h.cell_modifyCell r s _ with hold | ⟨-, -, hnew⟩
  · rw [hold]
  · rw [hnew]

/-- A check of the container has to be one of its locked entries as well. -/
theorem KeepsLockedEntries.write {e e' : Engine} (hh : e.heap.KeepsLockedEntries e'.heap) {r : Ref}
    {v : Value} (hpermits : e.Permits (.ofSparing True) e' r v) :
    e.heap.KeepsLockedEntries (e'.heap.setValue r v) := by
  constructor
  case locked =>
    intro s hs
    rw [isLocked_setValue]
    exact hh.locked s hs
  case entries =>
    intro s key item hentry hitem
    have hentry' : e'.heap.entryAt? s key = some item := hh.entries s key item hentry hitem
    by_cases hsr : s = r
    · subst hsr
      obtain ⟨entries, hentries, hkey⟩ := exists_of_entryAt? hentry
      obtain ⟨entries', hentries', hkey'⟩ := exists_of_entryAt? hentry'
      have hin : s.index < e'.heap.size :=
        e'.heap.lt_size_of_not_isScalar s (hentries' ▸ rfl)
      have hwritten : (e'.heap.setValue s v).value s = v := e'.heap.value_setValue_self v hin
      cases hpermits with
      | unlocked _ _ hspares =>
        obtain ⟨_, hv, hkept⟩ :=
          hspares trivial entries entries' key item hentries hkey hitem hentries' hkey'
        exact (entryAt?_of_value (hwritten.trans hv)).trans hkept
      | item hitems => cases hitems.symm.trans hentries
      | @entry own own' other current new hown hother hcurrent hown' hv =>
        obtain rfl := Value.dictionary.inj (hown.symm.trans hentries)
        obtain rfl := Value.dictionary.inj (hown'.symm.trans hentries')
        have hne : key ≠ other := by
          rintro rfl
          obtain rfl := Option.some.inj (hother.symm.trans hkey)
          rw [hcurrent] at hitem
          cases hitem
        rw [entryAt?_of_value (hwritten.trans hv), Table.find?_insert_of_ne hne]
        exact hkey'
    · exact (entryAt?_congr (e'.heap.value_setValue_of_ne v hsr)).trans hentry'

theorem lockRule_keepsLockedEntries : Heap.LockRule True Heap.KeepsLockedEntries where
  refl _ := .of_value_eq (fun _ => rfl) fun _ => id
  trans hh hh' := hh.trans hh'
  relock := .of_value_eq
  new := .new
  write hh hpermits := hh.write hpermits

end Heap

/-! ## Calls that are watched for -/

namespace Engine

/-- The entry is locked, and another object is to take its place. Scalars are copied when they are
stored, so that even the same one makes another object. -/
def replaces (e : Engine) (entries : Table Ref) (added : String × Ref) : Bool :=
  (entries.find? added.1).any fun item =>
    e.heap.isLocked item && (added.2 != item || (e.heap.value added.2).isScalar)

/-- To extend the one Dictionary with the other one would replace an entry that is locked. -/
def overwrites (e : Engine) (target source : Ref) : Bool :=
  match e.heap.value target, e.heap.value source with
  | .dictionary entries, .dictionary added =>
    !e.heap.isLocked target && added.entries.any (e.replaces entries)
  | _, _ => false

/-- The entries are to be replaced. -/
def forces (e : Engine) (mode : Ref) : Bool :=
  match (e.heap.value mode).toText with
  | .ok text => text == "force"
  | .error _ => false

variable {e : Engine} {target source mode : Ref} {entries added : Table Ref}

theorem replaces_iff {key : String} {v : Ref} :
    e.replaces entries (key, v) = true ↔ ∃ item, entries.find? key = some item ∧
      e.heap.isLocked item = true ∧ (v ≠ item ∨ (e.heap.value v).isScalar = true) := by
  simp [replaces, Option.any_eq_true]

theorem overwrites_iff : e.overwrites target source = true ↔ ∃ entries added key v,
    e.heap.value target = .dictionary entries ∧ e.heap.value source = .dictionary added ∧
      e.heap.isLocked target = false ∧ added.find? key = some v ∧
      e.replaces entries (key, v) = true := by
  unfold overwrites
  constructor
  · intro h
    split at h
    · rename_i entries added hentries hadded
      rw [Bool.and_eq_true, Bool.not_eq_true', List.any_eq_true] at h
      obtain ⟨hlocked, ⟨key, v⟩, hin, hreplaces⟩ := h
      exact ⟨entries, added, key, v, hentries, hadded, hlocked,
        Table.find?_eq_some_iff.2 hin, hreplaces⟩
    · cases h
  · rintro ⟨entries, added, key, v, hentries, hadded, hlocked, hkey, hreplaces⟩
    simp only [hentries, hadded, hlocked, Bool.not_false, Bool.true_and, List.any_eq_true]
    exact ⟨(key, v), Table.find?_eq_some_iff.1 hkey, hreplaces⟩

theorem forces_iff : e.forces mode = true ↔ (e.heap.value mode).toText = .ok "force" := by
  unfold forces
  cases (e.heap.value mode).toText with
  | ok text => simp
  | error stop => simp

end Engine

/-- This call replaces an entry that is locked. -/
def Task.overwrites : Task → Engine → Bool
  | .call _ (.builtin .extend) [target, source] _, e => e.overwrites target source
  | .call _ (.builtin .extend) [target, source, mode] _, e =>
    e.forces mode && e.overwrites target source
  | _, _ => false

theorem Handler.spares_of_not_overwrites {c : Context} {h : Handler} {arguments : List Ref}
    {receiver : Option Ref} {e : Engine}
    (hfree : Task.overwrites (.call c h arguments receiver) e = false) : h.Spares e arguments := by
  rintro rfl target source mode rfl hlocked hforce entries added key item v hentries hadded hkey
    hitem hv
  have hnone : e.overwrites target source = false := by
    cases mode with
    | none => exact hfree
    | some mode =>
      have hboth : (e.forces mode && e.overwrites target source) = false := hfree
      rwa [Engine.forces_iff.2 (hforce mode rfl), Bool.true_and] at hboth
  by_contra hother
  rw [not_and_or, Bool.not_eq_false] at hother
  have hsome : e.overwrites target source = true :=
    Engine.overwrites_iff.2 ⟨entries, added, key, v, hentries, hadded, hlocked, hv,
      Engine.replaces_iff.2 ⟨item, hkey, hitem, hother⟩⟩
  rw [hnone] at hsome
  cases hsome

namespace Run

open Library

variable {e : Engine} {target source : Ref} {own added : Table Ref}

/-- One entry is put in, and the rest after it. -/
theorem extendEntries_cons (hown : e.heap.value target = .dictionary own) {key : String}
    {clash : Clash} (hput : clash = .force ∨ own.find? key = none) (v : Ref)
    (rest : List (String × Ref)) :
    extendEntries target clash ((key, v) :: rest) e =
      extendEntries target clash rest (e.withHeap ((e.heap.stored v).2.setValue target
        (.dictionary (own.insert key (e.heap.stored v).1)))) := by
  have hentry : entry? target key e = .ok (own.find? key) e := by
    unfold entry?
    rw [bind_of_ok (value_of_eq hown)]
    rfl
  have hstored : stored v e = .ok (e.heap.stored v).1 (e.withHeap (e.heap.stored v).2) := rfl
  have hkept : (e.withHeap (e.heap.stored v).2).heap.value target = .dictionary own :=
    ((Heap.Extends.stored e.heap v).value_eq (hown ▸ rfl)).trans hown
  have hset : setEntry target key (e.heap.stored v).1 (e.withHeap (e.heap.stored v).2) =
      .ok () (e.withHeap ((e.heap.stored v).2.setValue target
        (.dictionary (own.insert key (e.heap.stored v).1)))) := by
    unfold setEntry
    rw [bind_of_ok (value_of_eq hkept)]
    rfl
  rw [extendEntries, bind_of_ok hentry]
  rcases hput with rfl | hnone
  · cases own.find? key with
    | none | some => exact (bind_of_ok hstored).trans (bind_of_ok hset)
  · rw [hnone]
    exact (bind_of_ok hstored).trans (bind_of_ok hset)

theorem stored_ne {item v : Ref} (hin : item.index < e.heap.size)
    (hv : v ≠ item ∨ (e.heap.value v).isScalar = true) : (e.heap.stored v).1 ≠ item := by
  unfold Heap.stored
  dsimp only
  split
  · rintro rfl
    exact Nat.lt_irrefl _ hin
  · rename_i hscalar
    exact hv.resolve_right hscalar

/-- What is put into a Dictionary leaves scalars as they are. -/
theorem isScalar_put (hown : e.heap.value target = .dictionary own) (v : Ref) (made : Value)
    {r : Ref} (hr : r.index < e.heap.size) (hscalar : (e.heap.value r).isScalar = true) :
    (((e.heap.stored v).2.setValue target made).value r).isScalar = true := by
  have hne : r ≠ target := by
    rintro rfl
    rw [hown] at hscalar
    cases hscalar
  have hold : (e.heap.stored v).2.value r = e.heap.value r :=
    congrArg Cell.value ((Heap.Extends.stored e.heap v).cell r hr)
  rw [(e.heap.stored v).2.value_setValue_of_ne made hne, hold]
  exact hscalar

/-- Entries that are put in take the place of others, and all others stay. -/
theorem exists_extendEntries {list : List (String × Ref)} (hnodup : (list.map (·.1)).Nodup)
    (hown : e.heap.value target = .dictionary own) :
    ∃ e' own', extendEntries target .force list e = .ok () e' ∧
      e'.heap.value target = .dictionary own' ∧
      (∀ key, key ∉ list.map (·.1) → own'.find? key = own.find? key) ∧
      ∀ key v item, (key, v) ∈ list → item.index < e.heap.size →
        (v ≠ item ∨ (e.heap.value v).isScalar = true) → own'.find? key ≠ some item := by
  induction list generalizing e own with
  | nil => exact ⟨e, own, rfl, hown, fun _ _ => rfl, fun _ _ _ hin => absurd hin List.not_mem_nil⟩
  | cons entry rest ih =>
    obtain ⟨key, v⟩ := entry
    obtain ⟨hnew, hrest⟩ := List.nodup_cons.1 hnodup
    have hextends := Heap.Extends.stored e.heap v
    have hin : target.index < (e.heap.stored v).2.size :=
      Nat.lt_of_lt_of_le (e.heap.lt_size_of_not_isScalar target (hown ▸ rfl)) hextends.size
    have hnext : (e.withHeap ((e.heap.stored v).2.setValue target
        (.dictionary (own.insert key (e.heap.stored v).1)))).heap.value target =
          .dictionary (own.insert key (e.heap.stored v).1) :=
      (e.heap.stored v).2.value_setValue_self _ hin
    obtain ⟨e', own', hrun, hown', hothers, hput⟩ := ih hrest hnext
    refine ⟨e', own', (extendEntries_cons hown (.inl rfl) v rest).trans hrun, hown', ?_, ?_⟩
    · intro other hother
      rw [List.map_cons, List.mem_cons, not_or] at hother
      rw [hothers other hother.2, Table.find?_insert_of_ne hother.1]
    · intro other w item hmem hitem hw
      rcases List.mem_cons.1 hmem with heq | hmem
      · cases heq
        rw [hothers key hnew, Table.find?_insert_self]
        exact fun h => stored_ne hitem hw (Option.some.inj h)
      · refine hput other w item hmem ?_ ?_
        · exact Nat.lt_of_lt_of_le hitem
            (Nat.le_trans hextends.size (Nat.le_of_eq (Heap.size_setValue _ _ _).symm))
        · by_cases hsame : w = item
          · subst hsame
            exact .inr (isScalar_put hown v _ hitem (hw.resolve_left (absurd rfl)))
          · exact .inl hsame

/-- A call that is watched for ends well, and a locked entry has lost its place. -/
theorem exists_extend {mode : Option Ref} (hoverwrites : e.overwrites target source = true)
    (hmode : ∀ r, mode = some r → e.forces r = true) :
    ∃ e', extend target source mode e = .ok target e' ∧
      ¬e.heap.KeepsLockedEntries e'.heap := by
  obtain ⟨own, added, key, v, hown, hadded, hlocked, hkey, hreplaces⟩ :=
    Engine.overwrites_iff.1 hoverwrites
  obtain ⟨item, hitem, hitemLocked, hother⟩ := Engine.replaces_iff.1 hreplaces
  obtain ⟨e', own', hrun, hown', -, hput⟩ := exists_extendEntries added.nodup hown
  refine ⟨e', ?_, fun hkeeps => ?_⟩
  · have hcheck : checkArgument target "extend" e = .ok () e := checkUnlocked_of_free hlocked
    have hall : (do
        extendEntries target .force added.entries
        return target : Run Ref) e = .ok target e' := bind_of_ok hrun
    unfold extend
    rw [bind_of_ok hcheck, bind_of_ok (value_of_eq hown), bind_of_ok (value_of_eq hadded)]
    cases mode with
    | none => exact hall
    | some r =>
      have hforce : text r e = .ok "force" e := by
        unfold text
        rw [bind_of_ok (value_of_eq rfl), Engine.forces_iff.1 (hmode r rfl)]
        rfl
      exact (bind_of_ok hforce).trans hall
  · have hstill : e'.heap.entryAt? target key = some item :=
      hkeeps.entries target key item ((Heap.entryAt?_of_value hown).trans hitem) hitemLocked
    exact hput key v item (Table.find?_eq_some_iff.1 hkey) (Heap.lt_size_of_isLocked hitemLocked)
      hother ((Heap.entryAt?_of_value hown').symm.trans hstill)

theorem exists_callHandler_extend (host : Host) (i : Interp) {c : Context} {h : Handler}
    {arguments : List Ref} {receiver : Option Ref}
    (hoverwrites : Task.overwrites (.call c h arguments receiver) e = true) :
    ∃ r e', callHandler host i c h arguments receiver e = .ok r e' ∧
      ¬e.heap.KeepsLockedEntries e'.heap := by
  have hcall (target source : Ref) (mode : Option Ref)
      (hoverwrites : e.overwrites target source = true)
      (hmode : ∀ r, mode = some r → e.forces r = true)
      (hrun : callHandler host i c h arguments receiver e =
        afterwards (extend target source mode) e.leave (e.enter (.native "extend"))) :
      ∃ r e', callHandler host i c h arguments receiver e = .ok r e' ∧
        ¬e.heap.KeepsLockedEntries e'.heap := by
    obtain ⟨e', hextend, hloses⟩ := exists_extend (e := e.enter (.native "extend")) hoverwrites hmode
    rw [hrun]
    unfold afterwards
    rw [hextend]
    exact ⟨target, e.leave e', rfl, hloses⟩
  unfold Task.overwrites at hoverwrites
  split at hoverwrites
  · rename_i heq
    cases heq
    exact hcall _ _ none hoverwrites (by intro r hr; cases hr) rfl
  · rename_i heq
    cases heq
    rw [Bool.and_eq_true] at hoverwrites
    exact hcall _ _ (some _) hoverwrites.2
      (fun r hr => Option.some.inj hr ▸ hoverwrites.1) rfl
  · cases hoverwrites

end Run

/-! ## Sessions -/

/-- A run that stops before a call replaces a locked entry keeps all locked entries. -/
theorem Interp.obeys_sparing (host : Host) (fuel : Nat) :
    (watching host Task.overwrites fuel).Obeys
      (.locking host Heap.lockRule_keepsLockedEntries) .any :=
  obeys_watching_of_meets (fun _ => Trees.coversExpr_any id (fun _ => trivial) _)
    (fun _ => Trees.coversStmt_any id (fun _ => trivial) id _ (fun _ => trivial) fun _ _ => trivial)
    (fun _ => Trees.callable_any _) (fun _ => trivial)
    (Discipline.opens_locking Heap.lockRule_keepsLockedEntries) trivial False.elim
    (fun _ _ _ _ _ hfree => ⟨False.elim, fun _ => Handler.spares_of_not_overwrites hfree⟩)
    False.elim (fun _ _ _ _ _ => trivial) fuel

namespace Session

/-- If a run starts no unlock, and no call in it replaces a locked entry, then each entry that was
locked before the run is the same object under the same key after it, in whatever way the run ends,
and whether its Dictionary was locked or not. A call that replaces one does so without an error. -/
theorem perform_keepsLockedEntries (host : Host) (fuel : Nat) (e : Engine) (r : Request) :
    (¬(r.perform (.ofFuel host fuel) e).2.Unlocks →
      (r.perform (.watching host Task.overwrites fuel) e).1.outcome ≠ .error .alarm →
      e.heap.KeepsLockedEntries (r.perform (.ofFuel host fuel) e).2.heap) ∧
    ∀ i c h arguments receiver (e₁ : Engine),
      Task.overwrites (.call c h arguments receiver) e₁ = true →
      ∃ made e₂, Run.callHandler host i c h arguments receiver e₁ = .ok made e₂ ∧
        ¬e₁.heap.KeepsLockedEntries e₂.heap := by
  constructor
  · intro hnone hwatched
    have hstart : (r.start e).heap = e.heap := by cases r <;> rfl
    obtain ⟨e₁, _, _, hleads, hended, -⟩ :=
      Request.leads_perform (e := e) (Interp.obeys_sparing host fuel) r.judged_any trivial
    rw [← Request.perform_eq_of_upTo (Interp.upTo_watching host Task.overwrites fuel) hwatched,
      hended] at hnone ⊢
    exact hstart ▸ hleads.holds hnone
  · intro i c h arguments receiver e₁ hoverwrites
    exact Run.exists_callHandler_extend host i hoverwrites

def pairs : Variable := ⟨some .globals, "pairs"⟩

/-- A Dictionary that is not locked, with an entry that is. -/
def holdingEntry : Engine :=
  (Request.perform (.ofFuel ⟨[]⟩ 4) (holding "k")
    (.run .commandLine [.assign (.var pairs) .set (.dict [(.register "a", .register "a")]),
      .lock [.index (.var pairs) (.register "a")] 1])).2

theorem arrives_holdingEntry : Arrives ⟨[]⟩ holdingEntry := .perform (arrives_holding ⟨[]⟩ "k") 4 _

/-- The Dictionary gets an entry under this key. -/
def extending (key : Expr) : Request :=
  .run .commandLine [.evaluate (.call none "extend" [.var pairs, .dict [(key, .register "a")]])]

def newKey : Expr := .binary (.concat false) (.register "a") (.register "a")

theorem perform_keepsLockedEntries_extending :
    ¬((extending newKey).perform (.ofFuel ⟨[]⟩ 5) holdingEntry).2.Unlocks ∧
    ((extending newKey).perform (.watching ⟨[]⟩ Task.overwrites 5) holdingEntry).1.outcome ≠
      .error .alarm ∧
    holdingEntry.heap.KeepsLockedEntries
      ((extending newKey).perform (.ofFuel ⟨[]⟩ 5) holdingEntry).2.heap ∧
    Task.overwrites (.call .commandLine (.builtin .extend) [⟨8⟩, ⟨8⟩] none) holdingEntry = true ∧
    ∃ made e', Run.callHandler ⟨[]⟩ .spent .commandLine (.builtin .extend) [⟨8⟩, ⟨8⟩] none
        holdingEntry = .ok made e' ∧ ¬holdingEntry.heap.KeepsLockedEntries e'.heap := by
  obtain ⟨hkeeps, hloses⟩ := perform_keepsLockedEntries ⟨[]⟩ 5 holdingEntry (extending newKey)
  have hnone : ¬((extending newKey).perform (.ofFuel ⟨[]⟩ 5) holdingEntry).2.Unlocks :=
    Engine.not_unlocks_of_all (by decide +kernel)
  have hends : ((extending newKey).perform (.watching ⟨[]⟩ Task.overwrites 5)
      holdingEntry).1.outcome.isOk = true := by
    decide +kernel
  have hwatched : ((extending newKey).perform (.watching ⟨[]⟩ Task.overwrites 5)
      holdingEntry).1.outcome ≠ .error .alarm := by
    intro halarm
    rw [halarm] at hends
    cases hends
  have hself : Task.overwrites (.call .commandLine (.builtin .extend) [⟨8⟩, ⟨8⟩] none)
      holdingEntry = true := by
    decide +kernel
  exact ⟨hnone, hwatched, hkeeps hnone hwatched, hself, hloses .spent _ _ _ _ _ hself⟩

/-- Without an unlock, an entry that was locked gives way to another object. -/
theorem not_forall_keepsLockedEntries :
    ¬∀ (e : Engine) (fuel : Nat) (r : Request), Arrives ⟨[]⟩ e →
      ¬(r.perform (.ofFuel ⟨[]⟩ fuel) e).2.Unlocks →
      e.heap.KeepsLockedEntries (r.perform (.ofFuel ⟨[]⟩ fuel) e).2.heap := by
  intro hclaim
  have hkeeps := hclaim holdingEntry 5 (extending (.register "a")) arrives_holdingEntry
    (Engine.not_unlocks_of_all (by decide +kernel))
  have hstill := hkeeps.entries ⟨8⟩ "k" ⟨7⟩ (by decide +kernel) (by decide +kernel)
  revert hstill
  decide +kernel

end Session

end VimL
