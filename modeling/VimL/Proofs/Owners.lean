import VimL.Proofs.Additions
import VimL.Proofs.Invariants

/-!
# Owners of locks

The notes of an object tell whether it is locked, and for which variable. The lock of a variable
stands until its object is unlocked, or locked in another name or in none. While it stands, the
variable cannot be bound anew, so it is bound to that object still.
-/

namespace VimL

/-! ## Notes -/

namespace Note

/-- The variable that the object is locked for. -/
def owner? : Note → Option Binding
  | .locked owner => owner
  | .named b => some b
  | .unlocked => none

def locks : Note → Bool
  | .unlocked => false
  | _ => true

/-- What is noted leaves the lock of this variable alone: it is a lock in the same name. -/
def Spares (b : Binding) (note : Note) : Prop :=
  note.owner?.map (·.canonicalName) = some b.canonicalName

instance (b : Binding) (note : Note) : Decidable (note.Spares b) :=
  inferInstanceAs (Decidable (_ = _))

end Note

/-- The variable was locked, and the object was its own; all that was noted since then leaves this
lock alone. -/
def LockStands (b : Binding) (notes : List Note) : Prop :=
  .named b ∈ notes.takeWhile fun note => note.Spares b

instance (b : Binding) (notes : List Note) : Decidable (LockStands b notes) :=
  inferInstanceAs (Decidable (_ ∈ _))

theorem lockStands_cons {b : Binding} {note : Note} {notes : List Note} :
    LockStands b (note :: notes) ↔ note.Spares b ∧ (note = .named b ∨ LockStands b notes) := by
  unfold LockStands
  by_cases hnote : note.Spares b
  · simp [hnote, eq_comm]
  · simp [hnote]

theorem lockStands_named (b : Binding) (notes : List Note) : LockStands b (.named b :: notes) :=
  lockStands_cons.2 ⟨rfl, .inl rfl⟩

theorem LockStands.mem {b : Binding} {notes : List Note} (h : LockStands b notes) :
    .named b ∈ notes :=
  (List.takeWhile_prefix _).subset h

namespace Cell

/-- The object is locked as the latest note tells. -/
structure IsNoted (c : Cell) : Prop where
  locked : c.locked = c.notes.head?.any (·.locks)
  owner : c.owner = (c.notes.head?.bind (·.owner?)).map (·.canonicalName)

variable {c c' c'' : Cell}

theorem IsNoted.of_lockStands (hc : c.IsNoted) {b : Binding} (h : LockStands b c.notes) :
    c.locked = true ∧ c.owner = some b.canonicalName := by
  obtain ⟨hlocked, howner⟩ := hc
  cases hnotes : c.notes with
  | nil => simp [hnotes, LockStands] at h
  | cons note notes =>
    rw [hnotes] at h hlocked howner
    have hspares : note.Spares b := (lockStands_cons.1 h).1
    refine ⟨?_, howner.trans hspares⟩
    cases note with
    | unlocked => cases hspares
    | _ => exact hlocked

/-- The notes of an object come to be those of the other one, and no variable is noted to be
locked. -/
structure GainsNotes (c c' : Cell) : Prop where
  notes : c.notes <:+ c'.notes
  noted : c.IsNoted → c'.IsNoted
  named : ∀ b, .named b ∈ c'.notes → .named b ∈ c.notes
  stands : ∀ b, LockStands b c'.notes → LockStands b c.notes

namespace GainsNotes

theorem refl (c : Cell) : c.GainsNotes c := ⟨List.suffix_rfl, id, fun _ => id, fun _ => id⟩

theorem trans (h : c.GainsNotes c') (h' : c'.GainsNotes c'') : c.GainsNotes c'' where
  notes := h.notes.trans h'.notes
  noted hc := h'.noted (h.noted hc)
  named b hb := h.named b (h'.named b hb)
  stands b hb := h.stands b (h'.stands b hb)

theorem iterate {mark : Cell → Cell} (hmark : ∀ c, GainsNotes c (mark c)) (n : Nat) (c : Cell) :
    c.GainsNotes (mark^[n] c) :=
  Function.Iterate.rec (GainsNotes c) (refl c) (fun c' h => h.trans (hmark c')) n

theorem lockedFor (owner : Option Binding) (c : Cell) : c.GainsNotes (c.lockedFor owner) where
  notes := List.suffix_cons _ _
  noted _ := ⟨rfl, rfl⟩
  named b hb := by simpa [Cell.lockedFor] using hb
  stands b hb := (lockStands_cons.1 hb).2.resolve_left nofun

theorem unlocked (c : Cell) : c.GainsNotes c.unlocked where
  notes := List.suffix_cons _ _
  noted _ := ⟨rfl, rfl⟩
  named b hb := by simpa [Cell.unlocked] using hb
  stands b hb := (lockStands_cons.1 hb).2.resolve_left nofun

end GainsNotes

end Cell

/-! ## Heaps -/

namespace Heap

/-- The notes of all objects come to be those of the other heap. Where a variable is newly noted to
be locked, the object is its own. -/
structure GainsNotes (own : Binding → Ref → Prop) (h h' : Heap) : Prop where
  size : h.size ≤ h'.size
  notes : ∀ r, h.notes r <:+ h'.notes r
  noted : (∀ r, (h.cell r).IsNoted) → ∀ r, (h'.cell r).IsNoted
  named : ∀ r b, .named b ∈ h'.notes r → .named b ∈ h.notes r ∨ own b r
  stands : ∀ r b, LockStands b (h'.notes r) → LockStands b (h.notes r) ∨ own b r

namespace GainsNotes

variable {own : Binding → Ref → Prop} {h h' : Heap}

theorem of_cells (hsize : h.size ≤ h'.size) (hcells : ∀ r, (h.cell r).GainsNotes (h'.cell r)) :
    h.GainsNotes own h' where
  size := hsize
  notes r := (hcells r).notes
  noted hnoted r := (hcells r).noted (hnoted r)
  named r b hb := .inl ((hcells r).named b hb)
  stands r b hb := .inl ((hcells r).stands b hb)

theorem new (h : Heap) (v : Value) : h.GainsNotes own (h.new v).2 := by
  refine .of_cells (by simp) fun r => ?_
  by_cases hr : r.index < h.size
  · rw [(Extends.new h v).cell r hr]
    exact .refl _
  · -- an object that did not exist has no notes, as a new one
    rw [cell_of_size_le h r (Nat.le_of_not_lt hr)]
    rcases h.cell_new r v with hnew | hold
    · rw [hnew]
      exact ⟨List.suffix_rfl, fun _ => ⟨rfl, rfl⟩, fun _ => id, fun _ => id⟩
    · rw [hold, cell_of_size_le h r (Nat.le_of_not_lt hr)]
      exact .refl _

theorem setValue (h : Heap) (r : Ref) (v : Value) : h.GainsNotes own (h.setValue r v) := by
  refine .of_cells (by simp) fun other => ?_
  rcases h.cell_modifyCell r other (fun c => { c with value := v }) with hold | ⟨-, -, hnew⟩
  · have hcell : (h.setValue r v).cell other = h.cell other := hold
    rw [hcell]
    exact .refl _
  · have hcell : (h.setValue r v).cell other = { h.cell other with value := v } := hnew
    rw [hcell]
    exact ⟨List.suffix_rfl, fun hc => ⟨hc.locked, hc.owner⟩, fun _ => id, fun _ => id⟩

theorem unlock (h : Heap) (depth : Int) (r : Ref) : h.GainsNotes own (h.unlock depth r) := by
  refine .of_cells (Nat.le_of_eq (h.size_unlock r depth).symm) fun other => ?_
  obtain ⟨n, hcell⟩ := h.cell_unlock r other depth
  rw [hcell]
  exact .iterate .unlocked n _

/-- Where a variable is noted to be locked, its object has just been locked in its name. -/
theorem lock (h : Heap) (depth : Int) {owner : Option Binding} {r : Ref}
    (howner : ∀ b, owner = some b → own b r) : h.GainsNotes own (h.lock depth owner r) := by
  have hcells (other : Ref) : (h.cell other).GainsNotes ((h.lock depth owner r).cell other) ∨
      ∃ b c, owner = some b ∧ other = r ∧ (h.cell other).GainsNotes c ∧
        c.locked = true ∧ c.owner = some b.canonicalName ∧
        (h.lock depth owner r).cell other = c.noted (.named b) := by
    rcases h.cell_lock r other depth owner with ⟨n, hcell⟩ | ⟨b, n, rfl, hother, hcell⟩
    · exact .inl (hcell ▸ .iterate (.lockedFor owner) n _)
    · refine .inr ⟨b, _, rfl, hother, .iterate (.lockedFor (some b)) (n + 1) _, ?_, ?_, hcell⟩
      · rw [Cell.lockedFor_iterate]
      · rw [Cell.lockedFor_iterate, Option.map_some]
  refine ⟨Nat.le_of_eq (h.size_lock r depth owner).symm, fun other => ?_, fun hnoted other => ?_,
    fun other b hb => ?_, fun other b hb => ?_⟩
  · rcases hcells other with hold | ⟨b, c, -, -, hgains, -, -, hnew⟩
    · exact hold.notes
    · have hsuffix : c.notes <:+ (c.noted (.named b)).notes := List.suffix_cons _ _
      simpa only [Heap.notes, hnew] using hgains.notes.trans hsuffix
  · rcases hcells other with hold | ⟨b, c, -, -, -, hlocked, hc, hnew⟩
    · exact hold.noted (hnoted other)
    · rw [hnew]
      exact ⟨hlocked, hc⟩
  · rcases hcells other with hold | ⟨b', c, hb', rfl, hgains, -, -, hnew⟩
    · exact .inl (hold.named b hb)
    · simp only [Heap.notes, hnew, Cell.noted, List.mem_cons, Note.named.injEq] at hb
      rcases hb with rfl | hb
      · exact .inr (howner b hb')
      · exact .inl (hgains.named b hb)
  · rcases hcells other with hold | ⟨b', c, hb', rfl, hgains, -, -, hnew⟩
    · exact .inl (hold.stands b hb)
    · simp only [Heap.notes, hnew, Cell.noted, lockStands_cons, Note.named.injEq] at hb
      rcases hb.2 with rfl | hb
      · exact .inr (howner b' hb')
      · exact .inl (hgains.stands b hb)

end GainsNotes

end Heap

/-! ## Engines -/

namespace Engine

/-- The variable is bound to this object. -/
def Binds (e : Engine) (b : Binding) (r : Ref) : Prop := (e.tableAt b.place).find? b.name = some r

/-- The notes of objects are right: they tell how the objects are locked, and the lock of a variable
stands at the object that the variable is bound to. -/
structure TrueToNotes (e : Engine) : Prop where
  noted : ∀ r, (e.heap.cell r).IsNoted
  binds : ∀ b r, b.place.isWritable = true → LockStands b (e.heap.notes r) → e.Binds b r
  frames : ∀ b r id, .named b ∈ e.heap.notes r → b.place = .locals id → id.index < e.frames.size
  objects : ∀ b r, b.place.isWritable = true → e.Binds b r → r.index < e.heap.size

variable {host : Host} {d : Demands} {e e' e'' : Engine}

theorem binds_iff_of_tableAt {b : Binding} {r : Ref}
    (h : e'.tableAt b.place = e.tableAt b.place) : e'.Binds b r ↔ e.Binds b r := by
  unfold Binds
  rw [h]

theorem TrueToNotes.guards (h : e.TrueToNotes) {b : Binding} {r : Ref}
    (hb : b.place.isWritable = true) (hstands : LockStands b (e.heap.notes r)) : e.Guards b r :=
  have hlock := (h.noted r).of_lockStands hstands
  ⟨h.binds b r hb hstands, hlock.1, hlock.2⟩

theorem TrueToNotes.unnamed (h : e.TrueToNotes) : e.Unnamed (.locals ⟨e.frames.size⟩) := by
  intro r b hnamed hplace
  exact Nat.lt_irrefl _ (h.frames b r _ hnamed hplace)

/-- Variables are bound as before. -/
theorem TrueToNotes.of_heap (h : e.TrueToNotes) {heap : Heap}
    (hgains : e.heap.GainsNotes e.Binds heap) : (e.withHeap heap).TrueToNotes where
  noted := hgains.noted h.noted
  binds b r hb hstands := (hgains.stands r b hstands).elim (h.binds b r hb) id
  frames b r id hnamed hplace := by
    rcases hgains.named r b hnamed with hold | hbinds
    · exact h.frames b r id hold hplace
    · -- a frame that does not exist binds no variable
      by_contra hout
      have hnone : e.frames[id.index]? = none := Array.getElem?_eq_none (Nat.le_of_not_lt hout)
      simp [Binds, hplace, tableAt, frame?, hnone] at hbinds
  objects b r hb hbinds := Nat.lt_of_lt_of_le (h.objects b r hb hbinds) hgains.size

/-- Objects are as before. -/
theorem TrueToNotes.of_tables (h : e.TrueToNotes) (hheap : e'.heap = e.heap)
    (hframes : e.frames.size ≤ e'.frames.size)
    (hkept : ∀ b r, b.place.isWritable = true → LockStands b (e.heap.notes r) → e.Binds b r →
      e'.Binds b r)
    (hnew : ∀ b r, b.place.isWritable = true → e'.Binds b r → e.Binds b r ∨ r.index < e.heap.size) :
    e'.TrueToNotes := by
  refine ⟨fun r => ?_, fun b r hb hstands => ?_, fun b r id hnamed hplace => ?_,
    fun b r hb hbinds => ?_⟩
  · exact hheap ▸ h.noted r
  · rw [hheap] at hstands
    exact hkept b r hb hstands (h.binds b r hb hstands)
  · rw [hheap] at hnamed
    exact Nat.lt_of_lt_of_le (h.frames b r id hnamed hplace) hframes
  · rw [hheap]
    exact (hnew b r hb hbinds).elim (h.objects b r hb) id

theorem TrueToNotes.of_same (h : e.TrueToNotes) (hsame : e.SameVariables e') : e'.TrueToNotes := by
  refine h.of_tables hsame.heap (Nat.le_of_eq hsame.frames.symm) (fun b r hb _ hbinds => ?_)
    fun b r hb hbinds => .inl ?_
  · exact (binds_iff_of_tableAt (hsame.tables b.place hb)).2 hbinds
  · exact (binds_iff_of_tableAt (hsame.tables b.place hb)).1 hbinds

theorem TrueToNotes.note (h : e.TrueToNotes) (n : Naming) : (e.note n).TrueToNotes :=
  h.of_same (.of_eq rfl rfl rfl rfl)

/-- One table is changed, and no variable whose lock stands. -/
theorem TrueToNotes.changeTable (h : e.TrueToNotes) {change : Table Ref → Table Ref} {p : Place}
    (name : String) (hother : ∀ t other, other ≠ name → (change t).find? other = t.find? other)
    (hsame : ∀ t r, (change t).find? name = some r → t.find? name = some r ∨ r.index < e.heap.size)
    (hfree : p.isWritable = true → ∀ r, ¬LockStands ⟨p, name⟩ (e.heap.notes r)) :
    (e.changeTable change p).TrueToNotes := by
  have hbinds {b : Binding} {r : Ref} (hb : b ≠ ⟨p, name⟩) :
      (e.changeTable change p).Binds b r ↔ e.Binds b r := by
    unfold Binds
    by_cases hplace : b.place = p
    · have hname : b.name ≠ name := by
        rintro rfl
        exact hb (by cases b; cases hplace; rfl)
      rcases tableAt_changeTable e change p with hchanged | hsame
      · rw [hplace, hchanged, hother _ _ hname]
      · rw [hplace, hsame]
    · rw [tableAt_changeTable_of_ne e change hplace]
  refine h.of_tables (changeTable_heap e change p)
    (Nat.le_of_eq (frames_size_changeTable e change p).symm) (fun b r hb hstands hbound => ?_)
    fun b r _ hbound => ?_
  · have hne : b ≠ ⟨p, name⟩ := by
      rintro rfl
      exact hfree hb r hstands
    exact (hbinds hne).2 hbound
  · by_cases hne : b = ⟨p, name⟩
    · subst hne
      unfold Binds at hbound ⊢
      rcases tableAt_changeTable e change p with hchanged | hold
      · exact hsame _ r (hchanged ▸ hbound)
      · exact .inl (hold ▸ hbound)
    · exact .inl ((hbinds hne).1 hbound)

theorem TrueToNotes.invoke (h : e.TrueToNotes) {f : Frame}
    (hf : ∀ name r, f.locals.find? name = some r → r.index < e.heap.size) :
    (e.invoke f).TrueToNotes := by
  have htable (p : Place) : (e.invoke f).tableAt p = e.tableAt p ∨
      e.tableAt p = .empty ∧ (p.isWritable = true → (e.invoke f).tableAt p = f.locals) := by
    cases p with
    | locals id | arguments id =>
      simp only [Engine.invoke, Engine.note, tableAt, frame?, Array.getElem?_push]
      by_cases hid : id.index = e.frames.size
      · simp [hid, Place.isWritable]
      · simp [hid]
    | _ => exact .inl rfl
  refine h.of_tables rfl (by simp [Engine.invoke, Engine.note])
    (fun b r hb _ hbinds => ?_) fun b r hb hbinds => ?_
  · rcases htable b.place with heq | ⟨hnone, -⟩
    · exact (binds_iff_of_tableAt heq).2 hbinds
    · simp [Binds, hnone] at hbinds
  · rcases htable b.place with heq | ⟨-, hnew⟩
    · exact .inl ((binds_iff_of_tableAt heq).1 hbinds)
    · exact .inr (hf b.name r (hnew hb ▸ hbinds))

theorem TrueToNotes.edit (h : e.TrueToNotes) (hnamed : d.named)
    (hedit : e.Edit d e') : e'.TrueToNotes := by
  cases hedit with
  | lock depth owner r howner => exact h.of_heap (.lock e.heap depth howner)
  | unlock depth r => exact h.of_heap (.unlock e.heap depth r)
  | bind p _ name r hr hfree =>
    refine (h.changeTable name (fun t other hne => t.find?_insert_of_ne hne r)
      (fun t s hs => .inr ?_) fun hp s hstands => hfree s (h.guards hp hstands)).note _
    rw [Table.find?_insert_self] at hs
    exact Option.some.inj hs ▸ hr
  | unbind p _ name hfree =>
    exact (h.changeTable name (fun t other hne => t.find?_erase_of_ne hne)
      (fun t r hr => .inl (t.find?_of_erase hr)) fun hp s hstands =>
        hfree s (h.guards hp hstands)).note _
  | argument id name r =>
    refine h.of_same ⟨rfl, frames_size_changeTable e _ (.arguments id), fun p hp => ?_⟩
    refine tableAt_changeTable_of_ne e _ ?_
    rintro rfl
    cases hp
  | parameter id name r hr hnew =>
    refine h.changeTable name (fun t other hne => t.find?_insert_of_ne hne r)
      (fun t s hs => .inr ?_) fun _ s hstands => hnew hnamed s _ hstands.mem rfl
    rw [Table.find?_insert_self] at hs
    exact Option.some.inj hs ▸ hr
  | invoke f hf => exact h.invoke hf
  | declare table | withdraw table =>
    refine h.of_same ⟨changeFunctions_heap _ _ table, ?_,
      fun p _ => tableAt_changeFunctions _ _ table p⟩
    cases table <;> rfl
  | _ => exact h.of_same (.of_eq rfl rfl rfl rfl)

theorem Edit.notes (h : e.Edit d e') (r : Ref) :
    e.heap.notes r <:+ e'.heap.notes r := by
  have hgains {heap : Heap} (hheap : e.heap.GainsNotes (fun _ _ => True) heap) :
      e.heap.notes r <:+ (e.withHeap heap).heap.notes r := hheap.notes r
  cases h with
  | lock depth owner other => exact hgains (.lock e.heap depth fun _ _ => trivial)
  | unlock depth other => exact hgains (.unlock e.heap depth other)
  | bind p | unbind p => exact changeTable_heap e _ p ▸ List.suffix_rfl
  | declare table | withdraw table => cases table <;> exact List.suffix_rfl
  | _ => exact List.suffix_rfl

/-- Notes are only added, and they stay right. -/
structure KeepsNotes (e e' : Engine) : Prop where
  notes : ∀ r, e.heap.notes r <:+ e'.heap.notes r
  right : e.TrueToNotes → e'.TrueToNotes

namespace KeepsNotes

theorem trans (h : e.KeepsNotes e') (h' : e'.KeepsNotes e'') : e.KeepsNotes e'' :=
  ⟨fun r => (h.notes r).trans (h'.notes r), fun he => h'.right (h.right he)⟩

theorem of_same (hsame : e.SameVariables e') : e.KeepsNotes e' :=
  ⟨fun _ => hsame.heap ▸ List.suffix_rfl, fun he => he.of_same hsame⟩

theorem of_heap {heap : Heap} (hgains : e.heap.GainsNotes e.Binds heap) :
    e.KeepsNotes (e.withHeap heap) := ⟨hgains.notes, fun he => he.of_heap hgains⟩

end KeepsNotes

end Engine

/-! ## Runs -/

theorem Session.trueToNotes_blank (config : Config) : (blank config).TrueToNotes := by
  have hcell (r : Ref) : (blank config).heap.cell r = default :=
    Heap.cell_of_size_le _ r (Nat.zero_le _)
  have hbinds (b : Binding) (r : Ref) : ¬(blank config).Binds b r := by
    unfold Engine.Binds
    cases b.place <;> simp [blank, Engine.tableAt, Engine.script?, Engine.frame?]
  refine ⟨fun r => ?_, fun b r _ hstands => ?_, fun b r id hnamed _ => ?_, fun b r _ h => ?_⟩
  · rw [hcell]
    exact ⟨rfl, rfl⟩
  · have hnamed := hstands.mem
    rw [Heap.notes, hcell] at hnamed
    cases hnamed
  · rw [Heap.notes, hcell] at hnamed
    cases hnamed
  · exact absurd h (hbinds b r)

/-- Notes are right at first, and every run keeps them. -/
def Invariant.noting : Invariant where
  named := True
  linear := False
  holds := Engine.TrueToNotes
  keeps := Engine.KeepsNotes
  unnamed he _ := he.unnamed
  affords _ := False.elim
  blank := Session.trueToNotes_blank
  holds_of_keeps he h := h.right he
  trans h h' := h.trans h'
  same h _ := .of_same h
  edit _ h := ⟨h.notes, fun he => he.edit trivial h⟩
  create h _ := h.trans (.of_heap (.new _ _))
  write h _ _ _ := h.trans (.of_heap (.setValue _ _ _))

theorem Session.Arrives.trueToNotes {host : Host} {e : Engine} (h : Arrives host e) :
    e.TrueToNotes := Invariant.noting.holds_of_arrives h

end VimL
