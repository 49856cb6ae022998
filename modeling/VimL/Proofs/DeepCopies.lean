import VimL.Copy
import VimL.Proofs.Additions
import VimL.Proofs.Equality
import VimL.Proofs.Reach

/-!
# Deep copies

While the items of a container are copied, its own copy is known, but not finished: it is still
empty. So there are two things to say of a pair of an object and its copy. The copy stands for the
object as soon as it is known. It is finished if its items stand for the items of the object. When
the copy of everything comes to its end, all pairs that are known are finished, and so the pairs
cannot be told apart.

A container that is copied becomes known, so that the containers that are not known yet bound the
depth of the recursion.
-/

namespace VimL

namespace Table

variable {α β : Type} {t : Table α} {values : List β}

theorem withValues_nil (t : Table α) : t.withValues ([] : List β) = .empty := by
  have hentries : (t.withValues ([] : List β)).entries = [] := List.zip_nil_right
  cases ht : t.withValues ([] : List β) with
  | mk entries =>
    rw [ht] at hentries
    subst hentries
    rfl

theorem keys_withValues (hlength : values.length = t.values.length) :
    (t.withValues values).keys = t.keys := by
  have hle : t.keys.length ≤ values.length := by
    rw [hlength]
    simp [keys, Table.values]
  exact List.map_fst_zip hle

theorem mem_of_mem_withValues {value : β} (h : value ∈ (t.withValues values).values) :
    value ∈ values := by
  obtain ⟨entry, hentry, rfl⟩ := List.mem_map.1 h
  exact (List.of_mem_zip hentry).2

/-- What is found under one name in both tables stands at the same place of their values. -/
theorem related_of_withValues {R : α → β → Prop} (hR : List.Forall₂ R t.values values)
    {name : String} {a : α} {b : β} (ha : t.find? name = some a)
    (hb : (t.withValues values).find? name = some b) : R a b := by
  have hentries : ∀ {entries : List (String × α)} {values : List β},
      List.Forall₂ R (entries.map (·.2)) values → findIn name entries = some a →
        findIn name ((entries.map (·.1)).zip values) = some b → R a b := by
    intro entries
    induction entries with
    | nil =>
      intro values _ ha
      cases ha
    | cons entry rest ih =>
      intro values hR ha hb
      cases hR with
      | cons hfirst hrest =>
        simp only [List.map_cons, List.zip_cons_cons, findIn] at ha hb
        by_cases hname : entry.1 = name
        · rw [if_pos hname] at ha hb
          cases ha
          cases hb
          exact hfirst
        · rw [if_neg hname] at ha hb
          exact ih hrest ha hb
  exact hentries hR ha hb

end Table

namespace Value

/-- A List or a Dictionary. -/
def isContainer : Value → Bool
  | .list _ | .dictionary _ => true
  | _ => false

/-- A value without parts. -/
def isPlain : Value → Bool
  | .number _ | .float _ | .string _ | .blob _ => true
  | _ => false

/-- A Float that is not equal to itself. -/
def isNaN : Value → Bool
  | .float x => !(x == x)
  | _ => false

/-- A List with these items, or a Dictionary with these entries under the same keys. -/
def withChildren : Value → List Ref → Value
  | .list _, found => .list found
  | .dictionary entries, found => .dictionary (entries.withValues found)
  | v, _ => v

variable {v : Value}

theorem isContainer_withChildren (hv : v.isContainer = true) (found : List Ref) :
    (v.withChildren found).isContainer = true := by
  cases v with
  | list | dictionary => rfl
  | _ => cases hv

theorem children_of_isPlain (hv : v.isPlain = true) : v.children = [] := by
  cases v with
  | list | dictionary => cases hv
  | _ => rfl

theorem withChildren_of_isPlain (hv : v.isPlain = true) (found : List Ref) :
    v.withChildren found = v := by
  cases v with
  | list | dictionary => cases hv
  | _ => rfl

theorem mem_of_mem_children {found : List Ref} {s : Ref} (hv : v.isContainer = true)
    (hs : s ∈ (v.withChildren found).children) : s ∈ found := by
  cases v with
  | list => exact hs
  | dictionary => exact Table.mem_of_mem_withValues hs
  | _ => cases hv

theorem isPlain_eq_false_of_isContainer (hv : v.isContainer = true) : v.isPlain = false := by
  cases v with
  | list | dictionary => rfl
  | _ => cases hv

theorem ne_funcref_of_isContainer (hv : v.isContainer = true) (f : Funcref) :
    v ≠ .funcref f := by
  rintro rfl
  cases hv

end Value

namespace Heap

/-- The second object is the first one, or an item or an entry of what can be reached from it. -/
def Contains (h : Heap) : Ref → Ref → Prop :=
  Relation.ReflTransGen fun r s => s ∈ (h.value r).children

variable {source h h' : Heap} {copies copies' : Copies} {fuel : Nat} {r s c : Ref}

theorem lt_size_of_isContainer (hr : (h.value r).isContainer = true) : r.index < h.size := by
  refine h.lt_size_of_not_isScalar r ?_
  cases hv : h.value r with
  | list | dictionary => rfl
  | _ =>
    rw [hv] at hr
    cases hr

/-! ## One round of a copy -/

theorem deepCopyFrom_of_known (hr : (h.value r).isContainer = true)
    (hc : copies.lookup r = some c) :
    deepCopyFrom (fuel + 1) (copies, h) r = (c, copies, h) := by
  cases hv : h.value r with
  | list | dictionary => simp only [deepCopyFrom, hv, hc]
  | _ =>
    rw [hv] at hr
    cases hr

/-- A new container is known before its items are copied, and takes them in afterwards. -/
theorem deepCopyFrom_of_unknown (hr : (h.value r).isContainer = true)
    (hc : copies.lookup r = none) :
    deepCopyFrom (fuel + 1) (copies, h) r =
      let made := h.new ((h.value r).withChildren [])
      let items := copyEach (deepCopyFrom fuel) ((r, made.1) :: copies, made.2) (h.value r).children
      (made.1, items.2.1, items.2.2.setValue made.1 ((h.value r).withChildren items.1)) := by
  cases hv : h.value r with
  | list =>
    simp only [deepCopyFrom, hv, hc]
    rfl
  | dictionary entries =>
    simp only [deepCopyFrom, hv, hc, Value.withChildren, Table.withValues_nil]
    rfl
  | _ =>
    rw [hv] at hr
    cases hr

theorem deepCopyFrom_of_isPlain (hr : (h.value r).isPlain = true) :
    deepCopyFrom (fuel + 1) (copies, h) r =
      ((h.new (h.value r)).1, copies, (h.new (h.value r)).2) := by
  cases hv : h.value r with
  | list | dictionary | funcref =>
    rw [hv] at hr
    cases hr
  | _ => simp only [deepCopyFrom, hv]

theorem deepCopyFrom_of_funcref {f : Funcref} (hr : h.value r = .funcref f) :
    deepCopyFrom (fuel + 1) (copies, h) r = (r, copies, h) := by
  simp only [deepCopyFrom, hr]

/-! ## Objects and their copies -/

/-- A copy that is known by now, a function itself, or a new object with the same value. -/
inductive StandsFor (source : Heap) (copies : Copies) (h : Heap) (r c : Ref) : Prop where
  | known (hin : (r, c) ∈ copies)
  | shared {f : Funcref} (hr : source.value r = .funcref f) (hc : c = r)
  | plain (hr : (source.value r).isPlain = true) (hnew : source.size ≤ c.index)
      (hin : c.index < h.size) (hc : h.cell c = .fresh (source.value r))

/-- The copy of a container has items that stand for the items of the container. -/
def Finished (source : Heap) (copies : Copies) (h : Heap) (r c : Ref) : Prop :=
  ∃ found, h.cell c = .fresh ((source.value r).withChildren found) ∧
    List.Forall₂ (StandsFor source copies h) (source.value r).children found

/-- Nothing of the heap that is copied has changed, and only containers have copies, which are
new. -/
structure CopySound (source : Heap) (state : Copies × Heap) : Prop where
  heap : source.Extends state.2
  known : ∀ p ∈ state.1, (source.value p.1).isContainer = true ∧ source.size ≤ p.2.index ∧
    p.2.index < state.2.size

/-- A new container is known before it is finished. -/
theorem CopySound.announce (hsound : CopySound source (copies, h))
    (hr : (source.value r).isContainer = true) (v : Value) :
    CopySound source ((r, (h.new v).1) :: copies, (h.new v).2) := by
  refine ⟨hsound.heap.trans (.new h v), fun p hp => ?_⟩
  rw [size_new]
  rcases List.mem_cons.1 hp with rfl | hold
  · exact ⟨hr, hsound.heap.size, Nat.lt_succ_self _⟩
  · obtain ⟨hknown, hle, hlt⟩ := hsound.known p hold
    exact ⟨hknown, hle, Nat.lt_succ_of_lt hlt⟩

/-- Between the two states only new objects were made, and the copies that have become known are
finished. -/
structure CopySteps (source : Heap) (before after : Copies × Heap) : Prop where
  subset : before.1 ⊆ after.1
  heap : before.2.Extends after.2
  sound : CopySound source after
  finished : ∀ p ∈ after.1, p ∈ before.1 ∨
    before.2.size ≤ p.2.index ∧ Finished source after.1 after.2 p.1 p.2

theorem StandsFor.mono (hc : StandsFor source copies h r c) (hsub : copies ⊆ copies')
    (hsize : h.size ≤ h'.size)
    (hcell : ∀ c : Ref, c.index < h.size → (h.value c).isPlain = true → h'.cell c = h.cell c) :
    StandsFor source copies' h' r c := by
  cases hc with
  | known hin => exact .known (hsub hin)
  | shared hr hc => exact .shared hr hc
  | plain hr hnew hin hc =>
    have hplain : (h.value c).isPlain = true := by
      rw [value, hc]
      exact hr
    exact .plain hr hnew (Nat.lt_of_lt_of_le hin hsize) ((hcell c hin hplain).trans hc)

theorem Finished.mono (hc : Finished source copies h r c) (hsub : copies ⊆ copies')
    (hsize : h.size ≤ h'.size) (hself : h'.cell c = h.cell c)
    (hcell : ∀ c : Ref, c.index < h.size → (h.value c).isPlain = true → h'.cell c = h.cell c) :
    Finished source copies' h' r c := by
  obtain ⟨found, hfresh, hitems⟩ := hc
  exact ⟨found, hself.trans hfresh, hitems.imp fun _ _ hitem => hitem.mono hsub hsize hcell⟩

namespace CopySteps

variable {before between after : Copies × Heap}

theorem refl (hsound : CopySound source before) : CopySteps source before before where
  subset := List.Subset.refl _
  heap := .refl _
  sound := hsound
  finished _ hp := .inl hp

theorem trans (hfirst : CopySteps source before between)
    (hrest : CopySteps source between after) : CopySteps source before after := by
  refine ⟨List.Subset.trans hfirst.subset hrest.subset, hfirst.heap.trans hrest.heap,
    hrest.sound, fun p hp => ?_⟩
  rcases hrest.finished p hp with hknown | ⟨hnew, hfinished⟩
  · refine (hfirst.finished p hknown).imp_right fun ⟨hnew, hfinished⟩ => ⟨hnew, ?_⟩
    have hin : p.2.index < between.2.size := (hfirst.sound.known p hknown).2.2
    exact hfinished.mono hrest.subset hrest.heap.size (hrest.heap.cell p.2 hin)
      fun c hc _ => hrest.heap.cell c hc
  · exact .inr ⟨Nat.le_trans hfirst.heap.size hnew, hfinished⟩

theorem standsFor (hsteps : CopySteps source before after)
    (hc : StandsFor source before.1 before.2 r c) : StandsFor source after.1 after.2 r c :=
  hc.mono hsteps.subset hsteps.heap.size fun c hin _ => hsteps.heap.cell c hin

/-- The copies that are known do not become fewer. -/
theorem unseen_le (hsteps : CopySteps source before after) :
    source.unseen (after.1.map (·.1)) ≤ source.unseen (before.1.map (·.1)) :=
  unseen_le_of_subset rfl (List.map_subset _ hsteps.subset)

/-- A value without parts is copied at once. -/
theorem new_plain (hsound : CopySound source (copies, h))
    (hplain : (source.value r).isPlain = true) :
    CopySteps source (copies, h) (copies, (h.new (source.value r)).2) ∧
      StandsFor source copies (h.new (source.value r)).2 r (h.new (source.value r)).1 := by
  have hnew : h.Extends (h.new (source.value r)).2 := .new h _
  have hlast : h.size < (h.new (source.value r)).2.size := by
    rw [size_new]
    exact Nat.lt_succ_self _
  refine ⟨⟨List.Subset.refl _, hnew, ⟨hsound.heap.trans hnew, fun p hp => ?_⟩,
    fun p hp => .inl hp⟩, .plain hplain hsound.heap.size hlast (h.cell_new_self _)⟩
  obtain ⟨hcontainer, hle, hlt⟩ := hsound.known p hp
  exact ⟨hcontainer, hle, Nat.lt_trans hlt hlast⟩

end CopySteps

/-- What is asked of the copy of one object, with any fuel that is not used up. -/
structure CopiesOne (source : Heap) (fuel : Nat) (state : Copies × Heap) (r : Ref) : Prop where
  steps : CopySteps source state (deepCopyFrom fuel state r).2
  standsFor : StandsFor source (deepCopyFrom fuel state r).2.1 (deepCopyFrom fuel state r).2.2 r
    (deepCopyFrom fuel state r).1
  fuel_irrelevant : ∀ other, source.unseen (state.1.map (·.1)) < other →
    deepCopyFrom other state r = deepCopyFrom fuel state r

structure CopiesAll (source : Heap) (fuel : Nat) (state : Copies × Heap) (items : List Ref) :
    Prop where
  steps : CopySteps source state (copyEach (deepCopyFrom fuel) state items).2
  standsFor : List.Forall₂ (StandsFor source (copyEach (deepCopyFrom fuel) state items).2.1
    (copyEach (deepCopyFrom fuel) state items).2.2) items
    (copyEach (deepCopyFrom fuel) state items).1
  fuel_irrelevant : ∀ other, source.unseen (state.1.map (·.1)) < other →
    copyEach (deepCopyFrom other) state items = copyEach (deepCopyFrom fuel) state items

variable {state : Copies × Heap}

theorem copiesAll {items : List Ref}
    (hone : ∀ r ∈ items, ∀ state, CopySound source state →
      source.unseen (state.1.map (·.1)) < fuel → CopiesOne source fuel state r)
    (hsound : CopySound source state)
    (hfuel : items ≠ [] → source.unseen (state.1.map (·.1)) < fuel) :
    CopiesAll source fuel state items := by
  induction items generalizing state with
  | nil => exact ⟨.refl hsound, .nil, fun _ _ => rfl⟩
  | cons r rest ih =>
    have hleft := hfuel (List.cons_ne_nil r rest)
    have hfirst := hone r List.mem_cons_self state hsound hleft
    have hstill := Nat.lt_of_le_of_lt hfirst.steps.unseen_le hleft
    have hrest := ih (fun s hs => hone s (List.mem_cons_of_mem r hs)) hfirst.steps.sound
      fun _ => hstill
    refine ⟨hfirst.steps.trans hrest.steps,
      .cons (hrest.steps.standsFor hfirst.standsFor) hrest.standsFor, fun other hother => ?_⟩
    have hsame := hfirst.fuel_irrelevant other hother
    have hrestSame := hrest.fuel_irrelevant other
      (Nat.lt_of_le_of_lt hfirst.steps.unseen_le hother)
    simp only [copyEach, hsame, hrestSame]

/-- The items are copied while the new container is known but empty. When it takes them in, it is
finished, and nothing else has changed. -/
theorem CopySteps.close (hsound : CopySound source (copies, h)) {found : List Ref} {v : Value}
    (hv : v.isContainer = true)
    (hsteps : CopySteps source ((r, (h.new v).1) :: copies, (h.new v).2) (copies', h'))
    (hitems : List.Forall₂ (StandsFor source copies' h') (source.value r).children found) :
    CopySteps source (copies, h)
        (copies', h'.setValue (h.new v).1 ((source.value r).withChildren found)) ∧
      (r, (h.new v).1) ∈ copies' := by
  set c : Ref := (h.new v).1 with hc
  set filled := h'.setValue c ((source.value r).withChildren found) with hfilled
  have hin : c.index < h'.size := by
    have hle := hsteps.heap.size
    rw [size_new] at hle
    exact hle
  have hempty : h'.cell c = .fresh v := by
    rw [hsteps.heap.cell c (by rw [size_new]; exact Nat.lt_succ_self _)]
    exact h.cell_new_self v
  have hother (s : Ref) (hs : s ≠ c) : filled.cell s = h'.cell s :=
    (h'.cell_modifyCell c s _).resolve_right fun hnew => hs hnew.1
  have hself : filled.cell c = .fresh ((source.value r).withChildren found) := by
    rw [hfilled, setValue, h'.cell_modifyCell_self c _ hin, hempty]
    rfl
  have hsize : filled.size = h'.size := h'.size_setValue _ _
  -- the one object that changes is a container, so plain copies stay as they are
  have hplain (s : Ref) (_ : s.index < h'.size) (hs : (h'.value s).isPlain = true) :
      filled.cell s = h'.cell s := by
    refine hother s ?_
    rintro rfl
    rw [value, hempty] at hs
    exact Bool.false_ne_true ((Value.isPlain_eq_false_of_isContainer hv).symm.trans hs)
  have hextends : h.Extends filled := by
    have hmade : h.Extends h' := (Extends.new h v).trans hsteps.heap
    refine ⟨hsize ▸ hmade.size, fun s hs => ?_⟩
    refine (hother s ?_).trans (hmade.cell s hs)
    rintro rfl
    exact Nat.lt_irrefl _ hs
  refine ⟨⟨List.Subset.trans (List.subset_cons_self _ _) hsteps.subset, hextends,
    ⟨hsound.heap.trans hextends, fun p hp => ?_⟩, fun p hp => ?_⟩,
    hsteps.subset List.mem_cons_self⟩
  · obtain ⟨hcontainer, hle, hlt⟩ := hsteps.sound.known p hp
    exact ⟨hcontainer, hle, hsize.symm ▸ hlt⟩
  · rcases hsteps.finished p hp with hknown | ⟨hnew, hfinished⟩
    · rcases List.mem_cons.1 hknown with rfl | hold
      · refine .inr ⟨Nat.le_refl _, found, hself, hitems.imp fun _ _ hitem => ?_⟩
        exact hitem.mono (List.Subset.refl _) (Nat.le_of_eq hsize.symm) hplain
      · exact .inl hold
    · rw [size_new] at hnew
      have hne : p.2 ≠ c := by
        intro heq
        rw [heq] at hnew
        exact Nat.not_succ_le_self _ hnew
      exact .inr ⟨Nat.le_of_succ_le hnew,
        hfinished.mono (List.Subset.refl _) (Nat.le_of_eq hsize.symm) (hother p.2 hne) hplain⟩

theorem CopiesOne.of_eq {made : Ref} {after : Copies × Heap}
    (hrun : ∀ other, source.unseen (state.1.map (·.1)) < other →
      deepCopyFrom other state r = (made, after))
    (hfuel : source.unseen (state.1.map (·.1)) < fuel) (hsteps : CopySteps source state after)
    (hmade : StandsFor source after.1 after.2 r made) : CopiesOne source fuel state r := by
  have hown := hrun fuel hfuel
  refine ⟨?_, ?_, fun other hother => (hrun other hother).trans hown.symm⟩
  · rw [hown]
    exact hsteps
  · rw [hown]
    exact hmade

theorem not_mem_objects_of_lookup (hc : copies.lookup r = none) : r ∉ copies.map (·.1) := by
  intro hin
  obtain ⟨p, hp, rfl⟩ := List.mem_map.1 hin
  simpa using List.lookup_eq_none_iff.1 hc p hp

/-- Once a new container is known, less fuel is enough for its items. -/
theorem unseen_announce_lt (hr : (source.value r).isContainer = true)
    (hc : copies.lookup r = none) (hfuel : source.unseen (copies.map (·.1)) < fuel + 1) :
    source.unseen (r :: copies.map (·.1)) < fuel :=
  Nat.lt_of_lt_of_le (unseen_cons_lt (lt_size_of_isContainer hr) (not_mem_objects_of_lookup hc))
    (Nat.le_of_lt_succ hfuel)

/-- The induction is on the fuel, which exceeds the number of containers that are not known. -/
theorem copiesOne (hexists : ∀ s, source.Contains r s → s.index < source.size)
    (hsound : CopySound source state) (hfuel : source.unseen (state.1.map (·.1)) < fuel) :
    CopiesOne source fuel state r := by
  induction fuel generalizing state r with
  | zero => exact absurd hfuel (Nat.not_lt_zero _)
  | succ fuel ih =>
    obtain ⟨copies, h⟩ := state
    have hvalue : h.value r = source.value r := congrArg Cell.value
      (hsound.heap.cell r (hexists r .refl))
    have hrun {result : Ref × Copies × Heap}
        (hround : ∀ fuel', source.unseen (copies.map (·.1)) < fuel' + 1 →
          deepCopyFrom (fuel' + 1) (copies, h) r = result) (other : Nat)
        (hother : source.unseen (copies.map (·.1)) < other) :
        deepCopyFrom other (copies, h) r = result := by
      cases other with
      | zero => exact absurd hother (Nat.not_lt_zero _)
      | succ fuel' => exact hround fuel' hother
    have hplain (hr : (source.value r).isPlain = true) :
        CopiesOne source (fuel + 1) (copies, h) r := by
      obtain ⟨hsteps, hmade⟩ := CopySteps.new_plain hsound hr
      refine .of_eq (hrun fun fuel' _ => ?_) hfuel hsteps hmade
      rw [deepCopyFrom_of_isPlain (hvalue ▸ hr), hvalue]
    have hcontainer (hr : (source.value r).isContainer = true) :
        CopiesOne source (fuel + 1) (copies, h) r := by
      have hr' : (h.value r).isContainer = true := hvalue ▸ hr
      cases hc : copies.lookup r with
      | some c =>
        obtain ⟨before, after, rfl, -⟩ := List.lookup_eq_some_iff.1 hc
        exact .of_eq (hrun fun fuel' _ => deepCopyFrom_of_known hr' hc) hfuel (.refl hsound)
          (.known (by simp))
      | none =>
        have hall := copiesAll
          (fun s hs state hsound hfuel => ih (fun t ht => hexists t (.head hs ht)) hsound hfuel)
          (hsound.announce hr ((source.value r).withChildren []))
          fun _ => unseen_announce_lt hr hc hfuel
        obtain ⟨hsteps, hin⟩ := hall.steps.close hsound
          (Value.isContainer_withChildren hr []) hall.standsFor
        refine .of_eq (hrun fun fuel' hfuel' => ?_) hfuel hsteps (.known hin)
        rw [deepCopyFrom_of_unknown hr' hc, hvalue]
        dsimp only
        rw [hall.fuel_irrelevant fuel' (unseen_announce_lt hr hc hfuel')]
    cases hr : source.value r with
    | list | dictionary => exact hcontainer (by rw [hr]; rfl)
    | funcref f =>
      exact .of_eq (hrun fun fuel' _ => deepCopyFrom_of_funcref (hvalue.trans hr)) hfuel
        (.refl hsound) (.shared hr rfl)
    | _ => exact hplain (by rw [hr]; rfl)

/-! ## Duplicates -/

/-- A correspondence of objects with their duplicates, item by item: a function is its own
duplicate, and everything else has a new one, without a lock. -/
structure Duplicates (h h' : Heap) (R : Ref → Ref → Prop) : Prop where
  shared : ∀ {r c f}, R r c → h.value r = .funcref f → c = r
  made : ∀ {r c}, R r c → (∀ f, h.value r ≠ .funcref f) → h.size ≤ c.index ∧ c.index < h'.size ∧
    h'.isLocked c = false ∧
    ∃ found, h'.value c = (h.value r).withChildren found ∧
      List.Forall₂ R (h.value r).children found

namespace Duplicates

variable {R : Ref → Ref → Prop} (hdup : h.Duplicates h' R) (hextends : h.Extends h')

include hdup hextends

/-- What can be reached from a duplicate is a duplicate of what can be reached from the object. -/
theorem exists_of_contains (hc : R r c) (hs : h'.Contains c s) :
    ∃ t, h.Contains r t ∧ R t s := by
  induction hs with
  | refl => exact ⟨r, .refl, hc⟩
  | @tail s s' _ hs' ih =>
    obtain ⟨t, hreach, ht⟩ := ih
    by_cases hshared : ∃ f, h.value t = .funcref f
    · obtain ⟨f, hf⟩ := hshared
      obtain rfl := hdup.shared ht hf
      rw [hextends.value_eq (by rw [hf]; rfl), hf] at hs'
      cases hs'
    · obtain ⟨-, -, -, found, hvalue, hitems⟩ := hdup.made ht fun f hf => hshared ⟨f, hf⟩
      rw [hvalue] at hs'
      have hin : s' ∈ found := by
        cases hv : h.value t with
        | list | dictionary =>
          rw [hv] at hs'
          exact Value.mem_of_mem_children rfl hs'
        | _ =>
          rw [hv] at hs'
          cases hs'
      obtain ⟨t', ht', hrelated⟩ := exists_mem_of_forall₂ hitems.flip hin
      exact ⟨t', hreach.tail ht', hrelated⟩

/-- What can be reached from a duplicate is a function of the object, or it is new and not
locked. -/
theorem new_of_contains (hc : R r c) (hs : h'.Contains c s) :
    if (h'.value s).kind = .funcref then h.Contains r s
    else h.size ≤ s.index ∧ h'.isLocked s = false := by
  obtain ⟨t, hreach, ht⟩ := hdup.exists_of_contains hextends hc hs
  by_cases hshared : ∃ f, h.value t = .funcref f
  · obtain ⟨f, hf⟩ := hshared
    obtain rfl := hdup.shared ht hf
    have hvalue : h'.value s = .funcref f := (hextends.value_eq (by rw [hf]; rfl)).trans hf
    rw [if_pos (by rw [hvalue]; rfl)]
    exact hreach
  · obtain ⟨hnew, -, hfree, found, hvalue, -⟩ := hdup.made ht fun f hf => hshared ⟨f, hf⟩
    have hkind : (h'.value s).kind ≠ .funcref := by
      rw [hvalue]
      cases hv : h.value t with
      | funcref f => exact absurd ⟨f, hv⟩ hshared
      | _ => exact fun hkind => nomatch hkind
    rw [if_neg hkind]
    exact ⟨hnew, hfree⟩

omit hextends in
theorem within (root : Ref) : h.Duplicates h' fun r c => h.Contains root r ∧ R r c := by
  refine ⟨fun hc hf => hdup.shared hc.2 hf, fun {r c} hc hf => ?_⟩
  obtain ⟨hnew, hin, hfree, found, hvalue, hitems⟩ := hdup.made hc.2 hf
  exact ⟨hnew, hin, hfree, found, hvalue,
    (List.forall₂_and_left _ _).2 ⟨fun s hs => hc.1.tail hs, hitems⟩⟩

/-- Duplicates cannot be told from the objects, unless an object differs from itself. -/
theorem respects (ignoreCase : Bool)
    (hself : ∀ r c, R r c → r.index < h.size ∧ (h.value r).isNaN = false) :
    h'.Respects ignoreCase fun c r => R r c := by
  intro c r hc
  obtain ⟨hr, hnan⟩ := hself r c hc
  have hold : h'.value r = h.value r := congrArg Cell.value (hextends.cell r hr)
  by_cases hshared : ∃ f, h.value r = .funcref f
  · obtain ⟨f, hf⟩ := hshared
    obtain rfl := hdup.shared hc hf
    refine agrees_iff.2 ⟨rfl, ?_⟩
    rw [hold, hf]
    exact .inl rfl
  · obtain ⟨-, -, -, found, hvalue, hitems⟩ := hdup.made hc fun f hf => hshared ⟨f, hf⟩
    unfold Agrees
    rw [hvalue, hold]
    cases hv : h.value r with
    | funcref f => exact absurd ⟨f, hv⟩ hshared
    | number n => rfl
    | float x =>
      rw [hv] at hnan
      have hself : (x == x) = true := by simpa [Value.isNaN] using hnan
      exact hself
    | string s => cases ignoreCase <;> rfl
    | blob bytes => rfl
    | list items =>
      rw [hv] at hitems
      exact .inr hitems.flip
    | dictionary entries =>
      rw [hv] at hitems
      refine .inr ⟨fun key => ?_, fun key x y hx hy => Table.related_of_withValues hitems hy hx⟩
      rw [Table.keys_withValues hitems.length_eq.symm]

end Duplicates

/-- When the copy has come to its end, all that is known is finished. -/
theorem duplicates_of_copySteps (hsteps : CopySteps h ([], h) (copies, h')) :
    h.Duplicates h' (StandsFor h copies h') := by
  refine ⟨fun {r c f} hc hf => ?_, fun {r c} hc hf => ?_⟩
  · cases hc with
    | known hin => exact absurd hf (Value.ne_funcref_of_isContainer (hsteps.sound.known _ hin).1 f)
    | shared _ hc => exact hc
    | plain hr =>
      rw [hf] at hr
      cases hr
  · cases hc with
    | known hin =>
      obtain ⟨hnew, found, hcell, hitems⟩ :=
        (hsteps.finished _ hin).resolve_left List.not_mem_nil
      exact ⟨hnew, (hsteps.sound.known _ hin).2.2, congrArg Cell.locked hcell, found,
        congrArg Cell.value hcell, hitems⟩
    | shared hr => exact absurd hr (hf _)
    | plain hr hnew hin hcell =>
      refine ⟨hnew, hin, congrArg Cell.locked hcell, [], ?_, ?_⟩
      · rw [Value.withChildren_of_isPlain hr, value, hcell]
        rfl
      · rw [Value.children_of_isPlain hr]
        exact .nil

/-- A deep copy comes to its end, however much fuel above the number of objects it is given, and
changes nothing that existed. Its functions are those of the object that is copied, all else in it
is new and not locked, and it cannot be told from the object, unless that has a Float that differs
from itself. -/
theorem deepCopy_duplicates (h : Heap) (r : Ref)
    (hexists : ∀ s, h.Contains r s → s.index < h.size) :
    (∀ fuel, h.size < fuel → ∃ copies,
      deepCopyFrom fuel ([], h) r = ((h.deepCopy r).1, copies, (h.deepCopy r).2)) ∧
    h.Extends (h.deepCopy r).2 ∧
    (∃ R, h.Duplicates (h.deepCopy r).2 R ∧ R r (h.deepCopy r).1) ∧
    (∀ s, (h.deepCopy r).2.Contains (h.deepCopy r).1 s →
      if ((h.deepCopy r).2.value s).kind = .funcref then h.Contains r s
      else h.size ≤ s.index ∧ (h.deepCopy r).2.isLocked s = false) ∧
    ((∀ s, h.Contains r s → (h.value s).isNaN = false) →
      ∀ ignoreCase, (h.deepCopy r).2.equal ignoreCase (h.deepCopy r).1 r = true) := by
  have hfuel : h.unseen (([] : Copies).map (·.1)) ≤ h.size := by
    have hle := List.length_filter_le (fun n => (⟨n⟩ : Ref) ∉ ([] : List Ref)) (List.range h.size)
    rwa [List.length_range] at hle
  have hone : CopiesOne h (h.size + 1) ([], h) r :=
    copiesOne hexists ⟨.refl h, fun _ hp => nomatch hp⟩ (Nat.lt_succ_of_le hfuel)
  have hrun : deepCopyFrom (h.size + 1) ([], h) r = ((h.deepCopy r).1,
      (deepCopyFrom (h.size + 1) ([], h) r).2.1, (h.deepCopy r).2) := rfl
  set copies := (deepCopyFrom (h.size + 1) ([], h) r).2.1
  have hsteps : CopySteps h ([], h) (copies, (h.deepCopy r).2) := hone.steps
  have hcopy : StandsFor h copies (h.deepCopy r).2 r (h.deepCopy r).1 := hone.standsFor
  have hdup := (duplicates_of_copySteps hsteps).within r
  refine ⟨fun fuel hless => ⟨copies, ?_⟩, hsteps.heap, ⟨_, hdup, .refl, hcopy⟩,
    fun s hs => hdup.new_of_contains hsteps.heap ⟨.refl, hcopy⟩ hs, fun hnan ignoreCase => ?_⟩
  · exact (hone.fuel_irrelevant fuel (Nat.lt_of_le_of_lt hfuel hless)).trans hrun
  · exact equal_eq_true_iff.2 ⟨_, hdup.respects hsteps.heap ignoreCase fun t c ht =>
      ⟨hexists t ht.1, hnan t ht.1⟩, .refl, hcopy⟩

/-- A List that is its own item, next to a locked String and a function. -/
def selfHolding : Heap where
  cells := #[.fresh (.list [⟨0⟩, ⟨1⟩, ⟨2⟩]), ⟨.string "x", true, none, []⟩,
    .fresh (.funcref (.ofHandler (.builtin .len)))]

theorem lt_size_of_contains (hclosed : ∀ n < h.size, ∀ s ∈ (h.value ⟨n⟩).children,
    s.index < h.size) (hr : r.index < h.size) (hs : h.Contains r s) : s.index < h.size := by
  induction hs with
  | refl => exact hr
  | tail _ hs ih => exact hclosed _ ih _ hs

theorem deepCopy_duplicates_selfHolding :
    (∀ s, selfHolding.Contains ⟨0⟩ s → s.index < selfHolding.size) ∧
      (∀ s, selfHolding.Contains ⟨0⟩ s → (selfHolding.value s).isNaN = false) ∧
      (selfHolding.deepCopy ⟨0⟩).2.value (selfHolding.deepCopy ⟨0⟩).1 =
        .list [⟨3⟩, ⟨4⟩, ⟨2⟩] ∧
      (selfHolding.deepCopy ⟨0⟩).2.isLocked ⟨4⟩ = false ∧
      (selfHolding.deepCopy ⟨0⟩).2.equal false (selfHolding.deepCopy ⟨0⟩).1 ⟨0⟩ = true := by
  have hexists : ∀ s, selfHolding.Contains ⟨0⟩ s → s.index < selfHolding.size := fun s hs =>
    lt_size_of_contains (by decide) (by decide) hs
  have hnan : ∀ s, selfHolding.Contains ⟨0⟩ s → (selfHolding.value s).isNaN = false := by
    intro s hs
    have hall : ∀ n < selfHolding.size, (selfHolding.value ⟨n⟩).isNaN = false := by decide
    exact hall s.index (hexists s hs)
  exact ⟨hexists, hnan, rfl, rfl, (deepCopy_duplicates selfHolding ⟨0⟩ hexists).2.2.2.2 hnan false⟩

end Heap

end VimL
