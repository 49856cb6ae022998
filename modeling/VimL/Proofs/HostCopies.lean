import VimL.Library.Native
import VimL.Proofs.Encoding

/-!
# Copies by way of the host

What a script hands to the host comes back as a new value. On the way out every occurrence of a
container becomes data of its own; on the way in every piece of data becomes a new object. So the
value that comes back duplicates the one that was handed out, as a deep copy does, but nothing in it
is shared.
-/

namespace VimL

/-- The entries of a table with other values, in a table of their own. -/
theorem Table.ofList_zip {α β : Type} (t : Table α) (values : List β) :
    Table.ofList (t.keys.zip values) = t.withValues values := by
  have hentries : (Table.ofList (t.keys.zip values)).entries = t.keys.zip values :=
    entries_ofList (t.nodup.sublist (map_fst_zip_sublist t.keys values))
  cases htable : Table.ofList (t.keys.zip values) with
  | mk entries =>
    rw [htable] at hentries
    subst hentries
    rfl

namespace Heap

/-- Some correspondence of objects with their duplicates has this pair. -/
def HasDuplicate (h h' : Heap) (r c : Ref) : Prop := ∃ R, h.Duplicates h' R ∧ R r c

variable {h h' h'' : Heap} {r s c : Ref} {fuel : Nat} {path : List Ref}

namespace HasDuplicate

/-- Correspondences can be put together, and so there is a greatest one. -/
theorem duplicates (h h' : Heap) : h.Duplicates h' (h.HasDuplicate h') := by
  refine ⟨fun ⟨R, hdup, hc⟩ hf => hdup.shared hc hf, fun ⟨R, hdup, hc⟩ hf => ?_⟩
  obtain ⟨hnew, hin, hfree, found, hvalue, hitems⟩ := hdup.made hc hf
  exact ⟨hnew, hin, hfree, found, hvalue, hitems.imp fun s t hs => ⟨R, hdup, hs⟩⟩

theorem mono (hc : h.HasDuplicate h' r c) (hh : h'.Extends h'') : h.HasDuplicate h'' r c := by
  refine ⟨h.HasDuplicate h', ⟨(duplicates h h').shared, fun {r c} hc hf => ?_⟩, hc⟩
  obtain ⟨hnew, hin, hfree, found, hvalue, hitems⟩ := (duplicates h h').made hc hf
  have hcell : h''.cell c = h'.cell c := hh.cell c hin
  refine ⟨hnew, Nat.lt_of_lt_of_le hin hh.size, ?_, found, ?_, hitems⟩
  · exact (congrArg Cell.locked hcell).trans hfree
  · exact (congrArg Cell.value hcell).trans hvalue

theorem shared {f : Funcref} (hr : h.value r = .funcref f) : h.HasDuplicate h' r r := by
  refine ⟨fun s t => s = r ∧ t = r, ⟨fun ⟨hs, ht⟩ _ => ht.trans hs.symm, ?_⟩, rfl, rfl⟩
  rintro _ _ ⟨rfl, rfl⟩ hf
  exact absurd hr (hf f)

/-- A new object with duplicates of all items is a duplicate. -/
theorem new {h₁ : Heap} {found : List Ref} (hh : h.Extends h₁) (hr : ∀ f, h.value r ≠ .funcref f)
    (hitems : List.Forall₂ (h.HasDuplicate h₁) (h.value r).children found) :
    h.HasDuplicate (h₁.new ((h.value r).withChildren found)).2 r
      (h₁.new ((h.value r).withChildren found)).1 := by
  set v := (h.value r).withChildren found with hv
  have hcell := h₁.cell_new_self v
  have hlast : h₁.size < (h₁.new v).2.size := by
    rw [size_new]
    exact Nat.lt_succ_self _
  have hkept : List.Forall₂ (h.HasDuplicate (h₁.new v).2) (h.value r).children found :=
    hitems.imp fun _ _ hs => hs.mono (.new h₁ v)
  refine ⟨fun s t => h.HasDuplicate (h₁.new v).2 s t ∨ s = r ∧ t = (h₁.new v).1, ⟨?_, ?_⟩,
    .inr ⟨rfl, rfl⟩⟩
  · rintro s t f (hs | ⟨rfl, rfl⟩) hf
    · exact (duplicates h _).shared hs hf
    · exact absurd hf (hr f)
  · rintro s t (hs | ⟨rfl, rfl⟩) hf
    · obtain ⟨hnew, hin, hfree, items, hvalue, hrow⟩ := (duplicates h _).made hs hf
      exact ⟨hnew, hin, hfree, items, hvalue, hrow.imp fun _ _ hc => .inl hc⟩
    · exact ⟨hh.size, hlast, congrArg Cell.locked hcell, found, congrArg Cell.value hcell,
        hkept.imp fun _ _ hc => .inl hc⟩

end HasDuplicate

/-! ## Out to the host -/

theorem toHostFrom_of_funcref {f : Funcref} (hr : h.value r = .funcref f) :
    h.toHostFrom (fuel + 1) path r = .script r := by
  simp only [toHostFrom, hr]

theorem toHostFrom_of_list {items : List Ref} (hr : h.value r = .list items) (hnot : r ∉ path) :
    h.toHostFrom (fuel + 1) path r = .list (items.map (h.toHostFrom fuel (r :: path))) := by
  simp only [toHostFrom, hr, if_neg hnot]

theorem toHostFrom_of_dictionary {entries : Table Ref} (hr : h.value r = .dictionary entries)
    (hnot : r ∉ path) : h.toHostFrom (fuel + 1) path r =
      .dict ((entries.keys.map .text).zip
        (entries.values.map (h.toHostFrom fuel (r :: path)))) := by
  simp only [toHostFrom, hr, if_neg hnot, Table.keys, Table.values, List.map_map,
    List.zip_map']
  rfl

/-- Every object that can be reached exists and differs from its own parts, and every Number is in
its range. -/
structure Returns (h : Heap) (r : Ref) : Prop where
  exist : ∀ s, h.Contains r s → s.index < h.size
  acyclic : ∀ s, h.Contains r s → ¬h.Surrounds s s
  inRange : ∀ s n, h.Contains r s → h.value s = .number n → Number.InRange n

theorem Returns.child (hr : h.Returns r) (hs : s ∈ (h.value r).children) : h.Returns s where
  exist t ht := hr.exist t (.head hs ht)
  acyclic t ht := hr.acyclic t (.head hs ht)
  inRange t n ht := hr.inRange t n (.head hs ht)

/-- The data makes a duplicate of the object, and changes nothing else. -/
def MakesDuplicate (h : Heap) (r : Ref) (d : HostData) : Prop :=
  ∀ e : Engine, h.Extends e.heap → ∃ c e', d.toValue e = .ok c e' ∧ e.OnlyAdds e' ∧
    h.HasDuplicate e'.heap r c

end Heap

namespace HostData

open Run Heap

variable {h : Heap} {r s : Ref} {fuel : Nat} {path : List Ref} {d : HostData} {e : Engine}

/-! ## Back in -/

/-- The values of entries are made like items, and the keys are put to them. -/
theorem toEntries_texts {keys : List String} {data : List HostData}
    (hlength : keys.length = data.length) {found : List Ref} {e e' : Engine}
    (hfound : toValues data e = .ok found e') :
    toEntries ((keys.map .text).zip data) e = .ok (keys.zip found) e' := by
  induction keys generalizing data found e with
  | nil =>
    obtain rfl := List.length_eq_zero_iff.1 hlength.symm
    cases hfound
    rfl
  | cons key keys ih =>
    cases data with
    | nil => cases hlength
    | cons d rest =>
      obtain ⟨c, e₁, hc, hrest⟩ := of_bind_ok hfound
      obtain ⟨_, e₂, hhand, hrest⟩ := of_bind_ok hrest
      obtain ⟨tail, e₃, htail, hdone⟩ := of_bind_ok hrest
      cases hdone
      have hentries := ih (Nat.succ.inj hlength) htail
      rw [List.map_cons, List.zip_cons_cons, toEntries, bind_of_ok hc, bind_of_ok hhand,
        bind_of_ok hentries]
      rfl

theorem toValues_duplicates {convert : Ref → HostData} {items : List Ref}
    (hitems : ∀ s ∈ items, h.MakesDuplicate s (convert s)) (hh : h.Extends e.heap) :
    ∃ found e', toValues (items.map convert) e = .ok found e' ∧ e.OnlyAdds e' ∧
      List.Forall₂ (h.HasDuplicate e'.heap) items found := by
  induction items generalizing e with
  | nil => exact ⟨[], e, rfl, .refl e, .nil⟩
  | cons s rest ih =>
    obtain ⟨c, e₁, hc, hadds, hdup⟩ := hitems s List.mem_cons_self e hh
    set e₂ := { e₁ with handedOn := (convert s).handed ++ e₁.handedOn } with he₂
    have hhand : handOn (convert s).handed e₁ = .ok () e₂ := rfl
    have hmarked : e₁.OnlyAdds e₂ := ⟨.refl _, rfl⟩
    obtain ⟨found, e₃, hfound, hrest, hrow⟩ := ih (fun s hs => hitems s (List.mem_cons_of_mem _ hs))
      (hh.trans (hadds.trans hmarked).heap)
    refine ⟨c :: found, e₃, ?_, (hadds.trans hmarked).trans hrest,
      .cons (hdup.mono (hmarked.trans hrest).heap) hrow⟩
    rw [List.map_cons, toValues, bind_of_ok hc, bind_of_ok hhand, bind_of_ok hfound]
    rfl

theorem makesDuplicate_of_new (hr : ∀ f, h.value r ≠ .funcref f)
    (hd : ∀ e, h.Extends e.heap → ∃ found e', d.toValue e = new ((h.value r).withChildren found) e' ∧
      e.OnlyAdds e' ∧ List.Forall₂ (h.HasDuplicate e'.heap) (h.value r).children found) :
    h.MakesDuplicate r d := by
  intro e hh
  obtain ⟨found, e', hrun, hadds, hitems⟩ := hd e hh
  exact ⟨_, _, hrun, hadds.trans (.withHeap (.new e'.heap _)),
    .new (hh.trans hadds.heap) hr hitems⟩

theorem makesDuplicate_of_isPlain (hr : (h.value r).isPlain = true)
    (hd : ∀ e, d.toValue e = new (h.value r) e) : h.MakesDuplicate r d := by
  refine makesDuplicate_of_new (fun f hf => by rw [hf] at hr; cases hr) fun e _ => ?_
  refine ⟨[], e, ?_, .refl e, ?_⟩
  · rw [Value.withChildren_of_isPlain hr]
    exact hd e
  · rw [Value.children_of_isPlain hr]
    exact .nil

/-- The fuel and the containers that have been entered exceed the number of objects. -/
theorem makesDuplicate_toHostFrom (hr : h.Returns r) (hpath : h.Descends path r)
    (hfuel : h.size < fuel + path.length) : h.MakesDuplicate r (h.toHostFrom fuel path r) := by
  induction fuel generalizing path r with
  | zero =>
    have hle := hpath.length_le
    omega
  | succ fuel ih =>
    have hnot : r ∉ path := fun hin => hr.acyclic r .refl (hpath.surrounds r hin)
    -- one step down the fuel is one less and the path one longer, so their sum stays enough
    have hchild (hcontainer : (h.value r).isContainer = true) : ∀ s ∈ (h.value r).children,
        h.MakesDuplicate s (h.toHostFrom fuel (r :: path) s) := fun s hs =>
      ih (hr.child hs) (hpath.child hcontainer hnot hs) (by rw [List.length_cons]; omega)
    cases hv : h.value r with
    | number n =>
      refine makesDuplicate_of_isPlain (by rw [hv]; rfl) fun e => ?_
      simp only [hv, toHostFrom]
      exact congrArg (fun m => new (.number m) e) (Number.wrap_of_inRange (hr.inRange r n .refl hv))
    | float | string | blob =>
      refine makesDuplicate_of_isPlain (by rw [hv]; rfl) fun e => ?_
      simp only [hv, toHostFrom]
      rfl
    | funcref f =>
      rw [toHostFrom_of_funcref hv]
      exact fun e _ => ⟨r, e, rfl, .refl e, .shared hv⟩
    | list items =>
      rw [toHostFrom_of_list hv hnot]
      have hitems := hchild (by rw [hv]; rfl)
      refine makesDuplicate_of_new (fun f hf => by cases hv.symm.trans hf) fun e hh => ?_
      obtain ⟨found, e', hfound, hadds, hrow⟩ := toValues_duplicates hitems hh
      refine ⟨found, e', ?_, hadds, hrow⟩
      rw [hv] at hfound ⊢
      rw [toValue]
      exact bind_of_ok hfound
    | dictionary entries =>
      rw [toHostFrom_of_dictionary hv hnot]
      have hitems := hchild (by rw [hv]; rfl)
      refine makesDuplicate_of_new (fun f hf => by cases hv.symm.trans hf) fun e hh => ?_
      obtain ⟨found, e', hfound, hadds, hrow⟩ := toValues_duplicates hitems hh
      refine ⟨found, e', ?_, hadds, hrow⟩
      rw [hv] at hfound ⊢
      have hlength : entries.keys.length =
          ((Value.dictionary entries).children.map (h.toHostFrom fuel (r :: path))).length := by
        simp [Value.children, Table.keys, Table.values]
      rw [toValue, Value.withChildren, ← Table.ofList_zip]
      exact bind_of_ok (toEntries_texts hlength hfound)

end HostData

/-! ## There and back -/

namespace Heap

/-- An object of the second heap stands apart from one of the first heap that it is equal to: it
duplicates that object item by item and key by key, and everything in it is new and not locked,
except that functions are those of the object. Nothing of the first heap has changed. -/
structure IndependentCopy (h h' : Heap) (r c : Ref) : Prop where
  kept : h.Extends h'
  duplicate : ∃ R, h.Duplicates h' R ∧ R r c
  apart : ∀ s, h'.Contains c s →
    if (h'.value s).kind = .funcref then h.Contains r s
    else h.size ≤ s.index ∧ h'.isLocked s = false
  equal : ∀ ignoreCase, h'.equal ignoreCase c r = true

variable {h h' : Heap} {r c : Ref}

theorem HasDuplicate.independentCopy (hc : h.HasDuplicate h' r c) (hextends : h.Extends h')
    (hexists : ∀ s, h.Contains r s → s.index < h.size)
    (hnan : ∀ s, h.Contains r s → (h.value s).isNaN = false) : h.IndependentCopy h' r c := by
  obtain ⟨R, hdup, hrc⟩ := hc
  have hwithin := hdup.within r
  exact ⟨hextends, ⟨R, hdup, hrc⟩, fun s hs => hdup.new_of_contains hextends hrc hs,
    fun ignoreCase => equal_eq_true_iff.2 ⟨_, hwithin.respects hextends ignoreCase fun t c ht =>
      ⟨hexists t ht.1, hnan t ht.1⟩, .refl, hrc⟩⟩

/-- Nothing lies in itself where items are newer than what they are in. -/
theorem not_surrounds_self (hnewer : ∀ n < h.size, ∀ s ∈ (h.value ⟨n⟩).children, n < s.index)
    (r : Ref) : ¬h.Surrounds r r := by
  have hlt {r s : Ref} (hs : h.Surrounds r s) : r.index < s.index := by
    have hstep {r s : Ref} (hs : s ∈ (h.value r).children) : r.index < s.index :=
      hnewer r.index (lt_size_of_children_ne_nil (List.ne_nil_of_mem hs)) s hs
    induction hs with
    | single hs => exact hstep hs
    | tail _ hs ih => exact Nat.lt_trans ih (hstep hs)
  exact fun hself => Nat.lt_irrefl _ (hlt hself)

end Heap

namespace Library

open Run

variable {e : Engine} {r : Ref}

theorem runHosted_of_returns {f : HostFunction} (env : NativeEnv) (r : Ref) (e : Engine)
    (hcopies : f.copies = true) (hreturns : ∀ caller d, (f.run caller [d]).result = some d) :
    ∃ e₁ : Engine, e₁.heap = e.heap ∧ runHosted env f [r] e = (e.heap.toHost r).toValue e₁ := by
  unfold runHosted
  rw [Run.bind_of_ok (Run.get_eq e)]
  simp only [List.map_cons, List.map_nil, hcopies, if_true, hreturns]
  -- the host may ask for a cancellation, which leaves the heap alone
  split
  · exact ⟨e.requestCancel, rfl, rfl⟩
  · exact ⟨e, rfl, rfl⟩

/-- The data that a value is handed out as makes an independent copy of it, if nothing in the value
lies in itself or is a Float that differs from itself. So a function of the host that returns what
it is given returns an independent copy. -/
theorem hosted_copies (hexists : ∀ s, e.heap.Contains r s → s.index < e.heap.size)
    (hrange : ∀ s n, e.heap.Contains r s → e.heap.value s = .number n → Number.InRange n)
    (hacyclic : ∀ s, e.heap.Contains r s → ¬e.heap.Surrounds s s)
    (hnan : ∀ s, e.heap.Contains r s → (e.heap.value s).isNaN = false) :
    (∃ c e', (e.heap.toHost r).toValue e = .ok c e' ∧ e.OnlyAdds e' ∧
      e.heap.IndependentCopy e'.heap r c) ∧
    ∀ (env : NativeEnv) (f : HostFunction), f.copies = true →
      (∀ caller d, (f.run caller [d]).result = some d) →
        ∃ c e', runHosted env f [r] e = .ok c e' ∧ e.heap.IndependentCopy e'.heap r c := by
  have hmakes : e.heap.MakesDuplicate r (e.heap.toHost r) :=
    HostData.makesDuplicate_toHostFrom ⟨hexists, hacyclic, hrange⟩ (.nil e.heap r)
      (Nat.lt_succ_self e.heap.size)
  refine ⟨?_, fun env f hcopies hreturns => ?_⟩
  · obtain ⟨c, e', hrun, hadds, hdup⟩ := hmakes e (.refl e.heap)
    exact ⟨c, e', hrun, hadds, hdup.independentCopy hadds.heap hexists hnan⟩
  · obtain ⟨e₁, hheap, hrun⟩ := runHosted_of_returns env r e hcopies hreturns
    obtain ⟨c, e', hmade, hadds, hdup⟩ := hmakes e₁ (hheap ▸ .refl e.heap)
    exact ⟨c, e', hrun.trans hmade,
      hdup.independentCopy (hheap ▸ hadds.heap) hexists hnan⟩

/-- A function of the host that returns what it is given. -/
def echo : HostFunction where
  name := "echo"
  arity := ⟨1, some 1⟩
  copies := true
  run _ data := ⟨false, data.head?⟩

def echoingEnv : NativeEnv :=
  ⟨⟨[echo]⟩, .commandLine, (Interp.ofFuel ⟨[echo]⟩ 0).call .commandLine⟩

/-- A List that holds a Dictionary twice, and an object of every other kind. -/
def everyKind : Engine :=
  (Session.blank .standard).withHeap
    ⟨#[.fresh (.list [⟨1⟩, ⟨1⟩, ⟨2⟩, ⟨3⟩, ⟨4⟩, ⟨5⟩]),
      .fresh (.dictionary (.ofList [("b", ⟨2⟩), ("a", ⟨6⟩)])), .fresh (.number 7),
      .fresh (.float 1.5), .fresh (.blob [1, 2]), .fresh (.funcref (.ofHandler (.builtin .len))),
      .fresh (.string "x")]⟩

theorem hosted_copies_everyKind :
    (∀ s, everyKind.heap.Contains ⟨0⟩ s → ¬everyKind.heap.Surrounds s s ∧
      (everyKind.heap.value s).isNaN = false) ∧
    ∃ c e', runHosted echoingEnv echo [⟨0⟩] everyKind = .ok c e' ∧
      everyKind.heap.IndependentCopy e'.heap ⟨0⟩ c := by
  have hexists : ∀ s, everyKind.heap.Contains ⟨0⟩ s → s.index < everyKind.heap.size := fun s hs =>
    Heap.lt_size_of_contains (by decide) (by decide) hs
  have hdown : ∀ n < everyKind.heap.size, ∀ s ∈ (everyKind.heap.value ⟨n⟩).children,
      n < s.index := by decide
  have hnan : ∀ s, everyKind.heap.Contains ⟨0⟩ s → (everyKind.heap.value s).isNaN = false := by
    have hall : ∀ n < everyKind.heap.size, (everyKind.heap.value ⟨n⟩).isNaN = false := by
      decide +kernel
    exact fun s hs => hall s.index (hexists s hs)
  have hrange : ∀ s n, everyKind.heap.Contains ⟨0⟩ s → everyKind.heap.value s = .number n →
      Number.InRange n := by
    intro s n hs hv
    have hothers : ∀ k < everyKind.heap.size, k ≠ 2 →
        (everyKind.heap.value ⟨k⟩).kind ≠ .number := by decide
    obtain ⟨k⟩ := s
    by_cases hk : k = 2
    · subst hk
      obtain rfl : 7 = n := Value.number.inj hv
      decide
    · exact absurd (by rw [hv]; rfl) (hothers k (hexists ⟨k⟩ hs) hk)
  have hacyclic : ∀ s, everyKind.heap.Contains ⟨0⟩ s → ¬everyKind.heap.Surrounds s s :=
    fun s _ => Heap.not_surrounds_self hdown s
  refine ⟨fun s hs => ⟨hacyclic s hs, hnan s hs⟩, ?_⟩
  exact (hosted_copies hexists hrange hacyclic hnan).2 echoingEnv echo rfl fun _ _ => rfl

end Library

end VimL
