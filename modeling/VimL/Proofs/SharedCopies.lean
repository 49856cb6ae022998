import VimL.Proofs.DeepCopies

/-!
# What deep copies share

A List or a Dictionary that is met twice in a deep copy is copied once. So two ways through the
copy lead to one container where they do so in the object that is copied. What has no items is
copied anew wherever it is met: ways that lead to one Blob lead to one copy of it if they come to
it through the same item of the same container, and to different copies otherwise.
-/

namespace VimL

/-- What an item of a List, or an entry of a Dictionary, is found by. -/
inductive ItemName where
  | position (i : Nat)
  | key (name : String)
  deriving DecidableEq

namespace Table

variable {α β : Type} {t : Table α} {values : List β}

theorem rel_find?_withValues {R : α → β → Prop} (hR : List.Forall₂ R t.values values)
    (name : String) : Option.Rel R (t.find? name) ((t.withValues values).find? name) := by
  have hkeys : (t.withValues values).keys = t.keys := keys_withValues hR.length_eq.symm
  cases ha : t.find? name with
  | some a =>
    have hkey : name ∈ (t.withValues values).keys := hkeys ▸ mem_keys_iff.2 ⟨a, ha⟩
    obtain ⟨b, hb⟩ := mem_keys_iff.1 hkey
    rw [hb]
    exact .some (related_of_withValues hR ha hb)
  | none =>
    cases hb : (t.withValues values).find? name with
    | none => exact .none
    | some b =>
      obtain ⟨a, hsome⟩ := mem_keys_iff.1 (hkeys ▸ mem_keys_iff.2 ⟨b, hb⟩)
      rw [ha] at hsome
      cases hsome

end Table

namespace Value

def item? : Value → ItemName → Option Ref
  | .list items, .position i => items[i]?
  | .dictionary entries, .key name => entries.find? name
  | _, _ => none

/-- What the items are found by, in their order. -/
def itemNames : Value → List ItemName
  | .list items => (List.range items.length).map .position
  | .dictionary entries => entries.keys.map .key
  | _ => []

theorem isPlain_eq_of_kind_eq {v w : Value} (hkind : v.kind = w.kind) :
    v.isPlain = w.isPlain := by
  cases v <;> cases w <;> first | rfl | cases hkind

theorem isContainer_eq_of_kind_eq {v w : Value} (hkind : v.kind = w.kind) :
    v.isContainer = w.isContainer := by
  cases v <;> cases w <;> first | rfl | cases hkind

theorem exists_funcref_of_kind_eq {v : Value} (hkind : v.kind = .funcref) :
    ∃ f, v = .funcref f := by
  cases v with
  | funcref f => exact ⟨f, rfl⟩
  | _ => cases hkind

variable {v : Value} {i j : ItemName} {s : Ref}

theorem exists_position (hs : v.item? i = some s) :
    ∃ n : Nat, v.itemNames[n]? = some i ∧ v.children[n]? = some s := by
  cases v with
  | list items =>
    cases i with
    | position i =>
      obtain ⟨hi, -⟩ := List.getElem?_eq_some_iff.1 hs
      refine ⟨i, ?_, hs⟩
      simp [itemNames, List.getElem?_range hi]
    | key => cases hs
  | dictionary entries =>
    cases i with
    | position => cases hs
    | key name =>
      obtain ⟨n, hn⟩ := List.mem_iff_getElem?.1 (Table.find?_eq_some_iff.1 hs)
      refine ⟨n, ?_, ?_⟩
      · simp [itemNames, Table.keys, hn]
      · simp [children, Table.values, hn]
  | _ => cases hs

theorem isContainer_of_item? (hs : v.item? i = some s) : v.isContainer = true := by
  cases v with
  | list | dictionary => rfl
  | _ => cases hs

theorem children_withChildren (hv : v.isContainer = true) {found : List Ref}
    (hlength : v.children.length = found.length) : (v.withChildren found).children = found := by
  cases v with
  | list => rfl
  | dictionary entries =>
    refine List.map_snd_zip (Nat.le_of_eq ?_)
    rw [← hlength]
    simp [children, Table.keys, Table.values]
  | _ => cases hv

theorem rel_item?_withChildren {R : Ref → Ref → Prop} {found : List Ref}
    (hR : List.Forall₂ R v.children found) (i : ItemName) :
    Option.Rel R (v.item? i) ((v.withChildren found).item? i) := by
  cases v with
  | list items =>
    cases i with
    | position i =>
      by_cases hi : i < items.length
      · have hi' : i < found.length := hR.length_eq ▸ hi
        simp only [item?, withChildren, List.getElem?_eq_getElem hi, List.getElem?_eq_getElem hi']
        exact .some (hR.get hi hi')
      · have hi' : ¬i < found.length := hR.length_eq ▸ hi
        simp only [item?, withChildren, List.getElem?_eq_none (Nat.le_of_not_lt hi),
          List.getElem?_eq_none (Nat.le_of_not_lt hi')]
        exact .none
    | key => exact .none
  | dictionary entries =>
    cases i with
    | position => exact .none
    | key name => exact Table.rel_find?_withValues hR name
  | _ => cases i <;> exact .none

end Value

namespace Heap

/-- What a way from item to item leads to. -/
def at? (h : Heap) : Ref → List ItemName → Option Ref
  | r, [] => some r
  | r, i :: path => ((h.value r).item? i).bind fun s => h.at? s path

variable {source h h' : Heap} {copies copies' : Copies} {fuel : Nat} {r s c x : Ref}
  {p q : List ItemName}

theorem at?_concat (p : List ItemName) (i : ItemName) :
    h.at? r (p ++ [i]) = (h.at? r p).bind fun x => (h.value x).item? i := by
  induction p generalizing r with
  | nil =>
    rw [List.nil_append, at?, at?, Option.bind_some]
    exact Option.bind_fun_some _
  | cons j p ih =>
    rw [List.cons_append, at?, at?, Option.bind_assoc]
    exact Option.bind_congr fun s _ => ih

/-- A duplicate has an item where the object has one, and they are duplicates again. -/
theorem Duplicates.rel_item? {R : Ref → Ref → Prop} (hdup : h.Duplicates h' R)
    (hextends : h.Extends h') (hc : R r c) (i : ItemName) :
    Option.Rel R ((h.value r).item? i) ((h'.value c).item? i) := by
  by_cases hshared : ∃ f, h.value r = .funcref f
  · obtain ⟨f, hf⟩ := hshared
    obtain rfl := hdup.shared hc hf
    rw [hextends.value_eq (by rw [hf]; rfl), hf]
    exact .none
  · obtain ⟨-, -, -, found, hvalue, hitems⟩ := hdup.made hc fun f hf => hshared ⟨f, hf⟩
    rw [hvalue]
    exact Value.rel_item?_withChildren hitems i

theorem Duplicates.rel_at? {R : Ref → Ref → Prop} (hdup : h.Duplicates h' R)
    (hextends : h.Extends h') (hc : R r c) (p : List ItemName) :
    Option.Rel R (h.at? r p) (h'.at? c p) := by
  induction p generalizing r c with
  | nil => exact .some hc
  | cons i p ih =>
    rw [at?, at?]
    have hitem := hdup.rel_item? hextends hc i
    generalize (h.value r).item? i = s, (h'.value c).item? i = s' at hitem ⊢
    cases hitem with
    | some hs => exact ih hs
    | none => exact .none

/-! ## Places of the copies -/

/-- Every object has one copy, and no two have the same. Copies are containers. -/
structure KnownOnce (state : Copies × Heap) : Prop where
  objects : (state.1.map (·.1)).Nodup
  copies : (state.1.map (·.2)).Nodup
  container : ∀ p ∈ state.1, (state.2.value p.2).isContainer = true

/-- What has been found, and the items of the copies that have become known. -/
def places (h : Heap) (made : Copies) (found : List Ref) : List Ref :=
  found ++ made.flatMap fun p => (h.value p.2).children

/-- These copies have become known. What has been made for itself is in one place. -/
structure Makes (before after : Copies × Heap) (made : Copies) (found : List Ref) : Prop where
  eq : after.1 = made ++ before.1
  once : KnownOnce after
  inside : ∀ s ∈ after.2.places made found, s.index < after.2.size
  fresh : ∀ s ∈ after.2.places made found, (after.2.value s).isPlain = true →
    before.2.size ≤ s.index
  apart : ((after.2.places made found).filter fun s => (after.2.value s).isPlain).Nodup

namespace Makes

variable {before between after : Copies × Heap} {made made' : Copies} {found found' : List Ref}

theorem nil (hknown : KnownOnce before) : Makes before before [] [] where
  eq := rfl
  once := hknown
  inside _ hs := absurd hs List.not_mem_nil
  fresh _ hs := absurd hs List.not_mem_nil
  apart := .nil

/-- Nothing is made for an object that is its own copy, or that has one. -/
theorem shared (hknown : KnownOnce before) (hin : c.index < before.2.size)
    (hplain : (before.2.value c).isPlain = false) : Makes before before [] [c] where
  eq := rfl
  once := hknown
  inside s hs := by
    obtain rfl := List.mem_singleton.1 hs
    exact hin
  fresh s hs hs' := by
    obtain rfl := List.mem_singleton.1 hs
    rw [hplain] at hs'
    cases hs'
  apart := by simp [places, hplain]

theorem new (hknown : KnownOnce (copies, h)) (hinside : ∀ p ∈ copies, p.2.index < h.size)
    (v : Value) : Makes (copies, h) (copies, (h.new v).2) [] [(h.new v).1] where
  eq := rfl
  once := by
    refine ⟨hknown.objects, hknown.copies, fun p hp => ?_⟩
    have hvalue : (h.new v).2.value p.2 = h.value p.2 :=
      congrArg Cell.value ((Extends.new h v).cell p.2 (hinside p hp))
    rw [hvalue]
    exact hknown.container p hp
  inside s hs := by
    obtain rfl := List.mem_singleton.1 hs
    rw [size_new]
    exact Nat.lt_succ_self _
  fresh s hs _ := by
    obtain rfl := List.mem_singleton.1 hs
    exact Nat.le_refl _
  apart := (List.nodup_singleton _).filter _

/-- What is made later is not in a place that was there before. -/
theorem trans (hfirst : Makes before between made found) (hrest : Makes between after made' found')
    (hsize : before.2.size ≤ between.2.size) (hextends : between.2.Extends after.2)
    (hinside : ∀ p ∈ made, p.2.index < between.2.size) :
    Makes before after (made' ++ made) (found ++ found') := by
  have hvalue {s : Ref} (hs : s.index < between.2.size) : after.2.value s = between.2.value s :=
    congrArg Cell.value (hextends.cell s hs)
  have hold : after.2.places made found = between.2.places made found := by
    unfold places
    congr 1
    exact List.flatMap_congr fun p hp => by rw [hvalue (hinside p hp)]
  have hperm : (after.2.places (made' ++ made) (found ++ found')).Perm
      (between.2.places made found ++ after.2.places made' found') := by
    rw [← hold]
    unfold places
    rw [List.flatMap_append]
    grind
  constructor
  case eq => rw [hrest.eq, hfirst.eq, List.append_assoc]
  case once => exact hrest.once
  case inside =>
    intro s hs
    rcases List.mem_append.1 (hperm.mem_iff.1 hs) with hs | hs
    · exact Nat.lt_of_lt_of_le (hfirst.inside s hs) hextends.size
    · exact hrest.inside s hs
  case fresh =>
    intro s hs hplain
    rcases List.mem_append.1 (hperm.mem_iff.1 hs) with hs | hs
    · rw [hvalue (hfirst.inside s hs)] at hplain
      exact hfirst.fresh s hs hplain
    · exact Nat.le_trans hsize (hrest.fresh s hs hplain)
  case apart =>
    rw [(hperm.filter _).nodup_iff, List.filter_append, List.nodup_append]
    refine ⟨?_, hrest.apart, fun s hs t ht => ?_⟩
    · rw [List.filter_congr fun s hs => by rw [hvalue (hfirst.inside s hs)]]
      exact hfirst.apart
    · rintro rfl
      have hlt := hfirst.inside s (List.mem_of_mem_filter hs)
      have hle := hrest.fresh s (List.mem_of_mem_filter ht) (List.mem_filter.1 ht).2
      exact Nat.not_lt_of_le hle hlt

end Makes

theorem KnownOnce.announce (hknown : KnownOnce (copies, h))
    (hinside : ∀ p ∈ copies, p.2.index < h.size) (hnew : r ∉ copies.map (·.1)) {v : Value}
    (hv : v.isContainer = true) : KnownOnce ((r, (h.new v).1) :: copies, (h.new v).2) := by
  constructor
  case objects => exact List.nodup_cons.2 ⟨hnew, hknown.objects⟩
  case copies =>
    refine List.nodup_cons.2 ⟨fun hin => ?_, hknown.copies⟩
    obtain ⟨p, hp, heq⟩ := List.mem_map.1 hin
    have hlt := hinside p hp
    rw [heq] at hlt
    exact Nat.lt_irrefl _ hlt
  case container =>
    intro p hp
    rcases List.mem_cons.1 hp with rfl | hold
    · have hvalue : (h.new v).2.value (h.new v).1 = v := congrArg Cell.value (h.cell_new_self v)
      rw [hvalue]
      exact hv
    · exact (Makes.new hknown hinside v).once.container p hold

theorem perm_places_setValue {made : Copies} {found : List Ref} {v : Value} (hc : c.index < h.size)
    (hv : v.children = found) (hmade : ∀ p ∈ made, p.2 ≠ c) :
    ((h.setValue c v).places (made ++ [(r, c)]) [c]).Perm (c :: h.places made found) := by
  have hsame : (made.flatMap fun p => ((h.setValue c v).value p.2).children) =
      made.flatMap fun p => (h.value p.2).children :=
    List.flatMap_congr fun p hp => by rw [h.value_setValue_of_ne v (hmade p hp)]
  unfold places
  rw [List.flatMap_append, hsame, List.flatMap_singleton, h.value_setValue_self v hc, hv]
  grind

/-- When a container takes its items in, what has been found gets its place in it. -/
theorem Makes.close {found : List Ref} {made : Copies} {v : Value}
    (hr : (source.value r).isContainer = true)
    (hmakes : Makes ((r, (h.new v).1) :: copies, (h.new v).2) (copies', h') made found)
    (hextends : (h.new v).2.Extends h')
    (hlength : (source.value r).children.length = found.length) :
    Makes (copies, h) (copies', h'.setValue (h.new v).1 ((source.value r).withChildren found))
      (made ++ [(r, (h.new v).1)]) [(h.new v).1] := by
  set c : Ref := (h.new v).1
  set filled := h'.setValue c ((source.value r).withChildren found) with hfilled
  have hcopies : copies' = made ++ (r, c) :: copies := hmakes.eq
  have hin : c.index < h'.size := by
    have hle := hextends.size
    rw [size_new] at hle
    exact hle
  have hsize : filled.size = h'.size := h'.size_setValue _ _
  have hother {s : Ref} (hs : s ≠ c) : filled.value s = h'.value s := h'.value_setValue_of_ne _ hs
  have hfull : (filled.value c).isContainer = true := by
    rw [hfilled, h'.value_setValue_self _ hin]
    exact Value.isContainer_withChildren hr found
  have hempty : (h'.value c).isContainer = true :=
    hmakes.once.container (r, c) (by simp [hcopies])
  -- no container becomes plain or stops being so, not even the one that takes its items in
  have hplain (s : Ref) : (filled.value s).isPlain = (h'.value s).isPlain := by
    by_cases hs : s = c
    · rw [hs, Value.isPlain_eq_false_of_isContainer hfull,
        Value.isPlain_eq_false_of_isContainer hempty]
    · rw [hother hs]
  have hne (p : Ref × Ref) (hp : p ∈ made) : p.2 ≠ c := by
    have hnodup := hmakes.once.copies
    rw [hcopies, List.map_append, List.map_cons, List.nodup_append] at hnodup
    exact hnodup.2.2 p.2 (List.mem_map_of_mem hp) c List.mem_cons_self
  have hperm : (filled.places (made ++ [(r, c)]) [c]).Perm (c :: h'.places made found) :=
    perm_places_setValue hin (Value.children_withChildren hr hlength) hne
  have hcases {s : Ref} (hs : s ∈ filled.places (made ++ [(r, c)]) [c]) :
      s = c ∨ s ∈ h'.places made found := List.mem_cons.1 (hperm.mem_iff.1 hs)
  constructor
  case eq => rw [List.append_assoc]; exact hmakes.eq
  case once =>
    refine ⟨hmakes.once.objects, hmakes.once.copies, fun p hp => ?_⟩
    by_cases hs : p.2 = c
    · rw [hs]
      exact hfull
    · rw [hother hs]
      exact hmakes.once.container p hp
  case inside =>
    intro s hs
    rw [hsize]
    rcases hcases hs with rfl | hs
    · exact hin
    · exact hmakes.inside s hs
  case fresh =>
    intro s hs hs'
    rw [hplain] at hs'
    rcases hcases hs with rfl | hs
    · exact Nat.le_refl _
    · have hle := hmakes.fresh s hs hs'
      rw [size_new] at hle
      exact Nat.le_of_succ_le hle
  case apart =>
    rw [(hperm.filter _).nodup_iff, List.filter_cons_of_neg (by
      rw [Value.isPlain_eq_false_of_isContainer hfull]
      exact Bool.false_ne_true)]
    simp only [hplain]
    exact hmakes.apart

theorem makesAll {items : List Ref} {state : Copies × Heap}
    (hexists : ∀ r ∈ items, ∀ s, source.Contains r s → s.index < source.size)
    (hone : ∀ r ∈ items, ∀ state, CopySound source state → KnownOnce state →
      source.unseen (state.1.map (·.1)) < fuel →
      ∃ made, Makes state (deepCopyFrom fuel state r).2 made [(deepCopyFrom fuel state r).1])
    (hsound : CopySound source state) (hknown : KnownOnce state)
    (hfuel : items ≠ [] → source.unseen (state.1.map (·.1)) < fuel) :
    ∃ made, Makes state (copyEach (deepCopyFrom fuel) state items).2 made
      (copyEach (deepCopyFrom fuel) state items).1 := by
  induction items generalizing state with
  | nil => exact ⟨[], .nil hknown⟩
  | cons r rest ih =>
    have hleft := hfuel (List.cons_ne_nil r rest)
    have hsteps := (copiesOne (hexists r List.mem_cons_self) hsound hleft).steps
    have hstill := Nat.lt_of_le_of_lt hsteps.unseen_le hleft
    obtain ⟨made, hfirst⟩ := hone r List.mem_cons_self state hsound hknown hleft
    have hexists' (s : Ref) (hs : s ∈ rest) := hexists s (List.mem_cons_of_mem r hs)
    have hextends := (copiesAll (fun s hs state hsound hfuel =>
      copiesOne (hexists' s hs) hsound hfuel) hsteps.sound fun _ => hstill).steps.heap
    obtain ⟨made', hrest⟩ := ih hexists' (fun s hs => hone s (List.mem_cons_of_mem r hs))
      hsteps.sound hfirst.once fun _ => hstill
    refine ⟨made' ++ made, hfirst.trans hrest hsteps.heap.size hextends fun p hp => ?_⟩
    have hp' := hsteps.sound.known p (hfirst.eq ▸ List.mem_append_left _ hp)
    exact hp'.2.2

/-- The induction is on the fuel. A container that becomes known is not known yet. -/
theorem makesOne {state : Copies × Heap}
    (hexists : ∀ s, source.Contains r s → s.index < source.size)
    (hsound : CopySound source state) (hknown : KnownOnce state)
    (hfuel : source.unseen (state.1.map (·.1)) < fuel) :
    ∃ made, Makes state (deepCopyFrom fuel state r).2 made [(deepCopyFrom fuel state r).1] := by
  induction fuel generalizing state r with
  | zero => exact absurd hfuel (Nat.not_lt_zero _)
  | succ fuel ih =>
    obtain ⟨copies, h⟩ := state
    have hvalue : h.value r = source.value r := congrArg Cell.value
      (hsound.heap.cell r (hexists r .refl))
    have hinside (p : Ref × Ref) (hp : p ∈ copies) : p.2.index < h.size :=
      (hsound.known p hp).2.2
    have hplain (hr : (source.value r).isPlain = true) :
        ∃ made, Makes (copies, h) (deepCopyFrom (fuel + 1) (copies, h) r).2 made
          [(deepCopyFrom (fuel + 1) (copies, h) r).1] := by
      rw [deepCopyFrom_of_isPlain (hvalue ▸ hr)]
      exact ⟨[], .new hknown hinside _⟩
    have hcontainer (hr : (source.value r).isContainer = true) :
        ∃ made, Makes (copies, h) (deepCopyFrom (fuel + 1) (copies, h) r).2 made
          [(deepCopyFrom (fuel + 1) (copies, h) r).1] := by
      have hr' : (h.value r).isContainer = true := hvalue ▸ hr
      cases hc : copies.lookup r with
      | some c =>
        obtain ⟨before, after, heq, -⟩ := List.lookup_eq_some_iff.1 hc
        have hin : (r, c) ∈ copies := by simp [heq]
        rw [deepCopyFrom_of_known hr' hc]
        exact ⟨[], .shared hknown (hinside (r, c) hin)
          (Value.isPlain_eq_false_of_isContainer (hknown.container (r, c) hin))⟩
      | none =>
        -- the items are copied from a state in which this container is known, with less fuel
        have hless := unseen_announce_lt hr hc hfuel
        have hexists' (s : Ref) (hs : s ∈ (source.value r).children) (t : Ref)
            (ht : source.Contains s t) : t.index < source.size := hexists t (.head hs ht)
        have hempty := Value.isContainer_withChildren hr []
        have hsound' := hsound.announce hr ((source.value r).withChildren [])
        have hall := copiesAll (fun s hs state hsound hfuel =>
          copiesOne (hexists' s hs) hsound hfuel) hsound' fun _ => hless
        obtain ⟨made, hmakes⟩ := makesAll hexists'
          (fun s hs state hsound hknown hfuel => ih (hexists' s hs) hsound hknown hfuel)
          hsound' (hknown.announce hinside (not_mem_objects_of_lookup hc) hempty) fun _ => hless
        rw [deepCopyFrom_of_unknown hr' hc, hvalue]
        exact ⟨_, hmakes.close hr hall.steps.heap hall.standsFor.length_eq⟩
    cases hr : source.value r with
    | list | dictionary => exact hcontainer (by rw [hr]; rfl)
    | funcref f =>
      have hf : h.value r = .funcref f := hvalue.trans hr
      rw [deepCopyFrom_of_funcref hf]
      exact ⟨[], .shared hknown (h.lt_size_of_not_isScalar r (by rw [hf]; rfl)) (by rw [hf]; rfl)⟩
    | _ => exact hplain (by rw [hr]; rfl)

theorem eq_of_nodup_filter {P : Ref → Bool} {rs : List Ref} (hnodup : (rs.filter P).Nodup)
    (hs : P s = true) {m n : Nat} (hm : rs[m]? = some s) (hn : rs[n]? = some s) : m = n := by
  wlog hle : m ≤ n generalizing m n
  · exact (this hn hm (Nat.le_of_not_le hle)).symm
  by_contra hne
  obtain ⟨hm', hgetm⟩ := List.getElem?_eq_some_iff.1 hm
  obtain ⟨hn', hgetn⟩ := List.getElem?_eq_some_iff.1 hn
  have honce := List.pairwise_iff_getElem.1 (List.pairwise_filter.1 hnodup)
  have hdistinct := honce m n hm' hn' (Nat.lt_of_le_of_ne hle hne)
  rw [hgetm, hgetn] at hdistinct
  exact hdistinct hs hs rfl

/-- What has been made for itself is one item of one copy. -/
theorem Makes.unique {before after : Copies × Heap} {found : List Ref}
    (hmakes : Makes before after copies found) {p q : Ref × Ref} (hp : p ∈ copies) (hq : q ∈ copies)
    (hs : (after.2.value s).isPlain = true) {m n : Nat}
    (hm : (after.2.value p.2).children[m]? = some s)
    (hn : (after.2.value q.2).children[n]? = some s) : p = q ∧ m = n := by
  have hapart := hmakes.apart
  rw [places, List.filter_append, List.filter_flatMap, List.nodup_append, List.nodup_flatMap]
    at hapart
  obtain ⟨-, ⟨heach, hpairs⟩, -⟩ := hapart
  have hplace {p : Ref × Ref} {m : Nat} (hm : (after.2.value p.2).children[m]? = some s) :
      s ∈ (after.2.value p.2).children.filter fun s => (after.2.value s).isPlain :=
    List.mem_filter.2 ⟨List.mem_of_getElem? hm, hs⟩
  obtain rfl : p = q := by
    by_contra hne
    have hsymm : Std.Symm (Function.onFun List.Disjoint fun p : Ref × Ref =>
        (after.2.value p.2).children.filter fun s => (after.2.value s).isPlain) :=
      ⟨fun _ _ hd => hd.symm⟩
    exact hpairs.forall hp hq hne (hplace hm) (hplace hn)
  exact ⟨rfl, eq_of_nodup_filter (heach p hp) hs hm hn⟩

/-! ## Ways through the copy -/

/-- The two ways come to what they lead to through the same item of the same container. -/
def SameItem (h : Heap) (r : Ref) (p q : List ItemName) : Prop :=
  p.getLast? = q.getLast? ∧ h.at? r p.dropLast = h.at? r q.dropLast

theorem exists_of_at?_concat {i : ItemName} (hs : h.at? r (p ++ [i]) = some s) :
    ∃ x, h.at? r p = some x ∧ (h.value x).item? i = some s := by
  rw [at?_concat] at hs
  exact Option.bind_eq_some_iff.1 hs

theorem sameItem_concat {i j : ItemName} :
    h.SameItem r (p ++ [i]) (q ++ [j]) ↔ i = j ∧ h.at? r p = h.at? r q := by
  simp [SameItem]

theorem eq_nil_of_isPlain (hr : (h.value r).isPlain = true) (hs : h.at? r p = some s) : p = [] := by
  cases p with
  | nil => rfl
  | cons i p =>
    obtain ⟨t, ht, -⟩ := Option.bind_eq_some_iff.1 hs
    have hcontainer := Value.isContainer_of_item? ht
    rw [Value.isPlain_eq_false_of_isContainer hcontainer] at hr
    cases hr

theorem Duplicates.kind_eq {R : Ref → Ref → Prop} (hdup : h.Duplicates h' R)
    (hextends : h.Extends h') (hc : R r c) : (h'.value c).kind = (h.value r).kind := by
  by_cases hshared : ∃ f, h.value r = .funcref f
  · obtain ⟨f, hf⟩ := hshared
    obtain rfl := hdup.shared hc hf
    rw [hextends.value_eq (by rw [hf]; rfl)]
  · obtain ⟨-, -, -, found, hvalue, -⟩ := hdup.made hc fun f hf => hshared ⟨f, hf⟩
    rw [hvalue]
    cases h.value r with
    | _ => rfl

theorem StandsFor.mem_of_isContainer (hc : StandsFor h copies h' r c)
    (hr : (h.value r).isContainer = true) : (r, c) ∈ copies := by
  cases hc with
  | known hin => exact hin
  | shared hf => exact absurd hf (Value.ne_funcref_of_isContainer hr _)
  | plain hplain =>
    rw [Value.isPlain_eq_false_of_isContainer hr] at hplain
    cases hplain

/-- A finished copy: what is known of it by its end. -/
structure CopyOf (h : Heap) (r : Ref) (copies : Copies) (h' : Heap) (c : Ref) : Prop where
  steps : CopySteps h ([], h) (copies, h')
  standsFor : StandsFor h copies h' r c
  makes : Makes ([], h) (copies, h') copies [c]

theorem exists_copyOf (hexists : ∀ s, h.Contains r s → s.index < h.size) :
    ∃ copies, h.CopyOf r copies (h.deepCopy r).2 (h.deepCopy r).1 := by
  have hsound : CopySound h ([], h) := ⟨.refl h, fun p hp => absurd hp List.not_mem_nil⟩
  have hknown : KnownOnce ([], h) := ⟨.nil, .nil, fun p hp => absurd hp List.not_mem_nil⟩
  have hfuel : h.unseen (([] : Copies).map (·.1)) < h.size + 1 :=
    Nat.lt_succ_of_le (h.unseen_le_size _)
  have hone := copiesOne hexists hsound hfuel
  obtain ⟨made, hmakes⟩ := makesOne hexists hsound hknown hfuel
  have hall : (deepCopyFrom (h.size + 1) ([], h) r).2.1 = made :=
    hmakes.eq.trans (List.append_nil made)
  exact ⟨made, hall ▸ hone.steps, hall ▸ hone.standsFor, hall ▸ hmakes⟩

namespace CopyOf

variable (hcopy : h.CopyOf r copies h' c) {s t s' t' : Ref}

include hcopy

theorem duplicates : h.Duplicates h' (StandsFor h copies h') := duplicates_of_copySteps hcopy.steps

theorem standsFor_at? (hs : h.at? r p = some s) (hs' : h'.at? c p = some s') :
    StandsFor h copies h' s s' := by
  have hrel := hcopy.duplicates.rel_at? hcopy.steps.heap hcopy.standsFor p
  rw [hs, hs'] at hrel
  cases hrel with
  | some hrel => exact hrel

theorem isPlain_eq (hc : StandsFor h copies h' s s') :
    (h'.value s').isPlain = (h.value s).isPlain :=
  Value.isPlain_eq_of_kind_eq (hcopy.duplicates.kind_eq hcopy.steps.heap hc)

theorem eq_iff_of_mem (hs : (s, s') ∈ copies) (ht : (t, t') ∈ copies) : s' = t' ↔ s = t := by
  constructor
  · intro heq
    exact congrArg Prod.fst (List.inj_on_of_nodup_map hcopy.makes.once.copies hs ht heq)
  · intro heq
    exact congrArg Prod.snd (List.inj_on_of_nodup_map hcopy.makes.once.objects hs ht heq)

/-- Ways that come to their end through the same item do so in the copy. -/
theorem at?_eq_of_sameItem (hsame : h.SameItem r p q) (hs : h.at? r p = some s) :
    h.at? r q = some s ∧ h'.at? c p = h'.at? c q := by
  have hlast := hsame.1
  cases p using List.reverseRecOn with
  | nil =>
    cases q using List.reverseRecOn with
    | nil => exact ⟨hs, rfl⟩
    | append_singleton q j => simp at hlast
  | append_singleton p i =>
    cases q using List.reverseRecOn with
    | nil => simp at hlast
    | append_singleton q j =>
      obtain ⟨rfl, hcontainer⟩ := sameItem_concat.1 hsame
      refine ⟨by rw [at?_concat, ← hcontainer, ← at?_concat, hs], ?_⟩
      obtain ⟨x, hx, hitem⟩ := exists_of_at?_concat hs
      have hrel {p : List ItemName} (hp : h.at? r p = some x) :
          ∃ y, h'.at? c p = some y ∧ (x, y) ∈ copies := by
        have hrel := hcopy.duplicates.rel_at? hcopy.steps.heap hcopy.standsFor p
        rw [hp] at hrel
        cases hy : h'.at? c p with
        | none =>
          rw [hy] at hrel
          cases hrel
        | some y =>
          exact ⟨y, rfl, (hcopy.standsFor_at? hp hy).mem_of_isContainer
            (Value.isContainer_of_item? hitem)⟩
      obtain ⟨y, hy, hyin⟩ := hrel hx
      obtain ⟨z, hz, hzin⟩ := hrel (hcontainer.symm.trans hx)
      obtain rfl := (hcopy.eq_iff_of_mem hyin hzin).2 rfl
      rw [at?_concat, at?_concat, hy, hz]

/-- What has been made for itself is come to through one item only. -/
theorem sameItem_of_isPlain (hs : h.at? r p = some s) (ht : h.at? r q = some t)
    (hs' : h'.at? c p = some s') (ht' : h'.at? c q = some s')
    (hplain : (h.value s).isPlain = true) : h.SameItem r p q := by
  have hplain' : (h'.value s').isPlain = true :=
    (hcopy.isPlain_eq (hcopy.standsFor_at? hs hs')).trans hplain
  cases p using List.reverseRecOn with
  | nil =>
    cases hs
    obtain rfl := eq_nil_of_isPlain hplain ht
    exact ⟨rfl, rfl⟩
  | append_singleton p i =>
    cases q using List.reverseRecOn with
    | nil =>
      cases ht'
      have hnil := eq_nil_of_isPlain hplain' hs'
      simp at hnil
    | append_singleton q j =>
      obtain ⟨x, hx, hxitem⟩ := exists_of_at?_concat hs
      obtain ⟨y, hy, hyitem⟩ := exists_of_at?_concat ht
      obtain ⟨x', hx', hxitem'⟩ := exists_of_at?_concat hs'
      obtain ⟨y', hy', hyitem'⟩ := exists_of_at?_concat ht'
      have hxin := (hcopy.standsFor_at? hx hx').mem_of_isContainer
        (Value.isContainer_of_item? hxitem)
      have hyin := (hcopy.standsFor_at? hy hy').mem_of_isContainer
        (Value.isContainer_of_item? hyitem)
      obtain ⟨m, hi, hm⟩ := Value.exists_position hxitem'
      obtain ⟨n, hj, hn⟩ := Value.exists_position hyitem'
      obtain ⟨heq, rfl⟩ := hcopy.makes.unique hxin hyin hplain' hm hn
      cases heq
      refine sameItem_concat.2 ⟨?_, hx.trans hy.symm⟩
      exact Option.some.inj (hi.symm.trans hj)

/-- Which ways through the copy lead to the same object. -/
theorem at?_eq_iff (hs : h.at? r p = some s) (ht : h.at? r q = some t)
    (hs' : h'.at? c p = some s') (ht' : h'.at? c q = some t') :
    s' = t' ↔ s = t ∧ ((h.value s).isPlain = true → h.SameItem r p q) := by
  have hcs := hcopy.standsFor_at? hs hs'
  have hct := hcopy.standsFor_at? ht ht'
  by_cases hplain : (h.value s).isPlain = true
  · -- a value without items
    constructor
    · rintro rfl
      have hsame := hcopy.sameItem_of_isPlain hs ht hs' ht' hplain
      obtain ⟨hq, -⟩ := hcopy.at?_eq_of_sameItem hsame hs
      exact ⟨Option.some.inj (hq.symm.trans ht), fun _ => hsame⟩
    · rintro ⟨-, hsame⟩
      obtain ⟨-, hsame'⟩ := hcopy.at?_eq_of_sameItem (hsame hplain) hs
      exact Option.some.inj (hs'.symm.trans (hsame'.trans ht'))
  · rw [and_iff_left fun h => absurd h hplain]
    have hkind : s' = t' → (h.value s).kind = (h.value t).kind := by
      rintro rfl
      rw [← hcopy.duplicates.kind_eq hcopy.steps.heap hcs]
      exact hcopy.duplicates.kind_eq hcopy.steps.heap hct
    cases hcs with
    | plain hs => exact absurd hs hplain
    | known hin =>
      have hcontainer : (h.value s).isContainer = true := (hcopy.steps.sound.known _ hin).1
      constructor
      · intro heq
        have ht : (h.value t).isContainer = true :=
          (Value.isContainer_eq_of_kind_eq (hkind heq)).symm.trans hcontainer
        exact (hcopy.eq_iff_of_mem hin (hct.mem_of_isContainer ht)).1 heq
      · rintro rfl
        exact (hcopy.eq_iff_of_mem hin (hct.mem_of_isContainer hcontainer)).2 rfl
    | shared hf hself =>
      -- a function is its own copy
      constructor
      · intro heq
        obtain ⟨g, hg⟩ := Value.exists_funcref_of_kind_eq ((hkind heq).symm.trans (by rw [hf]; rfl))
        exact hself.symm.trans (heq.trans (hcopy.duplicates.shared hct hg))
      · rintro rfl
        exact hself.trans (hcopy.duplicates.shared hct hf).symm

end CopyOf

/-- Ways through a deep copy lead to what they lead to in the object that is copied, and to one
object where they do so there. Only for what has no items they have to come to it, for this,
through the same item of the same container. -/
theorem deepCopy_keepsSharing (h : Heap) (r : Ref)
    (hexists : ∀ s, h.Contains r s → s.index < h.size) :
    (∀ p, ((h.deepCopy r).2.at? (h.deepCopy r).1 p).map (fun s => ((h.deepCopy r).2.value s).kind) =
      (h.at? r p).map fun s => (h.value s).kind) ∧
    ∀ p q s t s' t', h.at? r p = some s → h.at? r q = some t →
      (h.deepCopy r).2.at? (h.deepCopy r).1 p = some s' →
      (h.deepCopy r).2.at? (h.deepCopy r).1 q = some t' →
      (s' = t' ↔ s = t ∧ ((h.value s).isPlain = true → h.SameItem r p q)) := by
  obtain ⟨copies, hcopy⟩ := exists_copyOf hexists
  refine ⟨fun p => ?_, fun p q s t s' t' hs ht hs' ht' => hcopy.at?_eq_iff hs ht hs' ht'⟩
  have hrel := hcopy.duplicates.rel_at? hcopy.steps.heap hcopy.standsFor p
  generalize h.at? r p = s, (h.deepCopy r).2.at? (h.deepCopy r).1 p = s' at hrel ⊢
  cases hrel with
  | some hc => exact congrArg some (hcopy.duplicates.kind_eq hcopy.steps.heap hc)
  | none => rfl

/-- A List that holds one Blob twice, and itself. -/
def sharedBlob : Heap where
  cells := #[.fresh (.list [⟨1⟩, ⟨1⟩, ⟨0⟩]), .fresh (.blob [1])]

theorem deepCopy_keepsSharing_sharedBlob :
    (∀ s, sharedBlob.Contains ⟨0⟩ s → s.index < sharedBlob.size) ∧
      (sharedBlob.deepCopy ⟨0⟩).2.at? (sharedBlob.deepCopy ⟨0⟩).1
          [.position 2, .position 2, .position 0] =
        (sharedBlob.deepCopy ⟨0⟩).2.at? (sharedBlob.deepCopy ⟨0⟩).1 [.position 0] ∧
      (sharedBlob.deepCopy ⟨0⟩).2.at? (sharedBlob.deepCopy ⟨0⟩).1 [.position 0] ≠
        (sharedBlob.deepCopy ⟨0⟩).2.at? (sharedBlob.deepCopy ⟨0⟩).1 [.position 1] := by
  have hexists : ∀ s, sharedBlob.Contains ⟨0⟩ s → s.index < sharedBlob.size := fun s hs =>
    lt_size_of_contains (by decide) (by decide) hs
  obtain ⟨-, hsame⟩ := deepCopy_keepsSharing sharedBlob ⟨0⟩ hexists
  have hitem := hsame [.position 0] [.position 1] ⟨1⟩ ⟨1⟩ ⟨3⟩ ⟨4⟩ rfl rfl rfl rfl
  have hcycle := hsame [.position 2, .position 2, .position 0] [.position 0] ⟨1⟩ ⟨1⟩ ⟨3⟩ ⟨3⟩
    rfl rfl rfl rfl
  refine ⟨hexists, congrArg some (hcycle.2 ⟨rfl, fun _ => ⟨rfl, rfl⟩⟩), fun heq => ?_⟩
  exact absurd ((hitem.1 (Option.some.inj heq)).2 rfl).1 (by decide)

/-- The two items of the List are one Blob, but not in the copy. -/
theorem not_forall_deepCopy_keepsSharing :
    ¬∀ (h : Heap) (r : Ref), (∀ s, h.Contains r s → s.index < h.size) →
      ∀ p q s t s' t', h.at? r p = some s → h.at? r q = some t →
        (h.deepCopy r).2.at? (h.deepCopy r).1 p = some s' →
        (h.deepCopy r).2.at? (h.deepCopy r).1 q = some t' →
        (h.value s).kind ∈ [.list, .dictionary, .blob] →
        (h.value t).kind ∈ [.list, .dictionary, .blob] → (s' = t' ↔ s = t) := by
  intro hall
  have hiff := hall sharedBlob ⟨0⟩ (fun s hs => lt_size_of_contains (by decide) (by decide) hs)
    [.position 0] [.position 1] ⟨1⟩ ⟨1⟩ ⟨3⟩ ⟨4⟩ rfl rfl rfl rfl (by decide) (by decide)
  exact absurd (hiff.2 rfl) (by decide)

end Heap

end VimL
