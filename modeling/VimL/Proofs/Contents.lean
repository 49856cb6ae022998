import VimL.Proofs.Reach

/-!
# What a value holds

Two objects hold the same if they are the same Number, String or Blob, or if they have the same
items or entries in the same order, at every depth. Identities and locks play no part. What holds
no Float, no Funcref and not itself is data, which can be written out.
-/

namespace VimL

namespace Heap

/-- The second object is an item or entry of the first one, or it lies in one. -/
def Encloses (h : Heap) : Ref → Ref → Prop :=
  Relation.TransGen fun r s => s ∈ (h.value r).parts

/-- Nothing that can be reached lies in itself. -/
def Acyclic (h : Heap) (r : Ref) : Prop := ∀ s, h.Reaches r s → ¬h.Encloses s s

/-- All that can be reached is of one of these kinds. -/
def IsMadeOf (h : Heap) (kinds : List Kind) (r : Ref) : Prop :=
  ∀ s, h.Reaches r s → (h.value s).kind ∈ kinds

/-- Lists and Dictionaries are nested at most this deep. -/
def NestsWithin (h : Heap) : Nat → Ref → Prop
  | 0, r => (h.value r).kind ≠ .list ∧ (h.value r).kind ≠ .dictionary
  | depth + 1, r => ∀ s ∈ (h.value r).parts, h.NestsWithin depth s

instance decidableNestsWithin (h : Heap) : ∀ depth r, Decidable (h.NestsWithin depth r)
  | 0, _ => inferInstanceAs (Decidable (_ ∧ _))
  | depth + 1, r =>
    have := h.decidableNestsWithin depth
    inferInstanceAs (Decidable (∀ s ∈ (h.value r).parts, h.NestsWithin depth s))

/-- The two objects, one in each heap, have the same contents at every position. -/
inductive Alike (h h' : Heap) : Ref → Ref → Prop where
  | number {a b : Ref} {n : Int} (ha : h.value a = .number n) (hb : h'.value b = .number n) :
      Alike h h' a b
  | string {a b : Ref} {s : String} (ha : h.value a = .string s) (hb : h'.value b = .string s) :
      Alike h h' a b
  | blob {a b : Ref} {bytes : List UInt8} (ha : h.value a = .blob bytes)
      (hb : h'.value b = .blob bytes) : Alike h h' a b
  | list {a b : Ref} {xs ys : List Ref} (ha : h.value a = .list xs) (hb : h'.value b = .list ys)
      (hitems : List.Forall₂ (Alike h h') xs ys) : Alike h h' a b
  | dictionary {a b : Ref} {xs ys : Table Ref} (ha : h.value a = .dictionary xs)
      (hb : h'.value b = .dictionary ys) (hkeys : xs.keys = ys.keys)
      (hvalues : List.Forall₂ (Alike h h') xs.values ys.values) : Alike h h' a b

variable {h : Heap} {r s : Ref} {kinds : List Kind}

theorem Acyclic.part (hr : h.Acyclic r) (hs : s ∈ (h.value r).parts) : h.Acyclic s :=
  fun t ht => hr t (.head hs ht)

theorem IsMadeOf.part (hr : h.IsMadeOf kinds r) (hs : s ∈ (h.value r).parts) :
    h.IsMadeOf kinds s :=
  fun t ht => hr t (.head hs ht)

theorem IsMadeOf.kind_mem (hr : h.IsMadeOf kinds r) : (h.value r).kind ∈ kinds := hr r .refl

theorem isMadeOf_of_closed (rs : List Ref) (hr : r ∈ rs)
    (hclosed : ∀ r ∈ rs, ∀ s ∈ (h.value r).parts, s ∈ rs)
    (hkinds : ∀ r ∈ rs, (h.value r).kind ∈ kinds) : h.IsMadeOf kinds r :=
  fun _ hs => hkinds _ (hs.mem_of_closed hr hclosed)

/-! ## Nesting -/

/-- Numbers, Strings, Blobs, Lists and Dictionaries. -/
def plainKinds : List Kind := [.number, .string, .blob, .list, .dictionary]

/-- What has items or entries is nested in one level more than they are. -/
theorem NestsWithin.part {depth : Nat} (hmade : h.IsMadeOf plainKinds r)
    (hr : h.NestsWithin depth r) (hs : s ∈ (h.value r).parts) :
    ∃ depth', depth = depth' + 1 ∧ h.NestsWithin depth' s := by
  cases depth with
  | zero =>
    have hkind := hmade.kind_mem
    obtain ⟨hlist, hdictionary⟩ := hr
    cases hv : h.value r <;> simp_all [Value.kind, Value.parts, plainKinds]
  | succ depth' => exact ⟨depth', rfl, hr s hs⟩

theorem NestsWithin.enclosed {depth : Nat} (hmade : h.IsMadeOf plainKinds r)
    (hr : h.NestsWithin depth r) (hs : h.Encloses r s) :
    ∃ depth' < depth, h.NestsWithin depth' s := by
  induction hs using Relation.TransGen.head_induction_on generalizing depth with
  | single hs =>
    obtain ⟨depth', rfl, hs⟩ := hr.part hmade hs
    exact ⟨depth', by omega, hs⟩
  | head ht _ ih =>
    obtain ⟨depth', rfl, ht'⟩ := hr.part hmade ht
    obtain ⟨depth'', hlt, hs⟩ := ih (hmade.part ht) ht'
    exact ⟨depth'', by omega, hs⟩

/-- What is nested to some depth does not lie in itself. -/
theorem NestsWithin.not_encloses_self {depth : Nat} (hmade : h.IsMadeOf plainKinds r)
    (hr : h.NestsWithin depth r) : ¬h.Encloses r r := by
  intro hself
  induction depth using Nat.strongRecOn with
  | _ depth ih =>
    obtain ⟨depth', hlt, hr'⟩ := hr.enclosed hmade hself
    exact ih depth' hlt hr'

theorem NestsWithin.reached {depth : Nat} (hmade : h.IsMadeOf plainKinds r)
    (hr : h.NestsWithin depth r) (hs : h.Reaches r s) : ∃ depth', h.NestsWithin depth' s := by
  rcases Relation.reflTransGen_iff_eq_or_transGen.1 hs with rfl | hs
  · exact ⟨depth, hr⟩
  · obtain ⟨depth', -, hs⟩ := hr.enclosed hmade hs
    exact ⟨depth', hs⟩

theorem NestsWithin.acyclic {depth : Nat} (hmade : h.IsMadeOf plainKinds r)
    (hr : h.NestsWithin depth r) : h.Acyclic r := by
  intro s hs
  obtain ⟨depth', hnests⟩ := hr.reached hmade hs
  exact hnests.not_encloses_self fun t ht => hmade t (hs.trans ht)

/-! ## The way to an object -/

/-- The object lies in all of these, which have been gone through on the way to it. -/
def Above (h : Heap) (path : List Ref) (r : Ref) : Prop := ∀ p ∈ path, h.Encloses p r

theorem above_nil (h : Heap) (r : Ref) : h.Above [] r := nofun

namespace Above

variable {path : List Ref}

theorem part (hpath : h.Above path r) (hs : s ∈ (h.value r).parts) : h.Above (r :: path) s := by
  intro p hp
  rcases List.mem_cons.1 hp with rfl | hp
  · exact .single hs
  · exact (hpath p hp).tail hs

theorem not_mem (hpath : h.Above path r) (hr : ¬h.Encloses r r) : r ∉ path :=
  fun hin => hr (hpath r hin)

end Above

end Heap

end VimL
