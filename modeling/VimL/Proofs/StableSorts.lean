import Mathlib.Data.List.Basic
import Mathlib.Data.Prod.Lex
import Mathlib.Data.String.Basic
import Mathlib.Order.WithBot
import VimL.Library.Sort

/-!
# Stable sorting

A row is sorted stably if its elements are put in order and those that come neither before nor after
one another stay in the order that they had. Merging two such rows gives another one, as long as an
element of the second row is taken first only if it has to come first.
-/

namespace VimL

/-! ## Orders of elements that may be equal -/

/-- On these elements the relation tells which of two comes first. Elements may tie. -/
structure OrdersWeakly {α : Type} (before : α → α → Bool) (items : List α) : Prop where
  asymm : ∀ a ∈ items, ∀ b ∈ items, before a b = true → before b a = false
  trans : ∀ a ∈ items, ∀ b ∈ items, ∀ c ∈ items,
    before a b = false → before b c = false → before a c = false

/-- The row is the other one in order. Elements of which none comes before another one, however they
are selected, have kept their order. -/
structure StableSort {α : Type} (before : α → α → Bool) (items sorted : List α) : Prop where
  perm : sorted.Perm items
  ordered : sorted.Pairwise fun a b => before b a = false
  stable : ∀ q : α → Bool,
    (∀ a ∈ items, ∀ b ∈ items, q a = true → q b = true → before a b = false) →
    sorted.filter q = items.filter q

variable {α κ : Type} {before before' : α → α → Bool} {items items' xs ys : List α} {a b : α}

namespace OrdersWeakly

theorem mono (h : OrdersWeakly before items) (hsub : items' ⊆ items) :
    OrdersWeakly before items' where
  asymm a ha b hb := h.asymm a (hsub ha) b (hsub hb)
  trans a ha b hb c hc := h.trans a (hsub ha) b (hsub hb) c (hsub hc)

/-- Elements that have a rank each are ordered by it. -/
theorem of_rank [LinearOrder κ] (rank : α → κ)
    (h : ∀ a ∈ items, ∀ b ∈ items, before a b = true ↔ rank a < rank b) :
    OrdersWeakly before items where
  asymm a ha b hb hab := by
    rw [← Bool.not_eq_true, h b hb a ha]
    exact lt_asymm ((h a ha b hb).1 hab)
  trans a ha b hb c hc hab hbc := by
    rw [← Bool.not_eq_true, h a ha b hb, not_lt] at hab
    rw [← Bool.not_eq_true, h b hb c hc, not_lt] at hbc
    rw [← Bool.not_eq_true, h a ha c hc, not_lt]
    exact hbc.trans hab

end OrdersWeakly

/-! ## Merging -/

section Merging

variable (h : OrdersWeakly before (xs ++ ys)) (hxs : xs.Pairwise fun a b => before b a = false)

include h hxs

theorem pairwise_merge (hys : ys.Pairwise fun a b => before b a = false) :
    (xs.merge ys fun a b => !before b a).Pairwise fun a b => before b a = false := by
  induction xs generalizing ys with
  | nil => simpa using hys
  | cons x xs ihx =>
    induction ys with
    | nil => simpa using hxs
    | cons y ys ihy =>
      have hx : x ∈ x :: xs ++ y :: ys := by simp
      have hy : y ∈ x :: xs ++ y :: ys := by simp
      obtain ⟨hxmin, hxs'⟩ := List.pairwise_cons.1 hxs
      obtain ⟨hymin, hys'⟩ := List.pairwise_cons.1 hys
      rw [List.cons_merge_cons]
      cases hbefore : before y x with
      | true =>
        have hsub := ((List.sublist_cons_self y ys).append_left (x :: xs)).subset
        refine List.pairwise_cons.2 ⟨fun z hz => ?_, ihy (h.mono hsub) hys'⟩
        rcases List.mem_merge.1 hz with hz | hz
        · rcases List.mem_cons.1 hz with rfl | hz
          · exact h.asymm y hy z hx hbefore
          · -- otherwise `z` would be in front of `x` as well
            by_contra hzy
            have hzin : z ∈ x :: xs ++ y :: ys := by simp [hz]
            have hyz := h.asymm z hzin y hy (Bool.not_eq_false _ ▸ hzy)
            have hyx := h.trans y hy z hzin x hx hyz (hxmin z hz)
            rw [hbefore] at hyx
            cases hyx
        · exact hymin z hz
      | false =>
        refine List.pairwise_cons.2 ⟨fun z hz => ?_, ihx (h.mono (by simp)) hxs' hys⟩
        rcases List.mem_merge.1 hz with hz | hz
        · exact hxmin z hz
        · rcases List.mem_cons.1 hz with rfl | hz
          · exact hbefore
          · exact h.trans z (by simp [hz]) y hy x hx (hymin z hz) hbefore

/-- A merge keeps the order of elements that tie: those of the first row are in front. -/
theorem filter_merge {q : α → Bool}
    (hq : ∀ a ∈ xs, ∀ b ∈ ys, q a = true → q b = true → before b a = false) :
    (xs.merge ys fun a b => !before b a).filter q = xs.filter q ++ ys.filter q := by
  induction xs generalizing ys with
  | nil => simp
  | cons x xs ihx =>
    induction ys with
    | nil => simp
    | cons y ys ihy =>
      have hx : x ∈ x :: xs ++ y :: ys := by simp
      have hy : y ∈ x :: xs ++ y :: ys := by simp
      obtain ⟨hxmin, hxs'⟩ := List.pairwise_cons.1 hxs
      rw [List.cons_merge_cons]
      cases hbefore : before y x with
      | true =>
        have hsub := ((List.sublist_cons_self y ys).append_left (x :: xs)).subset
        have hrest := ihy (h.mono hsub) fun a ha b hb => hq a ha b (by simp [hb])
        cases hqy : q y with
        | false => simp [hqy, hrest]
        | true =>
          -- what is selected ties with `y`, which is in front of the whole first row
          have hnone : (x :: xs).filter q = [] := by
            rw [List.filter_eq_nil_iff]
            intro z hz hqz
            have hyz := hq z hz y List.mem_cons_self hqz hqy
            have hzx : before z x = false := by
              rcases List.mem_cons.1 hz with rfl | hz
              · by_contra hself
                have hzz := h.asymm z hx z hx (Bool.not_eq_false _ ▸ hself)
                exact hself hzz
              · exact hxmin z hz
            have hzin : z ∈ x :: xs ++ y :: ys := List.mem_append_left _ hz
            rw [h.trans y hy z hzin x hx hyz hzx] at hbefore
            cases hbefore
          rw [hnone] at hrest ⊢
          simp [hqy, hrest]
      | false =>
        have hrest := ihx (h.mono (by simp)) hxs' fun a ha b hb => hq a (by simp [ha]) b hb
        cases hqx : q x with
        | false => simp [hqx, hrest]
        | true => simp [hqx, hrest]

end Merging

namespace StableSort

theorem of_length_le (h : items.length ≤ 1) : StableSort before items items where
  perm := .refl _
  ordered := by
    match items, h with
    | [], _ => exact .nil
    | [_], _ => exact List.pairwise_singleton _ _
  stable _ _ := rfl

/-- Two rows that are sorted are merged into one that is sorted. -/
theorem merge (h : OrdersWeakly before (items ++ items')) (hxs : StableSort before items xs)
    (hys : StableSort before items' ys) :
    StableSort before (items ++ items') (xs.merge ys fun a b => !before b a) := by
  have hsame := hxs.perm.append hys.perm
  have hweak : OrdersWeakly before (xs ++ ys) := h.mono hsame.subset
  refine ⟨(List.merge_perm_append _).trans hsame, pairwise_merge hweak hxs.ordered hys.ordered,
    fun q hq => ?_⟩
  rw [filter_merge hweak hxs.ordered, List.filter_append, hxs.stable, hys.stable]
  · exact fun a ha b hb => hq a (List.mem_append_right _ ha) b (List.mem_append_right _ hb)
  · exact fun a ha b hb => hq a (List.mem_append_left _ ha) b (List.mem_append_left _ hb)
  · intro a ha b hb hqa hqb
    exact hq b (hsame.subset (List.mem_append_right _ hb)) a
      (hsame.subset (List.mem_append_left _ ha)) hqb hqa

/-- A row is sorted by its halves. -/
theorem halves (h : OrdersWeakly before items) {n : Nat}
    (hxs : StableSort before (items.take n) xs) (hys : StableSort before (items.drop n) ys) :
    StableSort before items (xs.merge ys fun a b => !before b a) := by
  have hmerged := merge (by rwa [List.take_append_drop]) hxs hys
  rwa [List.take_append_drop] at hmerged

open List.MergeSort.Internal in
theorem mergeSort (h : OrdersWeakly before items) :
    StableSort before items (items.mergeSort fun a b => !before b a) := by
  induction hn : items.length using Nat.strong_induction_on generalizing items with
  | _ n ih =>
    match items with
    | [] => simpa using (of_length_le (Nat.zero_le 1) : StableSort before [] [])
    | [a] => simpa using (of_length_le (Nat.le_refl 1) : StableSort before [a] [a])
    | a :: b :: rest =>
      rw [List.mergeSort]
      refine halves h (n := ((a :: b :: rest).length + 1) / 2) ?_ ?_
      · rw [splitInTwo_fst]
        refine ih _ ?_ (h.mono (List.take_subset _ _)) rfl
        rw [← hn, List.length_take]
        simp only [List.length_cons]
        omega
      · rw [splitInTwo_snd]
        refine ih _ ?_ (h.mono (List.drop_subset _ _)) rfl
        rw [← hn, List.length_drop]
        simp only [List.length_cons]
        omega

/-- Only how it compares the elements of the row matters. -/
theorem congr (h : StableSort before items xs)
    (heq : ∀ a ∈ items, ∀ b ∈ items, before' a b = before a b) : StableSort before' items xs where
  perm := h.perm
  ordered := by
    refine h.ordered.imp_of_mem fun {a b} ha hb hab => ?_
    rw [heq b (h.perm.subset hb) a (h.perm.subset ha)]
    exact hab
  stable q hq := h.stable q fun a ha b hb hqa hqb => by
    rw [← heq a ha b hb]
    exact hq a ha b hb hqa hqb

end StableSort

/-! ## Floats -/

open Float.Model (UnpackedFloat)

/-- Numbers are ordered by sign and size: first by a class, then by exponent and mantissa. -/
def unpackedRank : UnpackedFloat → ℤ ×ₗ ℤ ×ₗ ℤ
  | .infinity .negative => toLex (-2, toLex (0, 0))
  | .finite .negative mantissa exponent _ => toLex (-1, toLex (-exponent, -mantissa))
  | .notANumber | .zero _ => toLex (0, toLex (0, 0))
  | .finite .positive mantissa exponent _ => toLex (1, toLex (exponent, mantissa))
  | .infinity .positive => toLex (2, toLex (0, 0))

/-- A Float that is a number is less than another one if its rank is. -/
theorem unpacked_lt_iff {x y : UnpackedFloat} (hx : x.isNaN = false) (hy : y.isNaN = false) :
    x.lt y = true ↔ unpackedRank x < unpackedRank y := by
  have hsigns : compare UnpackedFloat.Sign.negative .positive = .lt := rfl
  have hless (e f : ℤ) (m n : ℕ) :
      (compare e f).then (compare m n) = .lt ↔ e < f ∨ e = f ∧ m < n := by
    rw [Ordering.then_eq_lt, compare_lt_iff_lt, compare_lt_iff_lt, compare_eq_iff_eq]
  -- negative Floats are turned round
  have hgreater (e f : ℤ) (m n : ℕ) :
      (compare e f).then (compare m n) = .gt ↔ f < e ∨ e = f ∧ n < m := by
    rw [Ordering.then_eq_gt, compare_gt_iff_gt, compare_gt_iff_gt, compare_eq_iff_eq]
  cases x with
  | notANumber => cases hx
  | infinity s | zero s | finite s m e =>
    cases y with
    | notANumber => cases hy
    | infinity t | zero t | finite t n f =>
      unfold UnpackedFloat.lt UnpackedFloat.compare unpackedRank
      cases s <;> cases t <;> dsimp only <;>
        simp [Prod.Lex.toLex_lt_toLex, hless, hgreater, hsigns]

theorem float_lt_iff {x y : Float} (hx : x.isNaN = false) (hy : y.isNaN = false) :
    x < y ↔ unpackedRank x.toModel.unpack < unpackedRank y.toModel.unpack := by
  have hlt : x < y ↔ x.toModel.unpack.lt y.toModel.unpack = true := decide_eq_true_iff
  rw [hlt, unpacked_lt_iff hx hy]

/-! ## Keys -/

namespace Library

variable {key : Ref → Except Stop κ} {value : Ref → κ} {less : κ → κ → Bool} {rows : List Ref}
  {h : Heap} {depth : Nat}

theorem withKeys_of_ok (hkey : ∀ r ∈ rows, key r = .ok (value r)) :
    withKeys key rows = .ok (rows.map fun r => (value r, r)) := by
  induction rows with
  | nil => rfl
  | cons r rest ih =>
    unfold withKeys
    rw [hkey r List.mem_cons_self]
    dsimp only
    rw [ih fun s hs => hkey s (List.mem_cons_of_mem r hs)]
    rfl

/-- To sort objects with their keys is to sort the objects by their keys. -/
theorem sortKeyed_eq (less : κ → κ → Bool) (value : Ref → κ) (rows : List Ref) :
    sortKeyed less (rows.map fun r => (value r, r)) =
      rows.mergeSort fun r s => !less (value s) (value r) := by
  have hpairs : ∀ a ∈ rows.map fun r => (value r, r), value a.2 = a.1 := by
    intro a ha
    obtain ⟨r, -, rfl⟩ := List.mem_map.1 ha
    rfl
  unfold sortKeyed
  rw [List.map_mergeSort (s := fun r s => !less (value s) (value r)) fun a ha b hb => by
    rw [hpairs a ha, hpairs b hb], List.map_map]
  exact congrArg (List.mergeSort · _) (List.map_id rows)

/-- Of two keys that can be read, the one comes first. -/
def keyBefore (less : κ → κ → Bool) : Except Stop κ → Except Stop κ → Bool
  | .ok a, .ok b => less a b
  | _, _ => false

/-- What an item is sorted by if texts are compared. -/
def textKey (h : Heap) (depth : Nat) (ignoreCase : Bool) (r : Ref) : String :=
  if ignoreCase then Text.lower (h.plainText depth r) else h.plainText depth r

/-- The one item comes before the other one by a key. -/
def SortKey.precedes (h : Heap) (depth : Nat) : SortKey → Ref → Ref → Bool
  | .text ignoreCase, a, b => decide (textKey h depth ignoreCase a < textKey h depth ignoreCase b)
  | .numbersLast, a, b =>
    match h.value a, h.value b with
    | .number m, .number n => decide (m < n)
    | .number _, _ => false
    | _, .number _ => true
    | _, _ => false
  | .number, a, b =>
    keyBefore (fun m n => decide (m < n)) (h.value a).toNumber (h.value b).toNumber
  | .float, a, b => keyBefore (fun x y => decide (x < y)) (h.value a).toFloat (h.value b).toFloat

/-- The key of an item can be read, and it is not the Float that is no number. -/
def SortKey.Reads (h : Heap) : SortKey → Ref → Prop
  | .text _, _ | .numbersLast, _ => True
  | .number, r => ∃ n, (h.value r).toNumber = .ok n
  | .float, r => ∃ x, (h.value r).toFloat = .ok x ∧ x.isNaN = false

/-- Objects that have a key each are sorted by it, if the keys have ranks. -/
theorem exists_withKeys {ranks : Type} [LinearOrder ranks] [Inhabited κ] (rank : κ → ranks)
    (isGood : κ → Prop) (hkey : ∀ r ∈ rows, ∃ k, key r = .ok k ∧ isGood k)
    (hless : ∀ k k', isGood k → isGood k' → (less k k' = true ↔ rank k < rank k')) :
    ∃ keyed, withKeys key rows = .ok keyed ∧ (∀ pair ∈ keyed, isGood pair.1) ∧
      StableSort (fun a b => keyBefore less (key a) (key b)) rows (sortKeyed less keyed) := by
  let value (r : Ref) : κ := (key r).toOption.getD default
  have hvalue (r : Ref) (hr : r ∈ rows) : key r = .ok (value r) ∧ isGood (value r) := by
    obtain ⟨k, hk, hgood⟩ := hkey r hr
    have hsame : value r = k := by
      change (key r).toOption.getD default = k
      rw [hk]
      rfl
    rw [hsame]
    exact ⟨hk, hgood⟩
  refine ⟨_, withKeys_of_ok fun r hr => (hvalue r hr).1, fun pair hpair => ?_, ?_⟩
  · obtain ⟨r, hr, rfl⟩ := List.mem_map.1 hpair
    exact (hvalue r hr).2
  · rw [sortKeyed_eq]
    have hsorted : StableSort (fun a b => less (value a) (value b)) rows
        (rows.mergeSort fun a b => !less (value b) (value a)) :=
      .mergeSort (.of_rank (rank ∘ value) fun a ha b hb =>
        hless _ _ (hvalue a ha).2 (hvalue b hb).2)
    refine hsorted.congr fun a ha b hb => ?_
    rw [(hvalue a ha).1, (hvalue b hb).1]
    rfl

theorem exists_map_sortKeyed {ranks : Type} [LinearOrder ranks] [Inhabited κ] (rank : κ → ranks)
    {before : Ref → Ref → Bool} (hkey : ∀ r ∈ rows, ∃ k, key r = .ok k)
    (hless : ∀ k k', less k k' = true ↔ rank k < rank k')
    (hbefore : ∀ a b, before a b = keyBefore less (key a) (key b)) :
    ∃ sorted, (withKeys key rows).map (sortKeyed less) = .ok sorted ∧
      StableSort before rows sorted := by
  obtain ⟨keyed, hkeyed, -, hsorted⟩ := exists_withKeys rank (fun _ => True)
    (fun r hr => (hkey r hr).imp fun _ hk => ⟨hk, trivial⟩) fun k k' _ _ => hless k k'
  exact ⟨_, congrArg (Except.map (sortKeyed less)) hkeyed,
    hsorted.congr fun a _ b _ => hbefore a b⟩

/-- Items whose keys can be read are sorted by them. -/
theorem SortKey.exists_sortItems (key : SortKey) (depth : Nat)
    (hreads : ∀ r ∈ rows, key.Reads h r) :
    ∃ sorted, sortItems h depth key rows = .ok sorted ∧
      StableSort (key.precedes h depth) rows sorted := by
  cases key with
  | text ignoreCase =>
    exact exists_map_sortKeyed id (fun _ _ => ⟨_, rfl⟩) (fun _ _ => decide_eq_true_iff)
      fun _ _ => rfl
  | numbersLast =>
    refine exists_map_sortKeyed (fun k => k.elim (⊥ : WithBot ℤ) (↑)) (fun r _ => ?_)
      (fun k k' => ?_) fun a b => ?_
    · cases hvalue : h.value r <;> exact ⟨_, rfl⟩
    · cases k with
      | none => cases k' <;> simp
      | some m => cases k' <;> simp
    · simp only [precedes]
      cases h.value a <;> cases h.value b <;> rfl
  | number => exact exists_map_sortKeyed id hreads (fun _ _ => decide_eq_true_iff) fun _ _ => rfl
  | float =>
    obtain ⟨keyed, hkeyed, hnumbers, hsorted⟩ := exists_withKeys
      (fun x : Float => unpackedRank x.toModel.unpack) (fun x => x.isNaN = false) hreads
      fun x y hx hy => decide_eq_true_iff.trans (float_lt_iff hx hy)
    have hnone : (keyed.any fun pair => pair.1.isNaN) = false :=
      List.any_eq_false.2 fun pair hpair => Bool.not_eq_true _ ▸ hnumbers pair hpair
    refine ⟨_, congrArg (Except.map sortFloats) hkeyed, ?_⟩
    unfold sortFloats
    simp only [hnone]
    exact hsorted

end Library

end VimL
