import Mathlib.Data.Finset.Prod
import Mathlib.Data.List.Forall2
import Mathlib.Data.List.Perm.Subperm
import Mathlib.Order.Bounds.Defs
import VimL.Equality

/-!
# Equality as the largest bisimulation

A comparison takes every pair that it has met before to be equal. When it answers yes, the pairs
it has met are closed under taking parts, so no pair of them can be told apart; and a pair that
cannot be told apart is never answered with no. The number of pairs of objects bounds the depth.
-/

namespace VimL

/-! ## Pairs of parts -/

theorem exists_mem_of_forall₂ {α β : Type} {r : α → β → Prop} {xs : List α} {ys : List β}
    (hr : List.Forall₂ r xs ys) {x : α} (hx : x ∈ xs) : ∃ y ∈ ys, r x y := by
  obtain ⟨n, hn, rfl⟩ := List.getElem_of_mem hx
  have hy : n < ys.length := hr.length_eq ▸ hn
  exact ⟨ys[n], List.getElem_mem hy, hr.get hn hy⟩

theorem mapM_find_eq_some_iff {ys : Table Ref} {entries : List (String × Ref)}
    {pairs : List (Ref × Ref)} :
    (entries.mapM fun (key, x) => (ys.find? key).map fun y => (x, y)) = some pairs ↔
      List.Forall₂ (fun e p => e.2 = p.1 ∧ ys.find? e.1 = some p.2) entries pairs := by
  induction entries generalizing pairs with
  | nil => simp [eq_comm]
  | cons e rest ih =>
    obtain ⟨key, x⟩ := e
    simp only [List.mapM_cons, Option.bind_eq_bind, Option.bind_eq_some_iff, Option.map_eq_some_iff,
      Option.pure_def, Option.some.injEq, List.forall₂_cons_left_iff]
    constructor
    · rintro ⟨_, ⟨y, hy, rfl⟩, tail, htail, rfl⟩
      exact ⟨_, _, ⟨rfl, hy⟩, ih.1 htail, rfl⟩
    · rintro ⟨p, tail, ⟨rfl, hy⟩, htail, rfl⟩
      exact ⟨_, ⟨_, hy, rfl⟩, tail, ih.2 htail, rfl⟩

theorem Table.size_eq_of_keys_iff {xs ys : Table Ref}
    (hkeys : ∀ key, key ∈ xs.keys ↔ key ∈ ys.keys) : xs.size = ys.size := by
  have hperm := (List.perm_ext_iff_of_nodup xs.nodup ys.nodup).2 hkeys
  simpa [Table.keys, Table.size] using hperm.length_eq

theorem Table.keys_iff_of_subset {xs ys : Table Ref} (hsize : xs.size = ys.size)
    (hsub : ∀ key ∈ xs.keys, key ∈ ys.keys) (key : String) : key ∈ xs.keys ↔ key ∈ ys.keys := by
  have hle : ys.keys.length ≤ xs.keys.length := by
    simp only [Table.keys, List.length_map]
    exact hsize.ge
  exact ((xs.nodup.subperm hsub).perm_of_length_le hle).mem_iff

theorem exists_pairEntries_iff {xs ys : Table Ref} {R : Ref → Ref → Prop} :
    (∃ pairs, pairEntries xs ys = some pairs ∧ ∀ p ∈ pairs, R p.1 p.2) ↔
      (∀ key, key ∈ xs.keys ↔ key ∈ ys.keys) ∧
        ∀ key x y, xs.find? key = some x → ys.find? key = some y → R x y := by
  constructor
  · rintro ⟨pairs, hpairs, hR⟩
    by_cases hsize : xs.size = ys.size
    · simp only [pairEntries, hsize, if_true] at hpairs
      have hall := mapM_find_eq_some_iff.1 hpairs
      have hmem : ∀ e ∈ xs.entries, ∃ y, ys.find? e.1 = some y ∧ R e.2 y := by
        intro e he
        obtain ⟨p, hp, heq, hfind⟩ := exists_mem_of_forall₂ hall he
        exact ⟨p.2, hfind, heq ▸ hR p hp⟩
      refine ⟨Table.keys_iff_of_subset hsize fun key hkey => ?_, fun key x y hx hy => ?_⟩
      · obtain ⟨x, hx⟩ := Table.mem_keys_iff.1 hkey
        obtain ⟨y, hy, -⟩ := hmem _ (Table.find?_eq_some_iff.1 hx)
        exact Table.mem_keys_iff.2 ⟨y, hy⟩
      · obtain ⟨z, hz, hxz⟩ := hmem _ (Table.find?_eq_some_iff.1 hx)
        have hyz : z = y := Option.some.inj (hz.symm.trans hy)
        exact hyz ▸ hxz
    · simp [pairEntries, hsize] at hpairs
  · rintro ⟨hkeys, hR⟩
    have hsome : ∀ e ∈ xs.entries, ∃ y, ys.find? e.1 = some y := by
      intro e he
      exact Table.mem_keys_iff.1 ((hkeys e.1).1 (List.mem_map_of_mem he))
    refine ⟨xs.entries.map fun e => (e.2, (ys.find? e.1).getD e.2), ?_, ?_⟩
    · simp only [pairEntries, Table.size_eq_of_keys_iff hkeys, if_true]
      rw [mapM_find_eq_some_iff, List.forall₂_map_right_iff, List.forall₂_same]
      intro e he
      obtain ⟨y, hy⟩ := hsome e he
      simp [hy]
    · intro p hp
      obtain ⟨e, he, rfl⟩ := List.mem_map.1 hp
      obtain ⟨y, hy⟩ := hsome e he
      have hx := Table.find?_eq_some_iff.2 he
      simpa [hy] using hR e.1 e.2 y hx hy

namespace Heap

variable {h : Heap} {ignoreCase : Bool} {R S : Ref → Ref → Prop} {a b : Ref}

/-- What two values have to agree on, given which values are related. -/
def Agrees (h : Heap) (ignoreCase : Bool) (R : Ref → Ref → Prop) (a b : Ref) : Prop :=
  match h.value a, h.value b with
  | .number m, .number n => m = n
  | .float x, .float y => (x == y) = true
  | .string s, .string t => if ignoreCase then Text.lower s = Text.lower t else s = t
  | .blob x, .blob y => x = y
  | .list xs, .list ys => a = b ∨ List.Forall₂ R xs ys
  | .dictionary xs, .dictionary ys =>
    a = b ∨ (∀ key, key ∈ xs.keys ↔ key ∈ ys.keys) ∧
      ∀ key x y, xs.find? key = some x → ys.find? key = some y → R x y
  | .funcref f, .funcref g =>
    a = b ∨ f.name = g.name ∧ f.receiver = g.receiver ∧ List.Forall₂ R f.arguments g.arguments
  | _, _ => False

/-- Related values agree. -/
def Respects (h : Heap) (ignoreCase : Bool) (R : Ref → Ref → Prop) : Prop :=
  ∀ a b, R a b → h.Agrees ignoreCase R a b

/-! ## Agreement of parts -/

/-- Values agree at once, or they are one object, or their parts are related. -/
theorem agrees_iff : h.Agrees ignoreCase R a b ↔
    (h.value a).kind = (h.value b).kind ∧
      match (h.value a).equalScalars? ignoreCase (h.value b) with
      | some answer => answer = true
      | none => a = b ∨ ∃ pairs, (h.value a).pairParts (h.value b) = some pairs ∧
          ∀ p ∈ pairs, R p.1 p.2 := by
  cases hx : h.value a <;> cases hy : h.value b <;>
    simp only [Agrees, hx, hy, Value.kind, reduceCtorEq, false_and, true_and,
      Value.equalScalars?, Value.pairParts, beq_iff_eq]
  case string s t => cases ignoreCase <;> simp [equalTexts]
  case list xs ys =>
    rw [List.forall₂_iff_zip]
    by_cases hlen : xs.length = ys.length <;> simp [hlen]
  case dictionary xs ys => rw [exists_pairEntries_iff]
  case funcref f g =>
    rw [List.forall₂_iff_zip]
    by_cases hname : f.name = g.name ∧ f.receiver = g.receiver
    · by_cases hlen : f.arguments.length = g.arguments.length <;> simp [hname.1, hname.2, hlen]
    · have hnone : ¬(f.name = g.name ∧ f.receiver = g.receiver ∧
          f.arguments.length = g.arguments.length) := fun hall => hname ⟨hall.1, hall.2.1⟩
      simp only [hnone, if_false, reduceCtorEq, false_and, exists_false, or_false]
      exact or_iff_left fun hall => hname ⟨hall.1, hall.2.1⟩

theorem Agrees.mono (hRS : ∀ a b, R a b → S a b) (hR : h.Agrees ignoreCase R a b) :
    h.Agrees ignoreCase S a b := by
  rw [agrees_iff] at hR ⊢
  refine ⟨hR.1, ?_⟩
  cases hscalar : (h.value a).equalScalars? ignoreCase (h.value b) with
  | some answer => simpa only [hscalar] using hR.2
  | none =>
    have hparts := hR.2
    simp only [hscalar] at hparts
    refine hparts.imp_right ?_
    rintro ⟨pairs, hpairs, hall⟩
    exact ⟨pairs, hpairs, fun p hp => hRS _ _ (hall p hp)⟩

/-! ## Related values compare as equal -/

theorem equalPairwise_of_related {compare : Pairs → Ref → Ref → Option (Bool × Pairs)}
    (hcompare : ∀ seen a b answer seen', R a b → compare seen a b = some (answer, seen') →
      answer = true)
    {pairs : List (Ref × Ref)} (hpairs : ∀ p ∈ pairs, R p.1 p.2) {seen seen' : Pairs}
    {answer : Bool} (heq : equalPairwise compare seen pairs = some (answer, seen')) :
    answer = true := by
  induction pairs generalizing seen with
  | nil =>
    simp only [equalPairwise, Option.some.injEq, Prod.mk.injEq] at heq
    exact heq.1.symm
  | cons p rest ih =>
    obtain ⟨hfirst, hrest⟩ := List.forall_mem_cons.1 hpairs
    cases hp : compare seen p.1 p.2 with
    | none => simp [equalPairwise, hp] at heq
    | some ended =>
      obtain ⟨found, next⟩ := ended
      obtain rfl := hcompare _ _ _ _ _ hfirst hp
      exact ih hrest (by simpa [equalPairwise, hp] using heq)

theorem equalFrom_of_related (hR : h.Respects ignoreCase R) {fuel : Nat} {seen seen' : Pairs}
    {answer : Bool} (hab : R a b)
    (heq : h.equalFrom ignoreCase fuel seen a b = some (answer, seen')) : answer = true := by
  induction fuel generalizing seen seen' a b answer with
  | zero => simp [equalFrom] at heq
  | succ fuel ih =>
    obtain ⟨hkind, hparts⟩ := agrees_iff.1 (hR a b hab)
    simp only [equalFrom, hkind, ne_eq, not_true_eq_false, if_false] at heq
    cases hscalar : (h.value a).equalScalars? ignoreCase (h.value b) with
    | some found =>
      simp only [hscalar, Option.some.injEq, Prod.mk.injEq] at hparts heq
      exact heq.1.symm.trans hparts
    | none =>
      simp only [hscalar] at hparts heq
      split at heq
      case isTrue => exact (Prod.mk.inj (Option.some.inj heq)).1.symm
      case isFalse hmet =>
        obtain ⟨pairs, hpairs, hall⟩ := hparts.resolve_left fun he => hmet (.inl he)
        simp only [hpairs] at heq
        exact equalPairwise_of_related (fun _ _ _ _ _ hxy hxyeq => ih hxy hxyeq) hall heq

/-! ## The pairs that were met -/

/-- A pair that was met, or one that needs no look at parts. -/
def Met (h : Heap) (ignoreCase : Bool) (seen : Pairs) (a b : Ref) : Prop :=
  (a, b) ∈ seen ∨ h.Agrees ignoreCase (fun _ _ => False) a b

theorem Met.mono {seen seen' : Pairs} (hsub : seen ⊆ seen') (hab : h.Met ignoreCase seen a b) :
    h.Met ignoreCase seen' a b := hab.imp_left fun hin => hsub hin

/-- What an answer of yes leaves behind: a comparison only adds pairs, the parts of the pairs it
adds were met as well, and so was the pair that was asked for. -/
def Closes (h : Heap) (ignoreCase : Bool) (seen seen' : Pairs) : Prop :=
  seen ⊆ seen' ∧ ∀ p ∈ seen', p ∈ seen ∨ h.Agrees ignoreCase (h.Met ignoreCase seen') p.1 p.2

theorem Closes.refl (seen : Pairs) : h.Closes ignoreCase seen seen :=
  ⟨List.Subset.refl _, fun _ hp => .inl hp⟩

theorem Closes.trans {s t u : Pairs} (hst : h.Closes ignoreCase s t)
    (htu : h.Closes ignoreCase t u) : h.Closes ignoreCase s u := by
  refine ⟨List.Subset.trans hst.1 htu.1, fun p hp => ?_⟩
  rcases htu.2 p hp with hpt | hagree
  · rcases hst.2 p hpt with hps | hagree
    · exact .inl hps
    · exact .inr (hagree.mono fun _ _ => Met.mono htu.1)
  · exact .inr hagree

theorem equalPairwise_closes {compare : Pairs → Ref → Ref → Option (Bool × Pairs)}
    (hcompare : ∀ seen a b seen', compare seen a b = some (true, seen') →
      h.Closes ignoreCase seen seen' ∧ h.Met ignoreCase seen' a b)
    {pairs : List (Ref × Ref)} {seen seen' : Pairs}
    (heq : equalPairwise compare seen pairs = some (true, seen')) :
    h.Closes ignoreCase seen seen' ∧ ∀ p ∈ pairs, h.Met ignoreCase seen' p.1 p.2 := by
  induction pairs generalizing seen with
  | nil =>
    simp only [equalPairwise, Option.some.injEq, Prod.mk.injEq, true_and] at heq
    exact ⟨heq ▸ Closes.refl seen, by simp⟩
  | cons p rest ih =>
    cases hp : compare seen p.1 p.2 with
    | none => simp [equalPairwise, hp] at heq
    | some ended =>
      obtain ⟨answer, next⟩ := ended
      cases answer with
      | false => simp [equalPairwise, hp] at heq
      | true =>
        obtain ⟨hnext, hmet⟩ := hcompare _ _ _ _ hp
        obtain ⟨hrest, hall⟩ := ih (by simpa [equalPairwise, hp] using heq)
        exact ⟨hnext.trans hrest, List.forall_mem_cons.2 ⟨hmet.mono hrest.1, hall⟩⟩

theorem equalFrom_closes {fuel : Nat} {seen seen' : Pairs}
    (heq : h.equalFrom ignoreCase fuel seen a b = some (true, seen')) :
    h.Closes ignoreCase seen seen' ∧ h.Met ignoreCase seen' a b := by
  induction fuel generalizing seen seen' a b with
  | zero => simp [equalFrom] at heq
  | succ fuel ih =>
    by_cases hkind : (h.value a).kind = (h.value b).kind
    · simp only [equalFrom, hkind, ne_eq, not_true_eq_false, if_false] at heq
      cases hscalar : (h.value a).equalScalars? ignoreCase (h.value b) with
      | some answer =>
        simp only [hscalar, Option.some.injEq, Prod.mk.injEq] at heq
        obtain ⟨rfl, rfl⟩ := heq
        exact ⟨Closes.refl seen, .inr (agrees_iff.2 ⟨hkind, by simp [hscalar]⟩)⟩
      | none =>
        simp only [hscalar] at heq
        split at heq
        case isTrue hmet =>
          obtain rfl := (Prod.mk.inj (Option.some.inj heq)).2
          refine ⟨Closes.refl seen, hmet.symm.imp_right fun he => agrees_iff.2 ⟨hkind, ?_⟩⟩
          rw [hscalar]
          exact .inl he
        case isFalse =>
          cases hpairs : (h.value a).pairParts (h.value b) with
          | none => simp [hpairs] at heq
          | some pairs =>
            simp only [hpairs] at heq
            -- the pair counts as met while its parts are compared, and they close it
            obtain ⟨hcloses, hall⟩ := equalPairwise_closes (fun _ _ _ _ hxy => ih hxy) heq
            have hin : (a, b) ∈ seen' := hcloses.1 List.mem_cons_self
            have hagree : h.Agrees ignoreCase (h.Met ignoreCase seen') a b := by
              refine agrees_iff.2 ⟨hkind, ?_⟩
              rw [hscalar]
              exact .inr ⟨pairs, hpairs, hall⟩
            refine ⟨⟨fun p hp => hcloses.1 (List.mem_cons_of_mem _ hp), fun p hp => ?_⟩, .inl hin⟩
            rcases hcloses.2 p hp with hold | hnew
            · rcases List.mem_cons.1 hold with rfl | hold
              · exact .inr hagree
              · exact .inl hold
            · exact .inr hnew
    · simp [equalFrom, hkind] at heq

/-- After an answer of yes, the pairs that were met cannot be told apart. -/
theorem respects_met {fuel : Nat} {seen : Pairs}
    (heq : h.equalFrom ignoreCase fuel [] a b = some (true, seen)) :
    h.Respects ignoreCase (h.Met ignoreCase seen) := by
  intro x y hxy
  rcases hxy with hin | hflat
  · exact ((equalFrom_closes heq).1.2 _ hin).resolve_left (by simp)
  · exact hflat.mono fun _ _ => False.elim

/-! ## The depth of a comparison -/

/-- Distinct pairs of objects of the heap. -/
structure Within (h : Heap) (seen : Pairs) : Prop where
  nodup : seen.Nodup
  left : ∀ p ∈ seen, p.1.index < h.size
  right : ∀ p ∈ seen, p.2.index < h.size

theorem Within.length_le {seen : Pairs} (hseen : h.Within seen) :
    seen.length ≤ h.size * h.size := by
  let positions : Ref × Ref → ℕ × ℕ := fun p => (p.1.index, p.2.index)
  have hinj : Function.Injective positions := by
    rintro ⟨⟨a⟩, ⟨b⟩⟩ ⟨⟨c⟩, ⟨d⟩⟩ he
    simpa [positions] using he
  have hsub : (seen.map positions).toFinset ⊆ Finset.range h.size ×ˢ Finset.range h.size := by
    intro q hq
    obtain ⟨p, hp, rfl⟩ := List.mem_map.1 (List.mem_toFinset.1 hq)
    exact Finset.mem_product.2
      ⟨Finset.mem_range.2 (hseen.left p hp), Finset.mem_range.2 (hseen.right p hp)⟩
  calc
    seen.length = (seen.map positions).toFinset.card := by
      rw [List.toFinset_card_of_nodup (hseen.nodup.map hinj), List.length_map]
    _ ≤ (Finset.range h.size ×ˢ Finset.range h.size).card := Finset.card_le_card hsub
    _ = h.size * h.size := by simp

theorem index_lt_of_value_ne {r : Ref} (hr : h.value r ≠ .number 0) : r.index < h.size := by
  by_contra hlt
  refine hr ?_
  have hnone : h.cells[r.index]? = none := by simpa [size] using hlt
  simp [value, cell, Array.getD_eq_getD_getElem?, hnone, default, Cell.fresh]

theorem Within.cons {seen : Pairs} (hseen : h.Within seen)
    (hkind : (h.value a).kind = (h.value b).kind)
    (hscalar : (h.value a).equalScalars? ignoreCase (h.value b) = none) (hnew : (a, b) ∉ seen) :
    h.Within ((a, b) :: seen) := by
  have ha : a.index < h.size := index_lt_of_value_ne fun hv => by
    cases hy : h.value b <;> simp_all [Value.kind, Value.equalScalars?]
  have hb : b.index < h.size := index_lt_of_value_ne fun hv => by
    cases hx : h.value a <;> simp_all [Value.kind, Value.equalScalars?]
  exact ⟨List.nodup_cons.2 ⟨hnew, hseen.nodup⟩, List.forall_mem_cons.2 ⟨ha, hseen.left⟩,
    List.forall_mem_cons.2 ⟨hb, hseen.right⟩⟩

/-- There is an answer, and at least as many pairs were met by then. -/
def Answers (h : Heap) (seen : Pairs) (x : Option (Bool × Pairs)) : Prop :=
  ∃ answer seen', x = some (answer, seen') ∧ h.Within seen' ∧ seen.length ≤ seen'.length

theorem equalPairwise_answers {compare : Pairs → Ref → Ref → Option (Bool × Pairs)} (bound : ℕ)
    (hcompare : ∀ seen a b, h.Within seen → bound < seen.length →
      h.Answers seen (compare seen a b))
    {pairs : List (Ref × Ref)} {seen : Pairs} (hseen : h.Within seen) (hlt : bound < seen.length) :
    h.Answers seen (equalPairwise compare seen pairs) := by
  induction pairs generalizing seen with
  | nil => exact ⟨true, seen, rfl, hseen, le_rfl⟩
  | cons p rest ih =>
    obtain ⟨answer, next, hp, hnext, hle⟩ := hcompare seen p.1 p.2 hseen hlt
    cases answer with
    | false => exact ⟨false, next, by simp [equalPairwise, hp], hnext, hle⟩
    | true =>
      obtain ⟨found, last, hrest, hlast, hle'⟩ := ih hnext (hlt.trans_le hle)
      exact ⟨found, last, by simpa [equalPairwise, hp] using hrest, hlast, hle.trans hle'⟩

/-- The fuel and the pairs that were met exceed the number of pairs, in every round. -/
theorem equalFrom_answers {fuel : ℕ} {seen : Pairs} (hseen : h.Within seen)
    (hfuel : h.size * h.size < fuel + seen.length) :
    h.Answers seen (h.equalFrom ignoreCase fuel seen a b) := by
  induction fuel generalizing seen a b with
  | zero =>
    have hle := hseen.length_le
    omega
  | succ fuel ih =>
    by_cases hkind : (h.value a).kind = (h.value b).kind
    · simp only [equalFrom, hkind, ne_eq, not_true_eq_false, if_false]
      cases hscalar : (h.value a).equalScalars? ignoreCase (h.value b) with
      | some answer => exact ⟨answer, seen, rfl, hseen, le_rfl⟩
      | none =>
        by_cases hmet : a = b ∨ (a, b) ∈ seen
        · exact ⟨true, seen, by simp [hmet], hseen, le_rfl⟩
        · have hcons := hseen.cons hkind hscalar fun hin => hmet (.inr hin)
          have hle : seen.length ≤ ((a, b) :: seen).length := Nat.le_succ _
          simp only [hmet, if_false]
          cases (h.value a).pairParts (h.value b) with
          | none => exact ⟨false, _, rfl, hcons, hle⟩
          | some pairs =>
            obtain ⟨answer, last, heq, hlast, hle'⟩ :=
              equalPairwise_answers (h.size * h.size - fuel)
                (fun _ _ _ hs hlt => ih hs (by omega)) hcons
                (by simp only [List.length_cons]; omega)
            exact ⟨answer, last, heq, hlast, hle.trans hle'⟩
    · exact ⟨false, seen, by simp [equalFrom, hkind], hseen, le_rfl⟩

theorem answer_iff {fuel : ℕ} {answer : Bool} {seen : Pairs}
    (heq : h.equalFrom ignoreCase fuel [] a b = some (answer, seen)) :
    answer = true ↔ ∃ R, h.Respects ignoreCase R ∧ R a b := by
  constructor
  · rintro rfl
    exact ⟨_, respects_met heq, (equalFrom_closes heq).2⟩
  · rintro ⟨R, hR, hab⟩
    exact equalFrom_of_related hR hab heq

theorem exists_answer (ignoreCase : Bool) {fuel : ℕ} (hfuel : h.size * h.size < fuel)
    (a b : Ref) : ∃ answer seen, h.equalFrom ignoreCase fuel [] a b = some (answer, seen) := by
  have hwithin : h.Within [] := ⟨.nil, by simp, by simp⟩
  have hanswers : h.Answers [] (h.equalFrom ignoreCase fuel [] a b) :=
    equalFrom_answers hwithin (by simpa using hfuel)
  obtain ⟨answer, seen, heq, -, -⟩ := hanswers
  exact ⟨answer, seen, heq⟩

theorem equal_eq_true_iff : h.equal ignoreCase a b = true ↔
    ∃ R, h.Respects ignoreCase R ∧ R a b := by
  obtain ⟨answer, seen, heq⟩ :=
    exists_answer ignoreCase (Nat.lt_succ_self (h.size * h.size)) a b
  have hequal : h.equal ignoreCase a b = answer := by simp [equal, heq]
  exact hequal ▸ answer_iff heq

/-- A comparison always comes to an end, however much fuel above the number of pairs of objects
it is given; and what it answers with yes is the largest relation whose pairs agree. -/
theorem equal_isGreatest (h : Heap) (ignoreCase : Bool) :
    (∀ a b fuel, h.size * h.size < fuel →
      ∃ seen, h.equalFrom ignoreCase fuel [] a b = some (h.equal ignoreCase a b, seen)) ∧
    IsGreatest {R : Ref → Ref → Prop | h.Respects ignoreCase R}
      fun a b => h.equal ignoreCase a b = true := by
  refine ⟨fun a b fuel hfuel => ?_, fun a b hab => ?_, fun R hR a b hab => ?_⟩
  · obtain ⟨answer, seen, heq⟩ := exists_answer ignoreCase hfuel a b
    have hsame : answer = h.equal ignoreCase a b :=
      Bool.eq_iff_iff.2 ((answer_iff heq).trans equal_eq_true_iff.symm)
    exact ⟨seen, hsame ▸ heq⟩
  · obtain ⟨R, hR, hRab⟩ := equal_eq_true_iff.1 hab
    exact (hR a b hRab).mono fun x y hxy => equal_eq_true_iff.2 ⟨R, hR, hxy⟩
  · exact equal_eq_true_iff.2 ⟨R, hR, hab⟩

end Heap

end VimL
