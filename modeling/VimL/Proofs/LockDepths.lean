import Mathlib.Data.List.Lex
import Mathlib.Data.Set.Finite.Lemmas
import VimL.Proofs.DeepCopies

/-!
# How deep locks go

A lock without an end marks what can be reached, and nothing else. A lock with a depth is meant to
mark what can be reached in so many steps. It goes from item to item, in order, and follows a
container only when it first comes to it with depth left. If it comes back later with more depth
left, it does not go on, so that it may miss what lies below. The ways that it takes are said here
without the walk itself: a way goes on through a container if no way that comes before leads to
this container as well. The ends of these ways are marked.
-/

namespace VimL

/-- What comes before a way in the order of items: the ways before its parent and the parent, and
those that begin with an earlier item. -/
theorem lt_concat_iff {p q : List Nat} {i : Nat} :
    q < p ++ [i] ↔ q < p ∨ q = p ∨ ∃ j < i, p ++ [j] <+: q := by
  induction p generalizing q with
  | nil =>
    cases q with
    | nil => simp
    | cons a q => simp [List.cons_lt_cons_iff, List.cons_prefix_cons, eq_comm]
  | cons b p ih =>
    cases q with
    | nil => simp
    | cons a q =>
      simp only [List.cons_append, List.cons_lt_cons_iff, ih, List.cons.injEq,
        List.cons_prefix_cons]
      grind

/-- The ways before the next item are the ways before this one, and those that begin with it. -/
theorem lt_concat_succ_iff {p q : List Nat} {i : Nat} :
    q < p ++ [i + 1] ↔ q < p ++ [i] ∨ p ++ [i] <+: q := by
  rw [lt_concat_iff, lt_concat_iff]
  constructor
  · rintro (hlt | heq | ⟨j, hj, hpq⟩)
    · exact .inl (.inl hlt)
    · exact .inl (.inr (.inl heq))
    · rcases Nat.eq_or_lt_of_le (Nat.le_of_lt_succ hj) with rfl | hlt
      · exact .inr hpq
      · exact .inl (.inr (.inr ⟨j, hlt, hpq⟩))
  · rintro ((hlt | heq | ⟨j, hj, hpq⟩) | hpq)
    · exact .inl hlt
    · exact .inr (.inl heq)
    · exact .inr (.inr ⟨j, Nat.lt_succ_of_lt hj, hpq⟩)
    · exact .inr (.inr ⟨i, Nat.lt_succ_self i, hpq⟩)

theorem exists_concat_prefix_iff {p q : List Nat} {i : Nat} :
    (∃ j, i ≤ j ∧ p ++ [j] <+: q) ↔ p ++ [i] <+: q ∨ ∃ j, i + 1 ≤ j ∧ p ++ [j] <+: q := by
  constructor
  · rintro ⟨j, hj, hpq⟩
    rcases Nat.eq_or_lt_of_le hj with rfl | hlt
    · exact .inl hpq
    · exact .inr ⟨j, hlt, hpq⟩
  · rintro (hpq | ⟨j, hj, hpq⟩)
    · exact ⟨i, Nat.le_refl i, hpq⟩
    · exact ⟨j, Nat.le_of_succ_le hj, hpq⟩

namespace Cell

theorem value_lockedFor (owner : Option Binding) (c : Cell) : (c.lockedFor owner).value = c.value :=
  rfl

theorem value_unlocked (c : Cell) : c.unlocked.value = c.value := rfl

end Cell

namespace Heap

/-- What the positions of items, one below the other, lead to. -/
def along (h : Heap) : Ref → List Nat → Option Ref
  | r, [] => some r
  | r, i :: path => ((h.value r).children[i]?).bind fun s => h.along s path

/-- The second object is the first one, or at most so many steps below it. -/
def WithinSteps (h : Heap) (steps : Nat) (r s : Ref) : Prop :=
  ∃ p : List Nat, p.length ≤ steps ∧ h.along r p = some s

/-- The ways that a walk takes which may go so many steps down: each begins where another one ends,
unless a way that comes before this one, and that may go on as well, ends there too. -/
structure IsWalk (h : Heap) (steps : Nat) (r : Ref) (W : List Nat → Prop) : Prop where
  nil : W []
  concat : ∀ p i, W (p ++ [i]) ↔ W p ∧ p.length < steps ∧ (h.along r (p ++ [i])).isSome = true ∧
    ∀ q < p, W q → q.length < steps → h.along r q ≠ h.along r p

/-- Exactly these objects have got this lock, and nothing else has changed. -/
structure Relocked (h h' : Heap) (locked : Bool) (owner : Option String) (S : Ref → Prop) :
    Prop where
  size : h'.size = h.size
  value : ∀ s, h'.value s = h.value s
  inside : ∀ s, S s → s.index < h.size → h'.isLocked s = locked ∧ h'.owner s = owner
  outside : ∀ s, ¬S s → h'.cell s = h.cell s

variable {h h' h'' : Heap} {steps : Nat} {r s x : Ref} {W : List Nat → Prop} {p q : List Nat}

theorem along_append (p q : List Nat) :
    h.along r (p ++ q) = (h.along r p).bind fun s => h.along s q := by
  induction p generalizing r with
  | nil => rfl
  | cons i p ih =>
    rw [List.cons_append, along, along, Option.bind_assoc]
    exact Option.bind_congr fun s _ => ih

theorem along_concat (hp : h.along r p = some x) (i : Nat) :
    h.along r (p ++ [i]) = (h.value x).children[i]? := by
  rw [along_append, hp, Option.bind_some, along]
  exact Option.bind_fun_some _

/-! ## Marks -/

/-- Exactly these objects have been marked, some of them more than once. -/
structure Marks (mark : Cell → Cell) (S : Ref → Prop) (h h' : Heap) : Prop where
  size : h'.size = h.size
  value : ∀ s, h'.value s = h.value s
  inside : ∀ s, S s → s.index < h.size → ∃ n, h'.cell s = mark^[n + 1] (h.cell s)
  outside : ∀ s, ¬S s → h'.cell s = h.cell s

namespace Marks

variable {mark : Cell → Cell} {S T : Ref → Prop}

theorem none (h : Heap) : h.Marks mark (fun _ => False) h where
  size := rfl
  value _ := rfl
  inside _ := False.elim
  outside _ _ := rfl

theorem congr (hm : Marks mark S h h') (hST : ∀ s, S s ↔ T s) : Marks mark T h h' where
  size := hm.size
  value := hm.value
  inside s hs := hm.inside s ((hST s).2 hs)
  outside s hs := hm.outside s fun h => hs ((hST s).1 h)

theorem trans (hm : Marks mark S h h') (hm' : Marks mark T h' h'') :
    Marks mark (fun s => S s ∨ T s) h h'' := by
  constructor
  case size => exact hm'.size.trans hm.size
  case value => exact fun s => (hm'.value s).trans (hm.value s)
  case outside =>
    intro s hs
    rw [not_or] at hs
    exact (hm'.outside s hs.2).trans (hm.outside s hs.1)
  case inside =>
    intro s hs hin
    by_cases hT : T s
    · obtain ⟨n, hsecond⟩ := hm'.inside s hT (hm.size.symm ▸ hin)
      by_cases hS : S s
      · obtain ⟨m, hfirst⟩ := hm.inside s hS hin
        refine ⟨n + (m + 1), ?_⟩
        rw [hsecond, hfirst, ← Function.iterate_add_apply, Nat.add_right_comm]
      · exact ⟨n, hsecond.trans (congrArg _ (hm.outside s hS))⟩
    · obtain ⟨m, hfirst⟩ := hm.inside s (hs.resolve_right hT) hin
      exact ⟨m, (hm'.outside s hT).trans hfirst⟩

theorem modifyCell (hmark : ∀ c, (mark c).value = c.value) (h : Heap) (r : Ref) :
    Marks mark (fun s => s = r) h (h.modifyCell r mark) where
  size := h.size_modifyCell r mark
  value _ := value_modifyCell hmark
  inside s hs hin := by
    subst hs
    exact ⟨0, h.cell_modifyCell_self s mark hin⟩
  outside s hs := (h.cell_modifyCell r s mark).resolve_right fun hnew => hs hnew.1

end Marks

/-! ## Fuel -/

theorem subset_markFrom (mark : Cell → Cell) (fuel : Nat) (depth : Int) (state : List Ref × Heap)
    (r : Ref) : state.1 ⊆ (markFrom mark fuel depth state r).1 :=
  markFrom_invariant (P := fun now => state.1 ⊆ now.1) (fun _ _ _ => id)
    (fun seen _ r hsub => List.Subset.trans hsub (List.subset_cons_self r seen))
    (List.Subset.refl _) fuel depth r

/-- What is visited on the way leaves less to visit. -/
theorem unseen_markFrom_le (mark : Cell → Cell) (fuel : Nat) (depth : Int)
    (state : List Ref × Heap) (r : Ref) :
    (markFrom mark fuel depth state r).2.unseen (markFrom mark fuel depth state r).1 ≤
      state.2.unseen state.1 :=
  unseen_le_of_subset (size_markFrom r mark fuel depth state)
    (subset_markFrom mark fuel depth state r)

/-- Fuel above the number of objects that are not visited is never used up. -/
theorem markFrom_fuel {mark : Cell → Cell} (hmark : ∀ c, (mark c).value = c.value)
    {fuel fuel' : Nat} {depth : Int} {state : List Ref × Heap}
    (hfuel : state.2.unseen state.1 < fuel) (hfuel' : state.2.unseen state.1 < fuel') :
    markFrom mark fuel depth state r = markFrom mark fuel' depth state r := by
  induction fuel generalizing fuel' depth state r with
  | zero => exact absurd hfuel (Nat.not_lt_zero _)
  | succ fuel ih =>
    cases fuel' with
    | zero => exact absurd hfuel' (Nat.not_lt_zero _)
    | succ fuel' =>
      obtain ⟨seen, h⟩ := state
      have hfold (depth : Int) (rs : List Ref) (state : List Ref × Heap)
          (hrs : rs ≠ [] → state.2.unseen state.1 < fuel ∧ state.2.unseen state.1 < fuel') :
          rs.foldl (markFrom mark fuel depth) state =
            rs.foldl (markFrom mark fuel' depth) state := by
        induction rs generalizing state with
        | nil => rfl
        | cons t rest ihrest =>
          obtain ⟨hleft, hleft'⟩ := hrs (List.cons_ne_nil _ _)
          have hstill := unseen_markFrom_le mark fuel depth state t
          rw [List.foldl_cons, List.foldl_cons, ← ih hleft hleft']
          exact ihrest _ fun _ => ⟨by omega, by omega⟩
      by_cases hstop : depth = 1 ∨ r ∈ seen
      · rw [markFrom_of_stop fuel hstop, markFrom_of_stop fuel' hstop]
      · obtain ⟨hdepth, hnew⟩ := not_or.1 hstop
        rw [markFrom_of_new hmark fuel hdepth hnew, markFrom_of_new hmark fuel' hdepth hnew]
        apply hfold
        intro hchildren
        exact ⟨unseen_below_lt hnew hfuel hchildren, unseen_below_lt hnew hfuel' hchildren⟩

theorem markFrom_fuel_irrelevant {mark : Cell → Cell} (hmark : ∀ c, (mark c).value = c.value)
    (depth : Int) (h : Heap) (r : Ref) {fuel : Nat} (hfuel : h.size < fuel) :
    markFrom mark fuel depth ([], h) r = markFrom mark (h.size + 1) depth ([], h) r := by
  have hunseen := h.unseen_le_size []
  apply markFrom_fuel hmark
  · exact Nat.lt_of_le_of_lt hunseen hfuel
  · exact Nat.lt_succ_of_le hunseen

/-! ## Walks -/

namespace IsWalk

variable (hW : h.IsWalk steps r W)

include hW

theorem of_concat {i : Nat} (hp : W (p ++ [i])) : W p := ((hW.concat p i).1 hp).1

theorem of_append (hp : W (p ++ q)) : W p := by
  induction q using List.reverseRecOn with
  | nil => rwa [List.append_nil] at hp
  | append_singleton q i ih =>
    rw [← List.append_assoc] at hp
    exact ih (hW.of_concat hp)

theorem length_le (hp : W p) : p.length ≤ steps := by
  cases p using List.reverseRecOn with
  | nil => exact Nat.zero_le _
  | append_singleton p i =>
    rw [List.length_append, List.length_singleton]
    exact ((hW.concat p i).1 hp).2.1

theorem of_prefix (hpq : p <+: q) (hq : W q) : W p := by
  obtain ⟨rest, rfl⟩ := hpq
  exact hW.of_append hq

/-- A way that begins with another one is this one, or goes on to an item. -/
theorem begins_iff (hx : h.along r p = some x) (hq : W q) :
    p <+: q ↔ q = p ∨ ∃ j < (h.value x).children.length, p ++ [j] <+: q := by
  constructor
  · rintro ⟨rest, rfl⟩
    cases rest with
    | nil => exact .inl (List.append_nil p)
    | cons j rest =>
      rw [← List.singleton_append, ← List.append_assoc] at hq ⊢
      obtain ⟨-, -, hsome, -⟩ := (hW.concat p j).1 (hW.of_append hq)
      rw [along_concat hx] at hsome
      exact .inr ⟨j, by simpa using hsome, List.prefix_append _ _⟩
  · rintro (rfl | ⟨j, -, hpq⟩)
    · exact List.prefix_refl q
    · exact (List.prefix_append p [j]).trans hpq

/-- A way that is as long as it may be does not go on. -/
theorem eq_of_prefix (hp : p.length = steps) (hq : W q) (hpq : p <+: q) : q = p := by
  have hle := hW.length_le hq
  exact (hpq.eq_of_length_le (by omega)).symm

end IsWalk

/-- The walk comes with depth left to this object, on one of these ways. -/
def Arrives (h : Heap) (steps : Nat) (r : Ref) (W P : List Nat → Prop) (s : Ref) : Prop :=
  ∃ q, W q ∧ P q ∧ q.length < steps ∧ h.along r q = some s

/-- One of these ways leads to the object. -/
def EndsAt (h : Heap) (r : Ref) (W : List Nat → Prop) (s : Ref) : Prop :=
  ∃ q, W q ∧ h.along r q = some s

theorem Arrives.congr {P Q : List Nat → Prop} (hPQ : ∀ q, W q → q.length < steps → (P q ↔ Q q))
    (s : Ref) : h.Arrives steps r W P s ↔ h.Arrives steps r W Q s := by
  constructor
  · rintro ⟨q, hq, hP, hshort, hs⟩
    exact ⟨q, hq, (hPQ q hq hshort).1 hP, hshort, hs⟩
  · rintro ⟨q, hq, hQ, hshort, hs⟩
    exact ⟨q, hq, (hPQ q hq hshort).2 hQ, hshort, hs⟩

/-- What a walk has done below the end of a way: it has visited the ends of the ways that come
before or begin with this one, and it has marked the ends of those that begin with it. -/
structure Walks (h : Heap) (steps : Nat) (r : Ref) (W : List Nat → Prop) (mark : Cell → Cell)
    (P Q : List Nat → Prop) (before after : List Ref × Heap) : Prop where
  seen : ∀ s, s ∈ after.1 ↔ h.Arrives steps r W P s
  marks : Marks mark (h.EndsAt r fun q => W q ∧ Q q) before.2 after.2

/-- If the walk does not go on here, then no other way begins with this one. -/
theorem walks_stay {mark : Cell → Cell} (hmark : ∀ c, (mark c).value = c.value) {x : Ref}
    (hp : W p) (hx : h.along r p = some x) {seen : List Ref} {now : Heap}
    (hseen : ∀ s, s ∈ seen ↔ h.Arrives steps r W (· < p) s)
    (halone : ∀ q, W q → p <+: q → q = p) (hleft : p.length < steps → x ∈ seen) :
    h.Walks steps r W mark (fun q => q < p ∨ p <+: q) (fun q => p <+: q) (seen, now)
      (seen, now.modifyCell x mark) := by
  constructor
  case seen =>
    intro s
    constructor
    · intro hs
      obtain ⟨q, hq, hlt, hshort, hqs⟩ := (hseen s).1 hs
      exact ⟨q, hq, .inl hlt, hshort, hqs⟩
    · rintro ⟨q, hq, hlt | hpq, hshort, hqs⟩
      · exact (hseen s).2 ⟨q, hq, hlt, hshort, hqs⟩
      · obtain rfl := halone q hq hpq
        obtain rfl := Option.some.inj (hx.symm.trans hqs)
        exact hleft hshort
  case marks =>
    refine (Marks.modifyCell hmark now x).congr fun s => ⟨?_, ?_⟩
    · rintro rfl
      exact ⟨p, ⟨hp, List.prefix_refl p⟩, hx⟩
    · rintro ⟨q, ⟨hq, hpq⟩, hqs⟩
      obtain rfl := halone q hq hpq
      exact Option.some.inj (hqs.symm.trans hx)

/-- The items of a container that is followed are gone through in order. -/
theorem walks_foldl (hW : h.IsWalk steps r W) (mark : Cell → Cell) (fuel : Nat) (depth : Int)
    {p : List Nat} {x : Ref} (hp : W p) (hx : h.along r p = some x) (hshort : p.length < steps)
    (hfirst : ∀ q < p, W q → q.length < steps → h.along r q ≠ h.along r p)
    (hone : ∀ i t state, W (p ++ [i]) → h.along r (p ++ [i]) = some t →
      (∀ s, state.2.value s = h.value s) →
      (∀ s, s ∈ state.1 ↔ h.Arrives steps r W (· < p ++ [i]) s) →
      state.2.unseen state.1 < fuel →
      h.Walks steps r W mark (fun q => q < p ++ [i] ∨ p ++ [i] <+: q) (fun q => p ++ [i] <+: q)
        state (markFrom mark fuel depth state t))
    (done rest : List Ref) (hitems : (h.value x).children = done ++ rest)
    (state : List Ref × Heap) (hvalue : ∀ s, state.2.value s = h.value s)
    (hseen : ∀ s, s ∈ state.1 ↔ h.Arrives steps r W (· < p ++ [done.length]) s)
    (hfuel : rest ≠ [] → state.2.unseen state.1 < fuel) :
    h.Walks steps r W mark (fun q => q < p ++ [(done ++ rest).length])
      (fun q => ∃ j, done.length ≤ j ∧ p ++ [j] <+: q) state
      (rest.foldl (markFrom mark fuel depth) state) := by
  induction rest generalizing done state with
  | nil =>
    constructor
    case seen => rwa [List.append_nil]
    case marks =>
      refine (Marks.none state.2).congr fun s => ⟨False.elim, ?_⟩
      rintro ⟨q, ⟨hq, j, hj, rest, rfl⟩, -⟩
      obtain ⟨-, -, hsome, -⟩ := (hW.concat p j).1 (hW.of_append hq)
      rw [along_concat hx, hitems, List.append_nil] at hsome
      exact absurd hj (by simpa using hsome)
  | cons t rest ih =>
    have hitem : h.along r (p ++ [done.length]) = some t := by
      rw [along_concat hx, hitems]
      simp
    have hway : W (p ++ [done.length]) :=
      (hW.concat p _).2 ⟨hp, hshort, by rw [hitem]; rfl, hfirst⟩
    have hleft := hfuel (List.cons_ne_nil t rest)
    have hthis := hone done.length t state hway hitem hvalue hseen hleft
    have hstill := unseen_markFrom_le mark fuel depth state t
    -- the ways through this item come before those through the items that are left
    have hnext : done ++ t :: rest = (done ++ [t]) ++ rest := by simp
    have hrest := ih (done ++ [t]) (hitems.trans hnext) (markFrom mark fuel depth state t)
      (fun s => (hthis.marks.value s).trans (hvalue s)) (fun s => ?_) fun _ => by omega
    · rw [List.foldl_cons, hnext]
      refine ⟨hrest.seen, (hthis.marks.trans hrest.marks).congr fun s => ?_⟩
      rw [List.length_append, List.length_singleton]
      constructor
      · rintro (⟨q, ⟨hq, hpq⟩, hs⟩ | ⟨q, ⟨hq, hpq⟩, hs⟩)
        · exact ⟨q, ⟨hq, exists_concat_prefix_iff.2 (.inl hpq)⟩, hs⟩
        · exact ⟨q, ⟨hq, exists_concat_prefix_iff.2 (.inr hpq)⟩, hs⟩
      · rintro ⟨q, ⟨hq, hpq⟩, hs⟩
        rcases exists_concat_prefix_iff.1 hpq with hpq | hpq
        · exact .inl ⟨q, ⟨hq, hpq⟩, hs⟩
        · exact .inr ⟨q, ⟨hq, hpq⟩, hs⟩
    · rw [hthis.seen]
      refine Arrives.congr (fun q _ _ => ?_) s
      rw [List.length_append, List.length_singleton, lt_concat_succ_iff]

/-- Once a container is visited, it counts for the ways to its items. -/
theorem mem_cons_iff_arrives (hp : W p) (hx : h.along r p = some x) (hshort : p.length < steps)
    {seen : List Ref} (hseen : ∀ s, s ∈ seen ↔ h.Arrives steps r W (· < p) s) (s : Ref) :
    s ∈ x :: seen ↔ h.Arrives steps r W (· < p ++ [0]) s := by
  rw [List.mem_cons, hseen]
  constructor
  · rintro (rfl | ⟨q, hq, hlt, hqshort, hqs⟩)
    · exact ⟨p, hp, lt_concat_iff.2 (.inr (.inl rfl)), hshort, hx⟩
    · exact ⟨q, hq, lt_concat_iff.2 (.inl hlt), hqshort, hqs⟩
  · rintro ⟨q, hq, hlt, hqshort, hqs⟩
    rcases lt_concat_iff.1 hlt with hlt | rfl | ⟨j, hj, -⟩
    · exact .inr ⟨q, hq, hlt, hqshort, hqs⟩
    · exact .inl (Option.some.inj (hqs.symm.trans hx))
    · exact absurd hj (Nat.not_lt_zero j)

/-- The ways that begin with this one go to the container itself, or on to one of its items. -/
theorem walks_on (hW : h.IsWalk steps r W) {mark : Cell → Cell}
    (hmark : ∀ c, (mark c).value = c.value) (hp : W p) (hx : h.along r p = some x)
    {seen : List Ref} {now : Heap} {after : List Ref × Heap}
    (hitems : h.Walks steps r W mark (fun q => q < p ++ [(h.value x).children.length])
      (fun q => ∃ j, 0 ≤ j ∧ p ++ [j] <+: q) (x :: seen, now.modifyCell x mark) after) :
    h.Walks steps r W mark (fun q => q < p ∨ p <+: q) (fun q => p <+: q) (seen, now) after := by
  have hself : Marks mark (fun s => s = x) now (now.modifyCell x mark) := .modifyCell hmark now x
  constructor
  case seen =>
    intro s
    rw [hitems.seen]
    refine Arrives.congr (fun q hq _ => ?_) s
    rw [lt_concat_iff, hW.begins_iff hx hq]
  case marks =>
    refine (hself.trans hitems.marks).congr fun s => ⟨?_, ?_⟩
    · rintro (rfl | ⟨q, ⟨hq, j, -, hpq⟩, hs⟩)
      · exact ⟨p, ⟨hp, List.prefix_refl p⟩, hx⟩
      · exact ⟨q, ⟨hq, (List.prefix_append p [j]).trans hpq⟩, hs⟩
    · rintro ⟨q, ⟨hq, hpq⟩, hs⟩
      rcases (hW.begins_iff hx hq).1 hpq with rfl | ⟨j, -, hpq⟩
      · exact .inl (Option.some.inj (hs.symm.trans hx))
      · exact .inr ⟨q, ⟨hq, j, Nat.zero_le j, hpq⟩, hs⟩

/-- The induction is on the fuel. The containers that have been visited are those at the ends of
the ways that come before this one. -/
theorem walks_markFrom (hW : h.IsWalk steps r W) {mark : Cell → Cell}
    (hmark : ∀ c, (mark c).value = c.value) (fuel : Nat) {p : List Nat} {x : Ref} (hp : W p)
    (hx : h.along r p = some x) (state : List Ref × Heap)
    (hvalue : ∀ s, state.2.value s = h.value s)
    (hseen : ∀ s, s ∈ state.1 ↔ h.Arrives steps r W (· < p) s)
    (hfuel : state.2.unseen state.1 < fuel) :
    h.Walks steps r W mark (fun q => q < p ∨ p <+: q) (fun q => p <+: q) state
      (markFrom mark fuel (((steps - p.length : Nat) : Int) + 1) state x) := by
  induction fuel generalizing p x state with
  | zero => exact absurd hfuel (Nat.not_lt_zero _)
  | succ fuel ih =>
    obtain ⟨seen, now⟩ := state
    have hle := hW.length_le hp
    by_cases hdepth : ((steps - p.length : Nat) : Int) + 1 = 1
    · have hend : p.length = steps := by omega
      rw [markFrom_of_stop fuel (.inl hdepth)]
      apply walks_stay hmark hp hx hseen
      · exact fun q hq hpq => hW.eq_of_prefix hend hq hpq
      · exact fun hshort => absurd hend hshort.ne
    have hshort : p.length < steps := by omega
    by_cases hin : x ∈ seen
    · rw [markFrom_of_stop fuel (.inr hin)]
      refine walks_stay hmark hp hx hseen (fun q hq hpq => ?_) fun _ => hin
      -- a way that goes on would be the first one to come here
      refine ((hW.begins_iff hx hq).1 hpq).resolve_right ?_
      rintro ⟨j, -, hpj⟩
      obtain ⟨-, -, -, hfirst⟩ := (hW.concat p j).1 (hW.of_prefix hpj hq)
      obtain ⟨q, hq, hlt, hqshort, hqx⟩ := (hseen x).1 hin
      exact absurd (hqx.trans hx.symm) (hfirst q hlt hq hqshort)
    · have hfirst : ∀ q < p, W q → q.length < steps → h.along r q ≠ h.along r p := by
        intro q hlt hq hqshort heq
        exact hin ((hseen x).2 ⟨q, hq, hlt, hqshort, heq.trans hx⟩)
      have hbelow : depthBelow (((steps - p.length : Nat) : Int) + 1) =
          ((steps - (p.length + 1) : Nat) : Int) + 1 := by
        rw [depthBelow, if_pos (by omega)]
        omega
      rw [markFrom_of_new hmark fuel hdepth hin, hbelow, hvalue x]
      apply walks_on hW hmark hp hx
      apply walks_foldl hW mark fuel _ hp hx hshort hfirst ?_ [] _ rfl (x :: seen, _)
      · exact fun s => (value_modifyCell hmark).trans (hvalue s)
      · exact mem_cons_iff_arrives hp hx hshort hseen
      · intro hsome
        rw [← hvalue] at hsome
        exact unseen_below_lt hin hfuel hsome
      · intro i t state hway ht hvalue hseen hfuel
        have hitem := ih hway ht state hvalue hseen hfuel
        rwa [List.length_append, List.length_singleton] at hitem

/-! ## Ways -/

theorem finite_ways (h : Heap) (steps : Nat) (r : Ref) :
    {p : List Nat | p.length ≤ steps ∧ (h.along r p).isSome = true}.Finite := by
  induction steps generalizing r with
  | zero =>
    refine (Set.finite_singleton []).subset fun p hp => ?_
    exact List.eq_nil_of_length_eq_zero (Nat.le_zero.1 hp.1)
  | succ steps ih =>
    have hitems := (Set.finite_lt_nat (h.value r).children.length).biUnion fun i _ =>
      (ih ((h.value r).children.getD i r)).image (i :: ·)
    refine ((Set.finite_singleton []).union hitems).subset ?_
    rintro (- | ⟨i, p⟩) ⟨hlength, hsome⟩
    · exact .inl rfl
    · right
      rw [along] at hsome
      cases hi : (h.value r).children[i]? with
      | none =>
        rw [hi] at hsome
        cases hsome
      | some s =>
        rw [hi] at hsome
        obtain ⟨hin, -⟩ := List.getElem?_eq_some_iff.1 hi
        refine Set.mem_biUnion hin ⟨p, ⟨Nat.le_of_succ_le_succ hlength, ?_⟩, rfl⟩
        rw [List.getD_eq_getElem?_getD, hi]
        exact hsome

/-- Whether the walk takes a way depends on the ways before it, of which there are finitely many. -/
theorem exists_isWalk (h : Heap) (steps : Nat) (r : Ref) : ∃ W, h.IsWalk steps r W := by
  let ways := {p : List Nat | p.length ≤ steps ∧ (h.along r p).isSome = true}
  have : Finite ways := h.finite_ways steps r
  let takes : ways → Prop := WellFoundedLT.fix fun p before =>
    ∀ (q : ways) (i : Nat) (hpq : p.1 = q.1 ++ [i]),
      before q (hpq ▸ lt_concat_iff.2 (.inr (.inl rfl)) : q.1 < p.1) ∧
        ∀ (q' : ways) (hlt : q' < q), before q' (hpq ▸ lt_concat_iff.2 (.inl hlt) : q'.1 < p.1) →
          q'.1.length < steps → h.along r q' ≠ h.along r q
  have htakes (p : ways) : takes p ↔ ∀ (q : ways) (i : Nat), p.1 = q.1 ++ [i] →
      takes q ∧ ∀ q' < q, takes q' → q'.1.length < steps → h.along r q' ≠ h.along r q := by
    exact Iff.of_eq (WellFoundedLT.fix_eq _ p)
  refine ⟨fun p => ∃ hp : p ∈ ways, takes ⟨p, hp⟩, ⟨⟨Nat.zero_le _, rfl⟩, ?_⟩, fun p i => ?_⟩
  · refine (htakes _).2 fun q i hq => ?_
    exact absurd hq.symm (List.append_ne_nil_of_right_ne_nil _ (List.cons_ne_nil _ _))
  · constructor
    · rintro ⟨hin, hp⟩
      have hlength : p.length < steps := by
        have hle := hin.1
        rwa [List.length_append, List.length_singleton] at hle
      have hsome : (h.along r p).isSome = true := by
        have hsome := hin.2
        rw [along_append] at hsome
        exact Option.isSome_of_isSome_bind hsome
      obtain ⟨hparent, hfirst⟩ := (htakes _).1 hp ⟨p, hlength.le, hsome⟩ i rfl
      refine ⟨⟨_, hparent⟩, hlength, hin.2, fun q hlt ⟨hq, htaken⟩ hshort => ?_⟩
      exact hfirst ⟨q, hq⟩ hlt htaken hshort
    · rintro ⟨⟨hin, hp⟩, hshort, hsome, hfirst⟩
      have hlength : (p ++ [i]).length ≤ steps := by
        rwa [List.length_append, List.length_singleton]
      refine ⟨⟨hlength, hsome⟩, (htakes _).2 ?_⟩
      rintro ⟨q, hq⟩ j heq
      obtain rfl : p = q := (List.append_inj' heq rfl).1
      exact ⟨hp, fun q hlt htaken hqshort => hfirst q hlt ⟨q.2, htaken⟩ hqshort⟩

/-- Among the ways that come to a container with depth left, one is the first. -/
theorem exists_first (hq : W q) (hshort : q.length < steps) (hx : h.along r q = some x) :
    ∃ p, W p ∧ p.length < steps ∧ h.along r p = some x ∧
      ∀ q < p, W q → q.length < steps → h.along r q ≠ some x := by
  have hfinite : {p | W p ∧ p.length < steps ∧ h.along r p = some x}.Finite := by
    apply (h.finite_ways steps r).subset
    rintro p ⟨-, hshort, hp⟩
    exact ⟨hshort.le, Option.isSome_iff_exists.2 ⟨x, hp⟩⟩
  obtain ⟨p, ⟨hp, hpshort, hpx⟩, hmin⟩ :=
    Set.exists_min_image _ id hfinite ⟨q, hq, hshort, hx⟩
  refine ⟨p, hp, hpshort, hpx, fun q hlt hq hqshort hqx => ?_⟩
  exact absurd (hmin q ⟨hq, hqshort, hqx⟩) (not_le.2 hlt)

/-- No container but the first one can be reached at the last moment and earlier as well. -/
def IsEven (h : Heap) (steps : Nat) (r : Ref) : Prop :=
  ∀ x p q, (h.value x).children ≠ [] → h.along r p = some x → h.along r q = some x →
    p.length + 1 < steps → q.length + 1 = steps → x = r

theorem EndsAt.withinSteps (hW : h.IsWalk steps r W) (hs : h.EndsAt r W s) :
    h.WithinSteps steps r s := by
  obtain ⟨p, hp, hps⟩ := hs
  exact ⟨p, hW.length_le hp, hps⟩

/-- By induction on how something is reached: a container on the way is followed with enough depth
left, since where it is first followed with less, it is the first container. -/
theorem IsWalk.endsAt_of_isEven (hW : h.IsWalk steps r W) (heven : h.IsEven steps r)
    (hs : h.WithinSteps steps r s) : h.EndsAt r W s := by
  obtain ⟨p, hlength, hp⟩ := hs
  suffices hway : ∃ q, W q ∧ h.along r q = some s ∧ (p.length < steps → q.length < steps) by
    obtain ⟨q, hq, hqs, -⟩ := hway
    exact ⟨q, hq, hqs⟩
  induction p using List.reverseRecOn generalizing s with
  | nil => exact ⟨[], hW.nil, hp, id⟩
  | append_singleton p i ih =>
    rw [List.length_append, List.length_singleton] at hlength ⊢
    have hparent := hp
    rw [along_append] at hparent
    obtain ⟨x, hx, -⟩ := Option.bind_eq_some_iff.1 hparent
    have hitem : (h.value x).children[i]? = some s := (along_concat hx i).symm.trans hp
    obtain ⟨q, hq, hqx, hqshort⟩ := ih (by omega) hx
    obtain ⟨w, hw, hwshort, hwx, hfirst⟩ := exists_first hq (hqshort hlength) hqx
    refine ⟨w ++ [i], ?_, (along_concat hwx i).trans hitem, fun hshort => ?_⟩
    · refine (hW.concat w i).2 ⟨hw, hwshort, ?_, hwx ▸ hfirst⟩
      rw [along_concat hwx, hitem]
      rfl
    · rw [List.length_append, List.length_singleton]
      by_contra hlast
      have hchildren : (h.value x).children ≠ [] := by
        intro hnone
        rw [hnone] at hitem
        cases hitem
      obtain rfl := heven x p w hchildren hx hwx hshort (by omega)
      -- nothing comes before the first container itself
      have hnil : w = [] := by
        by_contra hsome
        obtain ⟨j, w, rfl⟩ := List.exists_cons_of_ne_nil hsome
        exact hfirst [] (List.nil_lt_cons j w) hW.nil (by simp only [List.length_nil]; omega) rfl
      subst hnil
      simp only [List.length_nil] at hlast
      omega

/-! ## Locks -/

namespace Marks

variable {mark : Cell → Cell} {S : Ref → Prop} {locked : Bool} {owner : Option String}

theorem relocked (hm : Marks mark S h h')
    (hmark : ∀ n c, (mark^[n + 1] c).locked = locked ∧ (mark^[n + 1] c).owner = owner) :
    h.Relocked h' locked owner S where
  size := hm.size
  value := hm.value
  inside s hs hin := by
    obtain ⟨n, hcell⟩ := hm.inside s hs hin
    unfold isLocked Heap.owner
    rw [hcell]
    exact hmark n _
  outside := hm.outside

end Marks

theorem relocked_lock {depth : Int} {owner : Option Binding} {S : Ref → Prop}
    (hm : Marks (·.lockedFor owner) S h
      (markFrom (·.lockedFor owner) (h.size + 1) depth ([], h) r).2) (hr : S r) :
    h.Relocked (h.lock depth owner r) true (owner.map (·.canonicalName)) S := by
  have hlocked : h.Relocked (markFrom (·.lockedFor owner) (h.size + 1) depth ([], h) r).2 true
      (owner.map (·.canonicalName)) S := by
    apply hm.relocked
    intro n c
    rw [Cell.lockedFor_iterate]
    exact ⟨rfl, rfl⟩
  cases owner with
  | none => exact hlocked
  | some b =>
    have hnoted (s : Ref) := cell_modifyCell
      (markFrom (·.lockedFor (some b)) (h.size + 1) depth ([], h) r).2 r s (·.noted (.named b))
    constructor
    case size => exact (size_modifyCell _ r _).trans hlocked.size
    case value => exact fun s => h.value_lock r s depth (some b)
    case inside =>
      intro s hs hin
      have hmarked := hlocked.inside s hs hin
      unfold isLocked Heap.owner lock at *
      rcases hnoted s with hcell | ⟨-, -, hcell⟩
      all_goals rwa [hcell]
    case outside =>
      intro s hs
      refine ((hnoted s).resolve_right ?_).trans (hlocked.outside s hs)
      rintro ⟨rfl, -⟩
      exact hs hr

theorem relocked_unlock {depth : Int} {S : Ref → Prop}
    (hm : Marks Cell.unlocked S h (markFrom Cell.unlocked (h.size + 1) depth ([], h) r).2) :
    h.Relocked (h.unlock depth r) false none S := by
  apply hm.relocked
  intro n c
  rw [Cell.unlocked_iterate]
  exact ⟨rfl, rfl⟩

/-- If the objects are some of these, then they can be said to be all of these as long as the others
have got this lock already. -/
theorem Relocked.widen_iff {locked : Bool} {owner : Option String} {S T : Ref → Prop}
    (hS : h.Relocked h' locked owner S) (hST : ∀ s, S s → T s) :
    h.Relocked h' locked owner T ↔ ∀ s, T s → s.index < h.size →
      S s ∨ (h.isLocked s = locked ∧ h.owner s = owner) := by
  have hsame {s : Ref} (hs : ¬S s) : h'.isLocked s = h.isLocked s ∧ h'.owner s = h.owner s :=
    ⟨congrArg Cell.locked (hS.outside s hs), congrArg Cell.owner (hS.outside s hs)⟩
  constructor
  · intro hT s hs hin
    by_cases hends : S s
    · exact .inl hends
    · rw [← (hsame hends).1, ← (hsame hends).2]
      exact .inr (hT.inside s hs hin)
  · intro hall
    refine ⟨hS.size, hS.value, fun s hs hin => ?_, fun s hs => hS.outside s (hs ∘ hST s)⟩
    by_cases hends : S s
    · exact hS.inside s hends hin
    · rw [(hsame hends).1, (hsame hends).2]
      exact (hall s hs hin).resolve_left hends

/-! ### Locks without an end -/

theorem lockReaches_iff_contains {depth : Int} (hdepth : depth < 1) :
    h.LockReaches depth r s ↔ h.Contains r s := by
  constructor
  · intro hs
    induction hs with
    | self => exact .refl
    | item _ ht _ ih =>
      refine .head ht (ih ?_)
      rwa [depthBelow, if_neg (by omega)]
  · intro hs
    induction hs using Relation.ReflTransGen.head_induction_on with
    | refl => exact .self depth s
    | head ht _ ih =>
      refine .item (by omega) ht ?_
      rwa [depthBelow, if_neg (by omega)]

/-- A walk without an end marks what it can come to, and nothing else. -/
theorem marks_contained {mark : Cell → Cell} (hmark : ∀ c, (mark c).value = c.value) {depth : Int}
    (hdepth : depth < 1) (h : Heap) (r : Ref) :
    Marks mark (h.Contains r) h (markFrom mark (h.size + 1) depth ([], h) r).2 := by
  obtain ⟨hvisits, hr⟩ := visits_markFrom (r := r) hmark hdepth (h.size + 1) ([], h)
    (Nat.lt_succ_of_le (h.unseen_le_size []))
  constructor
  case size => exact hvisits.size
  case value => exact hvisits.value
  case inside =>
    intro s hs hin
    have hvisited := hvisits.mem_of_lockReaches hdepth ((lockReaches_iff_contains hdepth).2 hs) hr
    exact hvisits.marked s hvisited List.not_mem_nil hin
  case outside =>
    intro s hs
    apply cell_markFrom_of_not_lockReaches hmark
    rwa [lockReaches_iff_contains hdepth]

/-- A lock without an end comes to its end, however much fuel above the number of objects it is
given, and has then locked exactly what can be reached. So does the unlock that follows. -/
theorem lock_relocks_contained (h : Heap) (r : Ref) (owner : Option Binding) {depth depth' : Int}
    (hdepth : depth < 1) (hdepth' : depth' < 1) :
    (∀ fuel, h.size < fuel → markFrom (·.lockedFor owner) fuel depth ([], h) r =
      markFrom (·.lockedFor owner) (h.size + 1) depth ([], h) r) ∧
    h.Relocked (h.lock depth owner r) true (owner.map (·.canonicalName)) (h.Contains r) ∧
    (∀ fuel, h.size < fuel → markFrom (·.unlocked) fuel depth' ([], h.lock depth owner r) r =
      markFrom (·.unlocked) (h.size + 1) depth' ([], h.lock depth owner r) r) ∧
    (h.lock depth owner r).Relocked ((h.lock depth owner r).unlock depth' r) false none
      (h.Contains r) := by
  have hlocked := marks_contained (Cell.value_lockedFor owner) hdepth h r
  have hunlocked := marks_contained Cell.value_unlocked hdepth' (h.lock depth owner r) r
  have hsame (s : Ref) : (h.lock depth owner r).Contains r s ↔ h.Contains r s := by
    unfold Contains
    simp only [value_lock]
  have hsize := h.size_lock r depth owner
  refine ⟨fun fuel => ?_, relocked_lock hlocked .refl, fun fuel => ?_,
    relocked_unlock (hunlocked.congr hsame)⟩
  · exact markFrom_fuel_irrelevant (Cell.value_lockedFor owner) depth h r
  · rw [← hsize]
    exact markFrom_fuel_irrelevant Cell.value_unlocked depth' (h.lock depth owner r) r

theorem lock_relocks_contained_selfHolding :
    (-1 : Int) < 1 ∧ selfHolding.Contains ⟨0⟩ ⟨1⟩ ∧
      (selfHolding.lock (-1) none ⟨0⟩).isLocked ⟨0⟩ = true ∧
      ((selfHolding.lock (-1) none ⟨0⟩).unlock (-1) ⟨0⟩).isLocked ⟨1⟩ = false := by
  have hitem : selfHolding.Contains ⟨0⟩ ⟨1⟩ := .single (by decide)
  obtain ⟨-, hlock, -, hunlock⟩ :=
    lock_relocks_contained selfHolding ⟨0⟩ none (by decide : (-1 : Int) < 1)
      (by decide : (-1 : Int) < 1)
  exact ⟨by decide, hitem, (hlock.inside ⟨0⟩ .refl (by decide)).1,
    (hunlock.inside ⟨1⟩ hitem (by decide)).1⟩

/-! ### Locks with a depth -/

/-- A walk that may go so many steps down marks the ends of its ways, and nothing else. -/
theorem marks_ends (hW : h.IsWalk steps r W) {mark : Cell → Cell}
    (hmark : ∀ c, (mark c).value = c.value) :
    Marks mark (h.EndsAt r W) h (markFrom mark (h.size + 1) (steps + 1) ([], h) r).2 := by
  have hnone (s : Ref) : s ∈ ([] : List Ref) ↔ h.Arrives steps r W (· < []) s := by
    refine ⟨fun hs => absurd hs List.not_mem_nil, ?_⟩
    rintro ⟨q, -, hlt, -⟩
    exact absurd hlt (List.not_lt_nil q)
  have hwalks := walks_markFrom hW hmark (h.size + 1) hW.nil rfl ([], h)
    (fun _ => rfl) hnone (Nat.lt_succ_of_le (h.unseen_le_size []))
  apply hwalks.marks.congr
  intro s
  simp only [EndsAt, List.nil_prefix, and_true]

/-- These objects have got this lock: the ends of the ways, all of them in reach. They are all that
is in reach if no container is reached both at the last moment and earlier; and it makes no
difference if they are not, as long as the others have got this lock already. -/
structure FollowsWays (h h' : Heap) (locked : Bool) (owner : Option String) (steps : Nat) (r : Ref)
    (W : List Nat → Prop) : Prop where
  ends : h.Relocked h' locked owner (h.EndsAt r W)
  within : ∀ s, h.EndsAt r W s → h.WithinSteps steps r s
  even : h.IsEven steps r → h.Relocked h' locked owner (h.WithinSteps steps r)
  obeys : h.Relocked h' locked owner (h.WithinSteps steps r) ↔
    ∀ s, h.WithinSteps steps r s → s.index < h.size →
      h.EndsAt r W s ∨ (h.isLocked s = locked ∧ h.owner s = owner)

theorem FollowsWays.of_relocked {locked : Bool} {owner : Option String} (hW : h.IsWalk steps r W)
    (hends : h.Relocked h' locked owner (h.EndsAt r W)) :
    h.FollowsWays h' locked owner steps r W := by
  have hwithin (s : Ref) (hs : h.EndsAt r W s) : h.WithinSteps steps r s := hs.withinSteps hW
  refine ⟨hends, hwithin, fun heven => ?_, hends.widen_iff hwithin⟩
  exact (hends.widen_iff hwithin).2 fun s hs _ => .inl (hW.endsAt_of_isEven heven hs)

/-- Two steps down, only the first container can be reached earlier than at the last moment. -/
theorem isEven_of_le_two (hsteps : steps ≤ 2) (h : Heap) (r : Ref) : h.IsEven steps r := by
  intro x p q _ hp _ hshort _
  obtain rfl : p = [] := List.eq_nil_of_length_eq_zero (by omega)
  exact (Option.some.inj hp).symm

/-- There is a walk with this depth, and a lock and an unlock mark the ends of its ways. -/
theorem lock_followsWays (h : Heap) (steps : Nat) (owner : Option Binding) (r : Ref) :
    (∃ W, h.IsWalk steps r W) ∧ ∀ W, h.IsWalk steps r W →
      h.FollowsWays (h.lock (steps + 1) owner r) true (owner.map (·.canonicalName)) steps r W ∧
      h.FollowsWays (h.unlock (steps + 1) r) false none steps r W := by
  refine ⟨h.exists_isWalk steps r, fun W hW => ⟨.of_relocked hW ?_, .of_relocked hW ?_⟩⟩
  · exact relocked_lock (marks_ends hW (Cell.value_lockedFor owner)) ⟨[], hW.nil, rfl⟩
  · exact relocked_unlock (marks_ends hW Cell.value_unlocked)

/-- A List whose first item holds the second one too. -/
def shortcut : Heap where
  cells := #[.fresh (.list [⟨1⟩, ⟨2⟩]), .fresh (.list [⟨2⟩]), .fresh (.list [⟨3⟩]),
    .fresh (.list [⟨4⟩]), .fresh (.list [])]

theorem lock_followsWays_shortcut :
    (∃ W, shortcut.IsWalk 2 ⟨0⟩ W) ∧
      shortcut.Relocked (shortcut.lock 3 none ⟨0⟩) true none (shortcut.WithinSteps 2 ⟨0⟩) ∧
      shortcut.Relocked (shortcut.unlock 3 ⟨0⟩) false none (shortcut.WithinSteps 2 ⟨0⟩) := by
  obtain ⟨⟨W, hW⟩, hfollows⟩ := lock_followsWays shortcut 2 none ⟨0⟩
  obtain ⟨hlock, hunlock⟩ := hfollows W hW
  have heven : shortcut.IsEven 2 ⟨0⟩ := isEven_of_le_two (le_refl 2) shortcut ⟨0⟩
  exact ⟨⟨W, hW⟩, hlock.even heven, hunlock.even heven⟩

/-- The second item is first met at the end of a longer way, and what is three steps below is then
not marked. -/
theorem not_forall_lock_withinSteps :
    ¬∀ (h : Heap) (steps : Nat) (owner : Option Binding) (r : Ref),
      h.Relocked (h.lock (steps + 1) owner r) true (owner.map (·.canonicalName))
          (h.WithinSteps steps r) ∧
        h.Relocked (h.unlock (steps + 1) r) false none (h.WithinSteps steps r) := by
  intro hall
  have hwithin : shortcut.WithinSteps 3 ⟨0⟩ ⟨4⟩ := ⟨[1, 0, 0], by decide, rfl⟩
  obtain ⟨hlock, -⟩ := hall shortcut 3 none ⟨0⟩
  obtain ⟨hlocked, -⟩ := hlock.inside ⟨4⟩ hwithin (by decide)
  exact absurd hlocked (by decide)

end Heap

end VimL
