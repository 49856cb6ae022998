import VimL.Proofs.NativeCalls
import VimL.Proofs.Ranges

/-!
# Items of Lists

An item of a List is read, assigned and removed by its index, in the syntax and by functions of the
library. The syntax reads the index from its text, and so does the function that reads an item; the
function that removes one takes the index as a Number; and the range of the index is checked in
three different ways. All five of them mean the same item.
-/

namespace VimL

open EStateM (Result)

/-! ## Indices -/

/-- An index that a List takes. -/
inductive Value.IsIndex : Value → Prop where
  | number {n : Int} (hn : Number.InRange n) : IsIndex (.number n)
  | string (s : String) : IsIndex (.string s)

/-- It makes no difference whether an index is read from its text. -/
theorem Value.IsIndex.toIndex_eq {v : Value} (h : v.IsIndex) : v.toIndex = v.toNumber := by
  cases h with
  | number hn => simp only [toIndex, toText, toNumber, Number.ofText?_toText hn]
  | string s => rfl

/-- Positions count from the front, or from the end below zero. -/
def InBounds (size : Nat) (n : Int) : Prop := -(size : Int) ≤ n ∧ n < size

section Bounds

variable {size : Nat} {n : Int}

theorem position?_eq_some (h : InBounds size n) :
    ∃ p, position? size n = some p ∧ p < size ∧ (p : Int) = if n < 0 then n + size else n := by
  obtain ⟨hlow, hhigh⟩ := h
  have hin : 0 ≤ (if n < 0 then n + size else n) ∧ (if n < 0 then n + size else n) < size := by
    split <;> omega
  refine ⟨(if n < 0 then n + size else n).toNat, ?_, ?_, ?_⟩
  · unfold position?
    exact if_pos hin
  · omega
  · exact Int.toNat_of_nonneg hin.1

theorem position?_eq_none (h : ¬InBounds size n) : position? size n = none := by
  have hout : ¬(0 ≤ (if n < 0 then n + size else n) ∧
      (if n < 0 then n + size else n) < size) := by
    rintro ⟨hlow, hhigh⟩
    apply h
    constructor
    · split at hlow <;> omega
    · split at hhigh <;> omega
  unfold position?
  exact if_neg hout

/-- Another way to write the same bounds. -/
theorem Library.listPosition_eq (size : Nat) (n : Int) (e : Engine) :
    listPosition n size false e =
      match position? size n with
      | some p => .ok p e
      | none => .error (.ofCause (.listIndex n)) e := by
  unfold listPosition position?
  simp only [Bool.false_eq_true, if_false, Int.add_zero]
  by_cases hin : 0 ≤ fromEnd size n ∧ fromEnd size n < size
  · have hsame : 0 ≤ (if n < 0 then n + size else n) ∧
        (if n < 0 then n + size else n) < size := hin
    rw [if_pos hin, if_pos hsame]
    rfl
  · have hsame : ¬(0 ≤ (if n < 0 then n + size else n) ∧
        (if n < 0 then n + size else n) < size) := hin
    rw [if_neg hin, if_neg hsame]
    rfl

end Bounds

/-! ## Uses of an item -/

namespace Engine

/-- The engine with other items in a List. -/
def withItems (e : Engine) (list : Ref) (items : List Ref) : Engine :=
  e.withHeap (e.heap.setValue list (.list items))

/-- The engine in which the object that is stored for a value exists. -/
def withStored (e : Engine) (r : Ref) : Engine := e.withHeap (e.heap.stored r).2

end Engine

namespace Run

section Uses

variable (host : Host) (i : Interp) (c : Context) (container key : Expr) (list k : Ref)
  (items : List Ref) (e e₁ : Engine)

/-- Nothing that would change the List, or has to find the item, gets past the index. -/
structure RefusesItem (stop : Stop) : Prop where
  read : evaluate host i c (.index container key) e = .error stop e₁
  assign : ∀ op x, execute i c (.assign (.index container key) op x) e = .error stop e₁
  unlet : ∀ force, execute i c (.unlet [.index container key] force) e = .error stop e₁
  remove : ∀ receiver,
    callHandler host i c (.builtin .remove) [list, k] receiver e₁ = .error stop e₁

/-- What is read, replaced and removed is the item at this position. -/
structure ReachesItem (p : Nat) (item : Ref) : Prop where
  read : evaluate host i c (.index container key) e = .ok item e₁
  assign : ∀ x right e₂, i.eval c x e₁ = .ok right e₂ → e₂.heap.value list = .list items →
    execute i c (.assign (.index container key) .set x) e =
      .ok .normal ((e₂.withStored right).withItems list (items.set p (e₂.heap.stored right).1))
  unlet : ∀ force, execute i c (.unlet [.index container key] force) e =
    .ok .normal (e₁.withItems list (items.eraseIdx p))
  remove : ∀ receiver, callHandler host i c (.builtin .remove) [list, k] receiver e₁ =
    .ok item (e₁.withItems list (items.eraseIdx p))

/-- The function that reads an item gives this, with or without a default. -/
def GetsItem (answer : Option Ref → Result Stop Engine Ref) : Prop :=
  ∀ fallback receiver, callHandler host i c (.builtin .get) (list :: k :: fallback.toList) receiver
    e₁ = answer fallback

end Uses

variable {host : Host} {i : Interp} {c : Context} {container key : Expr} {list k : Ref}
  {items : List Ref} {n : Int} {p : Nat} {item : Ref} {stop : Stop} {e e₀ e₁ : Engine}

/-! ### The operations on a List -/

theorem evaluate_index (hlist : i.eval c container e = .ok list e₀)
    (hkey : i.eval c key e₀ = .ok k e₁) :
    evaluate host i c (.index container key) e = element list k e₁ := by
  change evalElement i c container key e = _
  unfold evalElement
  rw [bind_of_ok hlist, bind_of_ok hkey]

theorem element_of_list (hitems : e.heap.value list = .list items) :
    element list k e = (index k >>= fun n =>
      match (position? items.length n).bind (items[·]?) with
      | some r => pure r
      | none => raise (.listIndex n)) e := by
  unfold element
  exact bind_of_ok (value_of_eq hitems)

theorem assign_index (hlist : i.eval c container e = .ok list e₀)
    (hkey : i.eval c key e₀ = .ok k e₁) (hitems : e₁.heap.value list = .list items)
    (op : AssignOperator) (x : Expr) :
    Run.assign (i.eval c) c (.index container key) op x e =
      assignItem (i.eval c) list items k op x e₁ := by
  simp only [assign, assignElement]
  rw [bind_of_ok hlist, bind_of_ok hkey, bind_of_ok (value_of_eq hitems)]

theorem unlet_index (hlist : i.eval c container e = .ok list e₀)
    (hkey : i.eval c key e₀ = .ok k e₁) (hitems : e₁.heap.value list = .list items)
    (force : Bool) :
    Run.unlet (i.eval c) c force (.index container key) e = (index k >>= fun n =>
      match position? items.length n with
      | none => raise (.listIndex n)
      | some p => do
        checkUnlocked list (positionText n)
        checkAllUnlocked (items[p]?).toList (positionText n)
        setValue list (.list (items.eraseIdx p))) e₁ := by
  simp only [unlet, removeElement]
  rw [bind_of_ok hlist, bind_of_ok hkey]
  exact bind_of_ok (value_of_eq hitems)

theorem remove_of_list (hitems : e.heap.value list = .list items)
    (hfree : e.heap.isLocked list = false) :
    Library.remove list k none e = (number k >>= fun n => do
      let p ← Library.listPosition n items.length false
      match items[p]? with
      | some r =>
        setValue list (.list (items.eraseIdx p))
        return r
      | none => internal .positionGone) e := by
  have hcheck : Library.checkArgument list "remove" e = .ok () e := checkUnlocked_of_free hfree
  unfold Library.remove
  rw [bind_of_ok hcheck, bind_of_ok (value_of_eq hitems)]
  rfl

theorem get_of_list (hitems : e.heap.value list = .list items) (fallback : Option Ref) :
    Library.get list k fallback e = (index k >>= fun n =>
      match (position? items.length n).bind (items[·]?) with
      | some r => pure r
      | none => fallback.elim (newInt 0) pure) e := by
  unfold Library.get
  rw [bind_of_ok (value_of_eq hitems)]
  cases fallback <;> rfl

/-! ### Indices that are refused -/

/-- The index has no number, or there is no item at it. -/
inductive RefusesIndex (size : Nat) (v : Value) : Stop → Prop where
  | unread {stop : Stop} (hread : v.toNumber = .error stop) : RefusesIndex size v stop
  | outside {n : Int} (hread : v.toNumber = .ok n) (hout : ¬InBounds size n) :
      RefusesIndex size v (.ofCause (.listIndex n))

theorem RefusesIndex.number_bind {α : Type} {f : Int → Run α}
    (h : RefusesIndex items.length (e.heap.value k) stop)
    (hf : ∀ n, position? items.length n = none → f n e = .error (.ofCause (.listIndex n)) e) :
    (number k >>= f) e = .error stop e := by
  cases h with
  | unread hread => exact bind_of_error (number_of_error hread)
  | @outside n hread hout =>
    rw [bind_of_ok (number_of_ok hread)]
    exact hf n (position?_eq_none hout)

theorem RefusesIndex.index_bind {α : Type} {f : Int → Run α}
    (h : RefusesIndex items.length (e.heap.value k) stop) (hk : (e.heap.value k).IsIndex)
    (hf : ∀ n, position? items.length n = none → f n e = .error (.ofCause (.listIndex n)) e) :
    (index k >>= f) e = .error stop e := by
  have hsame : index k e = number k e := by
    change settle (e.heap.value k).toIndex e = settle (e.heap.value k).toNumber e
    rw [hk.toIndex_eq]
  have hbinds : (index k >>= f) e = (number k >>= f) e := bind_congr_at hsame f
  rw [hbinds]
  exact h.number_bind hf

theorem proceeding_of_error {m : Run Unit} (h : m e = .error stop e₁) :
    proceeding m e = .error stop e₁ :=
  bind_of_error h

theorem proceeding_of_ok {m : Run Unit} (h : m e = .ok () e₁) :
    proceeding m e = .ok .normal e₁ :=
  bind_of_ok h

theorem toEach_singleton (f : Expr → Run Unit) (x : Expr) : toEach f [x] = f x := by
  unfold toEach
  exact bind_pure_unit

theorem refusesItem (hlist : i.eval c container e = .ok list e₀)
    (hkey : i.eval c key e₀ = .ok k e₁) (hitems : e₁.heap.value list = .list items)
    (hk : (e₁.heap.value k).IsIndex) (hfree : e₁.heap.isLocked list = false)
    (h : RefusesIndex items.length (e₁.heap.value k) stop) :
    RefusesItem host i c container key list k e e₁ stop where
  read := by
    rw [evaluate_index hlist hkey, element_of_list hitems]
    apply h.index_bind hk
    intro n hnone
    rw [hnone]
    rfl
  assign op x := by
    apply proceeding_of_error
    rw [assign_index hlist hkey hitems]
    apply h.index_bind hk
    intro n hnone
    rw [hnone]
    rfl
  unlet force := by
    apply proceeding_of_error
    rw [toEach_singleton, unlet_index hlist hkey hitems]
    apply h.index_bind hk
    intro n hnone
    rw [hnone]
    rfl
  remove receiver := by
    have hrun : Library.remove list k none (e₁.enter (.native "remove")) =
        .error stop (e₁.enter (.native "remove")) := by
      rw [remove_of_list (e := e₁.enter (.native "remove")) hitems hfree]
      apply RefusesIndex.number_bind (e := e₁.enter (.native "remove")) h
      intro n hnone
      apply bind_of_error
      rw [Library.listPosition_eq, hnone]
    have hcall : callHandler host i c (.builtin .remove) [list, k] receiver e₁ =
        .error stop (e₁.leave (e₁.enter (.native "remove"))) := callHandler_of_error rfl hrun
    exact hcall

theorem callHandler_get (fallback receiver : Option Ref) :
    callHandler host i c (.builtin .get) (list :: k :: fallback.toList) receiver e =
      afterwards (Library.get list k fallback) e.leave (e.enter (.native "get")) := by
  cases fallback with
  | none => exact callHandler_builtin rfl
  | some d => exact callHandler_builtin rfl

theorem getsItem_of_unread (hitems : e₁.heap.value list = .list items)
    (hk : (e₁.heap.value k).IsIndex) (hread : (e₁.heap.value k).toNumber = .error stop) :
    GetsItem host i c list k e₁ fun _ => .error stop e₁ := by
  intro fallback receiver
  have hrun : Library.get list k fallback (e₁.enter (.native "get")) =
      .error stop (e₁.enter (.native "get")) := by
    rw [get_of_list (e := e₁.enter (.native "get")) hitems]
    apply bind_of_error
    apply index_of_error
    exact hk.toIndex_eq.trans hread
  rw [callHandler_get]
  exact afterwards_of_error hrun e₁.leave

theorem getsItem_of_number (hitems : e₁.heap.value list = .list items)
    (hk : (e₁.heap.value k).IsIndex) (hread : (e₁.heap.value k).toNumber = .ok n) :
    GetsItem host i c list k e₁ fun fallback =>
      match (position? items.length n).bind (items[·]?) with
      | some r => .ok r e₁
      | none => fallback.elim (newInt 0) pure e₁ := by
  intro fallback receiver
  have hindex : index k (e₁.enter (.native "get")) = .ok n (e₁.enter (.native "get")) := by
    apply index_of_ok
    exact hk.toIndex_eq.trans hread
  rw [callHandler_get]
  unfold afterwards
  rw [get_of_list (e := e₁.enter (.native "get")) hitems, bind_of_ok hindex]
  cases (position? items.length n).bind (items[·]?) with
  | some r => rfl
  | none => cases fallback <;> rfl

/-! ### Indices that are accepted -/

theorem setItem_stored {right : Ref} (hitems : e.heap.value list = .list items)
    (hp : p < items.length) :
    (stored right >>= fun r => setItem list p r) e =
      .ok () ((e.withStored right).withItems list (items.set p (e.heap.stored right).1)) := by
  have hkept : (e.withStored right).heap.value list = .list items := by
    have hext := Heap.Extends.stored e.heap right
    exact (hext.value_eq (by rw [hitems]; rfl)).trans hitems
  have hstored : stored right e = .ok (e.heap.stored right).1 (e.withStored right) := rfl
  rw [bind_of_ok hstored]
  unfold setItem
  rw [bind_of_ok (value_of_eq hkept)]
  dsimp only
  rw [if_pos hp]
  rfl

theorem reachesItem (hlist : i.eval c container e = .ok list e₀)
    (hkey : i.eval c key e₀ = .ok k e₁) (hitems : e₁.heap.value list = .list items)
    (hk : (e₁.heap.value k).IsIndex) (hread : (e₁.heap.value k).toNumber = .ok n)
    (hfree : e₁.heap.isLocked list = false) (hitem : items[p]? = some item)
    (hunlocked : e₁.heap.isLocked item = false) (hp : position? items.length n = some p) :
    ReachesItem host i c container key list k items e e₁ p item where
  read := by
    rw [evaluate_index hlist hkey, element_of_list hitems,
      bind_of_ok (index_of_ok (hk.toIndex_eq.trans hread)), hp, Option.bind_some, hitem]
    rfl
  assign x right e₂ hright hkept := by
    apply proceeding_of_ok
    have haims : Spot.Aims (i.eval c) .set e (.item list p item (positionText n))
        (.index container key) e₁ :=
      .item hlist hkey hitems (hk.toIndex_eq.trans hread) hp hitem hunlocked
    have hin : p < items.length := (List.getElem?_eq_some_iff.1 hitem).1
    rw [assign_eq_finish haims hright]
    exact setItem_stored hkept hin
  unlet force := by
    apply proceeding_of_ok
    have hitemFree : (items[p]?).toList.any e₁.heap.isLocked = false := by
      rw [hitem]
      simp [hunlocked]
    rw [toEach_singleton, unlet_index hlist hkey hitems,
      bind_of_ok (index_of_ok (hk.toIndex_eq.trans hread)), hp]
    dsimp only
    rw [bind_of_ok (checkUnlocked_of_free hfree),
      bind_of_ok (Spot.checkAllUnlocked_ok_iff.2 ⟨hitemFree, rfl⟩)]
    rfl
  remove receiver := by
    have hrun : Library.remove list k none (e₁.enter (.native "remove")) =
        .ok item ((e₁.enter (.native "remove")).withItems list (items.eraseIdx p)) := by
      have hnumber : number k (e₁.enter (.native "remove")) =
          .ok n (e₁.enter (.native "remove")) := number_of_ok hread
      have hposition : Library.listPosition n items.length false (e₁.enter (.native "remove")) =
          .ok p (e₁.enter (.native "remove")) := by
        rw [Library.listPosition_eq, hp]
      rw [remove_of_list (e := e₁.enter (.native "remove")) hitems hfree, bind_of_ok hnumber,
        bind_of_ok hposition, hitem]
      rfl
    have hcall : callHandler host i c (.builtin .remove) [list, k] receiver e₁ =
        .ok item (e₁.leave ((e₁.enter (.native "remove")).withItems list (items.eraseIdx p))) :=
      callHandler_of_ok rfl hrun
    exact hcall

/-- A List that is not locked, with items that are not, and an index that is a Number or a String.
An index that has no number is refused by all five uses alike. Otherwise, with an index that is out
of range the item is not found, nothing changes, and the function that reads an item gives the
default; and with one in range, all five mean the item at the same position. -/
theorem item_uses_agree (hlist : i.eval c container e = .ok list e₀)
    (hkey : i.eval c key e₀ = .ok k e₁) (hitems : e₁.heap.value list = .list items)
    (hk : (e₁.heap.value k).IsIndex) (hfree : e₁.heap.isLocked list = false)
    (hunlocked : ∀ r ∈ items, e₁.heap.isLocked r = false) :
    (∀ stop, (e₁.heap.value k).toNumber = .error stop →
      RefusesItem host i c container key list k e e₁ stop ∧
      GetsItem host i c list k e₁ fun _ => .error stop e₁) ∧
    ∀ n, (e₁.heap.value k).toNumber = .ok n →
      (¬(-(items.length : Int) ≤ n ∧ n < items.length) →
        RefusesItem host i c container key list k e e₁ (.ofCause (.listIndex n)) ∧
        GetsItem host i c list k e₁ fun fallback => fallback.elim (newInt 0) pure e₁) ∧
      (-(items.length : Int) ≤ n ∧ n < items.length →
        ∃ (p : Nat) (item : Ref), (p : Int) = (if n < 0 then n + items.length else n) ∧
          items[p]? = some item ∧
          ReachesItem host i c container key list k items e e₁ p item ∧
          GetsItem host i c list k e₁ fun _ => .ok item e₁) := by
  constructor
  · intro stop hread
    exact ⟨refusesItem hlist hkey hitems hk hfree (.unread hread),
      getsItem_of_unread hitems hk hread⟩
  · intro n hread
    constructor
    · intro hout
      have hgets : GetsItem host i c list k e₁ _ := getsItem_of_number hitems hk hread
      rw [position?_eq_none hout] at hgets
      exact ⟨refusesItem hlist hkey hitems hk hfree (.outside hread hout), hgets⟩
    · intro hin
      obtain ⟨p, hp, hlt, heq⟩ := position?_eq_some hin
      have hitem : items[p]? = some items[p] := List.getElem?_eq_getElem hlt
      have hitemFree : e₁.heap.isLocked items[p] = false := hunlocked _ (List.getElem_mem hlt)
      have hgets : GetsItem host i c list k e₁ _ := getsItem_of_number hitems hk hread
      rw [hp, Option.bind_some, hitem] at hgets
      exact ⟨p, items[p], heq, hitem,
        reachesItem hlist hkey hitems hk hread hfree hitem hitemFree hp, hgets⟩

end Run

namespace Session

/-- The item is the first one, which a String names, and no item is four places before the end of a
List with two. -/
theorem item_uses_agree_held :
    Run.ReachesItem ⟨[]⟩ (.ofFuel ⟨[]⟩ 4) .commandLine (.const ⟨0⟩) (.const ⟨2⟩) ⟨0⟩ ⟨2⟩ [⟨1⟩]
      holdingItem holdingItem 0 ⟨1⟩ ∧
    Run.RefusesItem ⟨[]⟩ (.ofFuel ⟨[]⟩ 4) .commandLine (.const ⟨0⟩) (.const ⟨4⟩) ⟨0⟩ ⟨4⟩
      holdingPair holdingPair (.ofCause (.listIndex (-4))) := by
  have hzero : Number.ofText? "0" = some 0 := by decide +kernel
  have hread : (holdingItem.heap.value ⟨2⟩).toNumber = .ok 0 := by
    have hvalue : holdingItem.heap.value ⟨2⟩ = .string "0" := rfl
    rw [hvalue, Value.toNumber, hzero]
  have hitem := @Run.item_uses_agree ⟨[]⟩ (.ofFuel ⟨[]⟩ 4) .commandLine (.const ⟨0⟩) (.const ⟨2⟩) _ _
    [⟨1⟩] holdingItem _ _ rfl rfl rfl (.string "0") rfl (by decide)
  have hpair := @Run.item_uses_agree ⟨[]⟩ (.ofFuel ⟨[]⟩ 4) .commandLine (.const ⟨0⟩) (.const ⟨4⟩) _ _
    [⟨1⟩, ⟨2⟩] holdingPair _ _ rfl rfl rfl (.number (n := -4) (by decide)) rfl (by decide)
  obtain ⟨p, item, hp, hat, hreaches, -⟩ := (hitem.2 0 hread).2 (by decide)
  obtain rfl : p = 0 := by simpa using hp
  obtain rfl : ⟨1⟩ = item := Option.some.inj hat
  exact ⟨hreaches, ((hpair.2 (-4) rfl).1 (by decide)).1⟩

end Session

end VimL
