import VimL.Proofs.Additions
import VimL.Session

/-!
# Stores into a place that was fixed before

An assignment to an item, a byte or a range looks for the place and checks it, evaluates the new
value, and stores it at the place. The new value may come from any run, which may change or lock the
container. The place is not looked at again; so what is stored is stored well exactly if the place
is still there and still free.
-/

namespace VimL

open EStateM (Result)

/-! ## Places -/

/-- The errors of a place that is outside of its container or locked. -/
inductive Cause.RefusesPlace : Cause → Prop where
  | listIndex (index : Int) : RefusesPlace (.listIndex index)
  | blobIndex (index : Int) : RefusesPlace (.blobIndex index)
  | locked (text : String) : RefusesPlace (.locked text)

/-- An item of a List, a byte of a Blob, or a range of either, as an assignment has found it. -/
inductive Spot where
  | item (list : Ref) (position : Nat) (current : Ref) (shown : String)
  | byte (blob : Ref) (position : Nat) (shown : String)
  | range (container : Ref) (size : Nat) (first last : Int) (isOpen : Bool)

namespace Spot

def container : Spot → Ref
  | .item list .. => list
  | .byte blob .. => blob
  | .range container .. => container

/-- The first position that is replaced. -/
def start : Spot → Nat
  | .item _ i .. | .byte _ i .. => i
  | .range _ size first .. => (fromEnd size first).toNat

/-- The position after the last one that is replaced. -/
def stop : Spot → Nat
  | .item _ i .. | .byte _ i .. => i + 1
  | .range _ size _ last isOpen => if isOpen then size else (fromEnd size last + 1).toNat

/-- The range starts in the container that it was found in, or at its end. -/
def Starts : Spot → Prop
  | .range _ size first .. => 0 ≤ fromEnd size first ∧ fromEnd size first ≤ size
  | _ => True

/-- The place lies inside of the container as it is now. -/
def LiesIn (s : Spot) (h : Heap) : Prop :=
  match s, h.value s.container with
  | .item .., .list items | .range .., .list items => s.stop ≤ items.length
  | .byte .., .blob bytes | .range .., .blob bytes => s.stop ≤ bytes.length
  | _, _ => False

/-- What has to be unlocked is locked now: an item of a List on its own, otherwise the container. -/
def IsLocked (s : Spot) (h : Heap) : Prop :=
  match s with
  | .item list i .. => ∃ items r, h.value list = .list items ∧ items[i]? = some r ∧
      h.isLocked r = true
  | .byte container .. | .range container .. => h.isLocked container = true

/-- What was checked before does not hold any more. -/
def Stale (s : Spot) (h : Heap) : Prop := ¬s.LiesIn h ∨ s.IsLocked h

/-- The container with new items or bytes at the place. -/
def replaced (s : Spot) (old new : Value) : Value :=
  match old, new with
  | .list items, .list added => .list (items.take s.start ++ added ++ items.drop s.stop)
  | .blob bytes, .blob added => .blob (bytes.take s.start ++ added ++ bytes.drop s.stop)
  | old, _ => old

def write (s : Spot) (new : Value) (e : Engine) : Engine :=
  e.withHeap (e.heap.setValue s.container (s.replaced (e.heap.value s.container) new))

/-- The rule: a place that does not hold any more is refused, and nothing is stored; otherwise
exactly this place is replaced. -/
def Obeyed (s : Spot) (new : Value) (e : Engine) (ended : Result Stop Engine Unit) : Prop :=
  (s.Stale e.heap → ∃ cause, cause.RefusesPlace ∧ ended = .error (.ofCause cause) e) ∧
    (¬s.Stale e.heap → ended = .ok () (s.write new e))

end Spot

/-! ## Assignments -/

namespace Spot

open Run

variable (eval : Expr → Run Ref) (op : AssignOperator)

/-- The place of a target is evaluated, and it passes all checks. -/
inductive Aims (e : Engine) : Spot → Expr → Engine → Prop where
  | item {container key : Expr} {list k current : Ref} {items : List Ref} {n : Int} {i : Nat}
      {e₁ e₂ : Engine} (hlist : eval container e = .ok list e₁) (hkey : eval key e₁ = .ok k e₂)
      (hitems : e₂.heap.value list = .list items) (hn : (e₂.heap.value k).toIndex = .ok n)
      (hi : position? items.length n = some i) (hcurrent : items[i]? = some current)
      (hfree : e₂.heap.isLocked current = false) :
      Aims e (.item list i current (positionText n)) (.index container key) e₂
  | byte {container key : Expr} {blob k : Ref} {bytes : List UInt8} {n : Int} {i : Nat}
      {e₁ e₂ : Engine} (hblob : eval container e = .ok blob e₁) (hkey : eval key e₁ = .ok k e₂)
      (hbytes : e₂.heap.value blob = .blob bytes) (hn : (e₂.heap.value k).toIndex = .ok n)
      (hi : position? bytes.length n = some i) (hfree : e₂.heap.isLocked blob = false) :
      Aims e (.byte blob i (positionText n)) (.index container key) e₂
  | range {container : Expr} {first last : Option Expr} {target : Ref} {size : Nat} {a b : Int}
      {e₁ e₂ e₃ : Engine} (htarget : eval container e = .ok target e₁)
      (hsize : rangeTargetSize target e₁ = .ok size e₁) (hop : op = .set)
      (ha : bound eval first 0 e₁ = .ok a e₂)
      (hb : bound eval last ((size : Int) - 1) e₂ = .ok b e₃)
      (hstart : 0 ≤ fromEnd size a ∧ fromEnd size a ≤ size)
      (hstop : last.isSome = true → fromEnd size b < size)
      (hfree : e₃.heap.isLocked target = false) :
      Aims e (.range target size a b last.isNone) (.slice container first last) e₃

/-- What is left of the assignment once the new value is known. -/
def finish (right : Ref) : Spot → Run Unit
  | .item list i current shown => do
    let combined ← combine op (some current) right shown
    setItem list i (← stored combined)
  | .byte blob i shown => do
    let current ← newInt (← byteAt blob i).toNat
    let byte ← number (← combine op (some current) right shown)
    if byte < 0 ∨ 255 < byte then raise (.byteOutOfRange byte)
    setValue blob (.blob ((← bytes blob).set i (UInt8.ofNat byte.toNat)))
  | .range target size first last isOpen => replaceRange target right size first last isOpen

/-- What is stored for a new value, as long as there is something to combine it with. -/
inductive Fills (right : Ref) (e : Engine) : Spot → Value → Engine → Prop where
  | item {list current r : Ref} {i : Nat} {shown : String} {e₁ : Engine}
      (hcombined : combine op (some current) right shown e = .ok r e₁) :
      Fills right e (.item list i current shown) (.list [(e₁.heap.stored r).1])
        (e₁.withHeap (e₁.heap.stored r).2)
  | byte {blob r : Ref} {i : Nat} {shown : String} {bytes : List UInt8} {b : UInt8} {n : Int}
      {e₁ : Engine} (hbytes : e.heap.value blob = .blob bytes) (hb : bytes[i]? = some b)
      (hcombined : combine op (some (e.heap.new (.ofInt b.toNat)).1) right shown
        (e.withHeap (e.heap.new (.ofInt b.toNat)).2) = .ok r e₁)
      (hn : (e₁.heap.value r).toNumber = .ok n) (hlow : 0 ≤ n) (hhigh : n ≤ 255) :
      Fills right e (.byte blob i shown) (.blob [UInt8.ofNat n.toNat]) e₁
  | byteGone {blob : Ref} {i : Nat} {shown : String}
      (hgone : ∀ bytes, e.heap.value blob = .blob bytes → bytes.length ≤ i) :
      Fills right e (.byte blob i shown) (.blob []) e
  | items {target : Ref} {size : Nat} {first last : Int} {isOpen : Bool} {items added : List Ref}
      {copies : List Ref} {e₁ : Engine} (htarget : e.heap.value target = .list items)
      (hright : e.heap.value right = .list added)
      (hfew : fromEnd size last - fromEnd size first + 1 ≤ added.length)
      (hmany : isOpen = false → (added.length : Int) ≤ fromEnd size last - fromEnd size first + 1)
      (hfree : (cutAt items (fromEnd size first).toNat (fromEnd size last + 1)).2.1.any
        e.heap.isLocked = false) (hcopies : storedAll added e = .ok copies e₁) :
      Fills right e (.range target size first last isOpen) (.list copies) e₁
  | bytes {target : Ref} {size : Nat} {first last : Int} {isOpen : Bool}
      {bytes added : List UInt8} (htarget : e.heap.value target = .blob bytes)
      (hright : e.heap.value right = .blob added)
      (hfew : fromEnd size last - fromEnd size first + 1 ≤ added.length)
      (hmany : isOpen = false → (added.length : Int) ≤ fromEnd size last - fromEnd size first + 1) :
      Fills right e (.range target size first last isOpen) (.blob added) e

/-- What happens to a place that does not lie in the container any more: the engine fails on items
and bytes, and a range is cut to what there is. -/
def Missed (s : Spot) (new : Value) (e : Engine) (ended : Result Stop Engine Unit) : Prop :=
  match s with
  | .item .. => ended = .error (.internal .itemGone) e
  | .byte .. => ended = .error (.internal .byteGone) e
  | .range .. => ended = .ok () (s.write new e)

end Spot

/-- Nothing that is missed is refused by an error that a script could see. -/
theorem Spot.Missed.not_refused {s : Spot} {new : Value} {e e' : Engine}
    {ended : Result Stop Engine Unit} {cause : Cause} (h : s.Missed new e ended) :
    ended ≠ .error (.ofCause cause) e' := by
  cases s with
  | item | byte | range =>
    rintro rfl
    cases h

theorem Spot.Missed.written {s : Spot} {new : Value} {e e' : Engine}
    {ended : Result Stop Engine Unit} (h : s.Missed new e ended) (hended : ended = .ok () e') :
    e' = s.write new e := by
  subst hended
  cases s with
  | item | byte => cases h
  | range => exact (Result.ok.inj h).2

theorem Spot.Aims.starts {s : Spot} {eval : Expr → Run Ref} {op : AssignOperator} {e e' : Engine}
    {target : Expr} (h : s.Aims eval op e target e') : s.Starts := by
  cases h with
  | item | byte => trivial
  | range _ _ _ _ _ hstart => exact hstart

/-- Once the place is found and the new value is evaluated, nothing else matters. -/
theorem Run.assign_eq_finish {eval : Expr → Run Ref} {c : Context} {op : AssignOperator}
    {target x : Expr} {s : Spot} {right : Ref} {e e₁ e₂ : Engine}
    (haims : s.Aims eval op e target e₁) (hright : eval x e₁ = .ok right e₂) :
    assign eval c target op x e = s.finish op right e₂ := by
  cases haims with
  | item hlist hkey hitems hn hi hcurrent hfree =>
    simp only [assign, assignElement]
    rw [bind_of_ok hlist, bind_of_ok hkey, bind_of_ok (value_of_eq hitems)]
    simp only [assignItem]
    rw [bind_of_ok (index_of_ok hn)]
    simp only [hi, hcurrent]
    rw [bind_of_ok (checkUnlocked_of_free hfree), bind_of_ok hright]
    rfl
  | byte hblob hkey hbytes hn hi hfree =>
    simp only [assign, assignElement]
    rw [bind_of_ok hblob, bind_of_ok hkey, bind_of_ok (value_of_eq hbytes)]
    simp only [assignByte]
    rw [bind_of_ok (index_of_ok hn)]
    simp only [hi]
    rw [bind_of_ok (checkUnlocked_of_free hfree), bind_of_ok hright]
    rfl
  | @range container first last target size a b _ _ _ htarget hsize hop ha hb hstart hstop hfree =>
    have hlow : ¬(fromEnd size a < 0 ∨ (size : Int) < fromEnd size a) := by omega
    have hhigh : ¬(last.isSome = true ∧ (size : Int) ≤ fromEnd size b) := by
      rintro ⟨hsome, hout⟩
      have := hstop hsome
      omega
    simp only [assign, assignRange]
    rw [bind_of_ok htarget, bind_of_ok hsize]
    simp only [hop, ne_eq, not_true_eq_false, if_false]
    rw [bind_of_ok ha, bind_of_ok hb]
    simp only [hlow, hhigh, if_false]
    rw [bind_of_ok (checkUnlocked_of_free hfree), bind_of_ok hright]
    rfl

/-! ## What is stored where -/

namespace Spot

open Run

variable {op : AssignOperator} {right : Ref} {e e' : Engine} {new : Value}

theorem setItem_eq {list current r : Ref} {i : Nat} {shown : String} :
    (LiesIn (.item list i current shown) e.heap →
      setItem list i r e = .ok () (write (.item list i current shown) (.list [r]) e)) ∧
    (¬LiesIn (.item list i current shown) e.heap →
      setItem list i r e = .error (.internal .itemGone) e) := by
  unfold setItem
  rw [bind_of_ok (value_of_eq rfl)]
  simp only [LiesIn, write, replaced, container, start, stop]
  cases e.heap.value list with
  | list items =>
    dsimp only
    by_cases hin : i < items.length
    · have hset : items.set i r = items.take i ++ [r] ++ items.drop (i + 1) := by
        rw [List.set_eq_take_append_cons_drop, if_pos hin, List.append_assoc]
        rfl
      rw [if_pos hin, hset]
      exact ⟨fun _ => rfl, fun hout => absurd hin hout⟩
    · rw [if_neg hin]
      exact ⟨fun h => absurd h hin, fun _ => rfl⟩
  | _ => exact ⟨False.elim, fun _ => rfl⟩

theorem bytes_of_eq {blob : Ref} {found : List UInt8} (hfound : e.heap.value blob = .blob found) :
    bytes blob e = .ok found e := by
  unfold bytes
  rw [bind_of_ok (value_of_eq hfound)]
  rfl

theorem byteAt_of_gone {blob : Ref} {i : Nat}
    (hgone : ∀ found, e.heap.value blob = .blob found → found.length ≤ i) :
    byteAt blob i e = .error (.internal .byteGone) e := by
  unfold byteAt
  cases hv : e.heap.value blob with
  | blob found =>
    have hnone : found[i]? = none := List.getElem?_eq_none (hgone found hv)
    rw [bind_of_ok (bytes_of_eq hv), hnone]
    rfl
  | _ =>
    refine bind_of_error ?_
    unfold bytes
    rw [bind_of_ok (value_of_eq hv)]
    rfl

theorem not_liesIn_of_gone {blob : Ref} {i : Nat} {shown : String}
    (hgone : ∀ found, e.heap.value blob = .blob found → found.length ≤ i) :
    ¬LiesIn (.byte blob i shown) e.heap := by
  intro hin
  simp only [LiesIn, container, stop] at hin
  cases hv : e.heap.value blob with
  | blob found =>
    rw [hv] at hin
    have := hgone found hv
    omega
  | _ =>
    rw [hv] at hin
    exact hin

/-- Combining a byte with something else does not touch the Blob. -/
theorem finish_byte {blob r : Ref} {i : Nat} {shown : String} {found : List UInt8} {b : UInt8}
    {n : Int} (hfound : e.heap.value blob = .blob found) (hb : found[i]? = some b)
    (hcombined : combine op (some (e.heap.new (.ofInt b.toNat)).1) right shown
      (e.withHeap (e.heap.new (.ofInt b.toNat)).2) = .ok r e')
    (hn : (e'.heap.value r).toNumber = .ok n) (hlow : 0 ≤ n) (hhigh : n ≤ 255) :
    LiesIn (.byte blob i shown) e'.heap ∧ finish op right (.byte blob i shown) e =
      .ok () (write (.byte blob i shown) (.blob [UInt8.ofNat n.toNat]) e') := by
  obtain ⟨hin, -⟩ := List.getElem?_eq_some_iff.1 hb
  have hcurrent : (e.heap.new (.ofInt b.toNat)).2.value (e.heap.new (.ofInt b.toNat)).1 =
      .ofInt b.toNat := by
    simp [Heap.value, Heap.cell, Heap.new, Heap.size, Cell.fresh, Array.getD_eq_getD_getElem?]
  have hkept : e'.heap.value blob = .blob found := by
    have hext := (Heap.Extends.new e.heap (.ofInt b.toNat)).trans
      (onlyAdds_combine (congrArg Value.isScalar hcurrent) (ends_ok_iff.2 hcombined)).heap
    rw [hext.value_eq (by rw [hfound]; rfl), hfound]
  have hbyte : byteAt blob i e = .ok b e := by
    unfold byteAt
    rw [bind_of_ok (bytes_of_eq hfound), hb]
    rfl
  have hnew : newInt b.toNat e = .ok (e.heap.new (.ofInt b.toNat)).1
      (e.withHeap (e.heap.new (.ofInt b.toNat)).2) := rfl
  have hnumber : number r e' = .ok n e' := by
    unfold number
    rw [bind_of_ok (value_of_eq rfl), hn]
    rfl
  have hfits : ¬(n < 0 ∨ 255 < n) := by omega
  refine ⟨?_, ?_⟩
  · simp only [LiesIn, container, stop, hkept]
    exact hin
  · simp only [finish]
    rw [bind_of_ok hbyte, bind_of_ok hnew, bind_of_ok hcombined, bind_of_ok hnumber]
    simp only [hfits, if_false]
    rw [bind_of_ok (bytes_of_eq hkept)]
    simp only [write, replaced, container, start, stop, hkept]
    rw [List.set_eq_take_append_cons_drop, if_pos hin, List.append_assoc]
    rfl

theorem cutAt_of_le {α : Type} (items : List α) {i : Nat} {j : Int} (hle : (i : Int) ≤ j) :
    (cutAt items i j).1 = items.take i ∧ (cutAt items i j).2.2 = items.drop j.toNat := by
  have hstop : fromEnd items.length j = j := if_neg (by omega)
  have hmax : max i j.toNat = j.toNat := by omega
  exact ⟨rfl, by simp only [cutAt, hstop, hmax]⟩

variable {target : Ref} {size : Nat} {first last : Int} {isOpen : Bool}

/-- Where a range ends, if it has enough elements. -/
theorem start_le_stop (target : Ref)
    (hstart : 0 ≤ fromEnd size first ∧ fromEnd size first ≤ size) {count : Nat}
    (hmany : isOpen = false → (count : Int) ≤ fromEnd size last - fromEnd size first + 1) :
    ((fromEnd size first).toNat : Int) ≤ (if isOpen then (size : Int) else fromEnd size last + 1) ∧
      (if isOpen then (size : Int) else fromEnd size last + 1).toNat =
        stop (.range target size first last isOpen) := by
  cases isOpen with
  | true => exact ⟨by simp only [if_true]; omega, by simp [stop]⟩
  | false =>
    have := hmany rfl
    exact ⟨by simp only [Bool.false_eq_true, if_false]; omega, by simp [stop]⟩

theorem checkCount_ok_iff {available : Nat} {count : Int} {few many : Cause} :
    checkCount available count isOpen few many e = .ok () e' ↔
      (count ≤ available ∧ (isOpen = false → (available : Int) ≤ count)) ∧ e = e' := by
  unfold checkCount
  by_cases hfew : (available : Int) < count
  · simp only [hfew, if_true]
    refine ⟨nofun, ?_⟩
    rintro ⟨⟨hle, -⟩, -⟩
    omega
  · simp only [hfew, if_false]
    by_cases hmany : (!isOpen) = true ∧ count < available
    · simp only [hmany]
      refine ⟨nofun, ?_⟩
      rintro ⟨⟨-, hle⟩, -⟩
      have := hle (by simpa using hmany.1)
      omega
    · simp only [hmany, if_false]
      refine ⟨fun h => ?_, ?_⟩
      · cases h
        refine ⟨⟨by omega, fun hclosed => ?_⟩, rfl⟩
        by_contra hlt
        exact hmany ⟨by simpa using hclosed, by omega⟩
      · rintro ⟨-, rfl⟩
        rfl

theorem checkAllUnlocked_ok_iff {items : List Ref} {name : String} :
    checkAllUnlocked items name e = .ok () e' ↔ items.any e.heap.isLocked = false ∧ e = e' := by
  unfold checkAllUnlocked
  rw [bind_of_ok (show (get : Run Engine) e = .ok e e from rfl)]
  by_cases hlocked : items.any e.heap.isLocked = true
  · simp only [hlocked, if_true]
    exact ⟨nofun, fun h => nomatch h.1⟩
  · rw [if_neg hlocked]
    refine ⟨fun h => ?_, ?_⟩
    · cases h
      exact ⟨by simpa using hlocked, rfl⟩
    · rintro ⟨-, rfl⟩
      rfl

theorem replaceRange_items {items added copies : List Ref}
    (hstart : 0 ≤ fromEnd size first ∧ fromEnd size first ≤ size)
    (htarget : e.heap.value target = .list items) (hright : e.heap.value right = .list added)
    (hfew : fromEnd size last - fromEnd size first + 1 ≤ added.length)
    (hmany : isOpen = false → (added.length : Int) ≤ fromEnd size last - fromEnd size first + 1)
    (hfree : (cutAt items (fromEnd size first).toNat (fromEnd size last + 1)).2.1.any
      e.heap.isLocked = false) (hcopies : storedAll added e = .ok copies e') :
    replaceRange target right size first last isOpen e =
      .ok () (write (.range target size first last isOpen) (.list copies) e') := by
  obtain ⟨hle, hstop⟩ := start_le_stop target hstart hmany
  obtain ⟨hbefore, hafter⟩ := cutAt_of_le items hle
  have hkept : e'.heap.value target = .list items := by
    rw [(Adds.heap_of_ok (.storedAll added) hcopies).value_eq (by rw [htarget]; rfl), htarget]
  unfold replaceRange
  dsimp only
  rw [bind_of_ok (value_of_eq htarget), bind_of_ok (value_of_eq hright)]
  dsimp only
  rw [bind_of_ok (checkCount_ok_iff.2 ⟨⟨hfew, hmany⟩, rfl⟩),
    bind_of_ok (checkAllUnlocked_ok_iff.2 ⟨hfree, rfl⟩), bind_of_ok hcopies]
  simp only [write, container, replaced, hkept, hbefore, hafter, hstop, start]
  rfl

theorem replaceRange_bytes {found added : List UInt8}
    (hstart : 0 ≤ fromEnd size first ∧ fromEnd size first ≤ size)
    (htarget : e.heap.value target = .blob found) (hright : e.heap.value right = .blob added)
    (hfew : fromEnd size last - fromEnd size first + 1 ≤ added.length)
    (hmany : isOpen = false → (added.length : Int) ≤ fromEnd size last - fromEnd size first + 1) :
    replaceRange target right size first last isOpen e =
      .ok () (write (.range target size first last isOpen) (.blob added) e) := by
  obtain ⟨hle, hstop⟩ := start_le_stop target hstart hmany
  obtain ⟨hbefore, hafter⟩ := cutAt_of_le found hle
  unfold replaceRange
  dsimp only
  rw [bind_of_ok (value_of_eq htarget), bind_of_ok (value_of_eq hright)]
  dsimp only
  rw [bind_of_ok (checkCount_ok_iff.2 ⟨⟨hfew, hmany⟩, rfl⟩)]
  simp only [write, container, replaced, htarget, hbefore, hafter, hstop, start]
  rfl

/-- Once it is known what is stored, it is stored at the place, or the place is missed. -/
theorem finish_of_fills {s : Spot} (hstarts : s.Starts) (hfills : Fills op right e s new e') :
    (s.LiesIn e'.heap → s.finish op right e = .ok () (s.write new e')) ∧
      (¬s.LiesIn e'.heap → s.Missed new e' (s.finish op right e)) := by
  cases hfills with
  | @item list current r i shown e₁ hcombined =>
    have hstored : stored r e₁ = .ok (e₁.heap.stored r).1 (e₁.withHeap (e₁.heap.stored r).2) := rfl
    simp only [finish]
    rw [bind_of_ok hcombined, bind_of_ok hstored]
    exact setItem_eq
  | byte hfound hb hcombined hn hlow hhigh =>
    obtain ⟨hin, hrun⟩ := finish_byte hfound hb hcombined hn hlow hhigh
    exact ⟨fun _ => hrun, fun hout => absurd hin hout⟩
  | byteGone hgone =>
    refine ⟨fun hin => absurd hin (not_liesIn_of_gone hgone), fun _ => ?_⟩
    exact bind_of_error (byteAt_of_gone hgone)
  | items hitems hadded hfew hmany hunlocked hcopies =>
    have hrun := replaceRange_items hstarts hitems hadded hfew hmany hunlocked hcopies
    exact ⟨fun _ => hrun, fun _ => hrun⟩
  | bytes hbytes hadded hfew hmany =>
    have hrun := replaceRange_bytes hstarts hbytes hadded hfew hmany
    exact ⟨fun _ => hrun, fun _ => hrun⟩

theorem byteAt_ok {blob : Ref} {i : Nat} {b : UInt8} (h : byteAt blob i e = .ok b e') :
    e = e' ∧ ∃ found, e.heap.value blob = .blob found ∧ found[i]? = some b := by
  unfold byteAt at h
  obtain ⟨found, e₁, hbytes, hb⟩ := of_bind_ok h
  unfold bytes at hbytes
  rw [bind_of_ok (value_of_eq rfl)] at hbytes
  cases hv : e.heap.value blob with
  | blob found' =>
    rw [hv] at hbytes
    cases hbytes
    cases hat : found[i]? with
    | none =>
      rw [hat] at hb
      cases hb
    | some b' =>
      rw [hat] at hb
      cases hb
      exact ⟨rfl, found, rfl, hat⟩
  | _ =>
    rw [hv] at hbytes
    cases hbytes

theorem number_ok {r : Ref} {n : Int} (h : number r e = .ok n e') :
    e = e' ∧ (e.heap.value r).toNumber = .ok n := by
  unfold number at h
  rw [bind_of_ok (value_of_eq rfl)] at h
  cases hn : (e.heap.value r).toNumber with
  | error stop =>
    rw [hn] at h
    cases h
  | ok n' =>
    rw [hn] at h
    cases h
    exact ⟨rfl, rfl⟩

/-- Nothing else is stored: an assignment that ends normally has found something to store. -/
theorem fills_of_finish {s : Spot} (hstarts : s.Starts) (h : s.finish op right e = .ok () e') :
    ∃ new e₁, Fills op right e s new e₁ := by
  cases s with
  | item list i current shown =>
    simp only [finish] at h
    obtain ⟨r, e₁, hcombined, -⟩ := of_bind_ok h
    exact ⟨_, _, .item hcombined⟩
  | byte blob i shown =>
    simp only [finish] at h
    obtain ⟨b, e₁, hbyte, hrest⟩ := of_bind_ok h
    obtain ⟨rfl, found, hfound, hb⟩ := byteAt_ok hbyte
    obtain ⟨current, e₂, hcurrent, hrest⟩ := of_bind_ok hrest
    cases hcurrent
    obtain ⟨r, e₃, hcombined, hrest⟩ := of_bind_ok hrest
    obtain ⟨n, e₄, hnumber, hrest⟩ := of_bind_ok hrest
    obtain ⟨rfl, hn⟩ := number_ok hnumber
    by_cases hfits : n < 0 ∨ 255 < n
    · rw [if_pos hfits] at hrest
      cases hrest
    · exact ⟨_, _, .byte hfound hb hcombined hn (by omega) (by omega)⟩
  | range target size first last isOpen =>
    simp only [finish, replaceRange] at h
    rw [bind_of_ok (value_of_eq rfl), bind_of_ok (value_of_eq rfl)] at h
    -- only two Lists or two Blobs are not refused for their kinds
    cases htarget : e.heap.value target with
    | list items =>
      cases hright : e.heap.value right with
      | list added =>
        rw [htarget, hright] at h
        obtain ⟨_, e₁, hcount, hrest⟩ := of_bind_ok h
        obtain ⟨⟨hfew, hmany⟩, rfl⟩ := checkCount_ok_iff.1 hcount
        obtain ⟨_, e₂, hunlocked, hrest⟩ := of_bind_ok hrest
        obtain ⟨hfree, rfl⟩ := checkAllUnlocked_ok_iff.1 hunlocked
        obtain ⟨copies, e₃, hcopies, -⟩ := of_bind_ok hrest
        exact ⟨_, _, .items htarget hright hfew hmany hfree hcopies⟩
      | _ =>
        rw [htarget, hright] at h
        cases h
    | blob found =>
      cases hright : e.heap.value right with
      | blob added =>
        rw [htarget, hright] at h
        obtain ⟨_, e₁, hcount, -⟩ := of_bind_ok h
        obtain ⟨⟨hfew, hmany⟩, rfl⟩ := checkCount_ok_iff.1 hcount
        exact ⟨_, _, .bytes htarget hright hfew hmany⟩
      | _ =>
        rw [htarget, hright] at h
        cases h
    | _ =>
      rw [htarget] at h
      cases h

end Spot

open Spot in
/-- An assignment to an item, a byte or a range stores at the place that it has found before the
new value was evaluated, whatever that did. If the place lies in the container, exactly this place
is replaced, even if a lock has come to it since; if it does not, the engine fails on an item and a
byte, and a range is cut to what there is. So the rule is obeyed exactly if the place is not
stale. -/
theorem Run.assign_spot {eval : Expr → Run Ref} {c : Context} {op : AssignOperator}
    {target x : Expr} {s : Spot} {right : Ref} {e e₁ e₂ : Engine}
    (haims : s.Aims eval op e target e₁) (hright : eval x e₁ = .ok right e₂) :
    (∀ new e₃, s.Fills op right e₂ new e₃ →
      (s.LiesIn e₃.heap → assign eval c target op x e = .ok () (s.write new e₃)) ∧
      (¬s.LiesIn e₃.heap → s.Missed new e₃ (assign eval c target op x e)) ∧
      (s.Obeyed new e₃ (assign eval c target op x e) ↔ ¬s.Stale e₃.heap)) ∧
    ∀ e', assign eval c target op x e = .ok () e' →
      ∃ new e₃, s.Fills op right e₂ new e₃ ∧ e' = s.write new e₃ := by
  have hstarts : s.Starts := haims.starts
  have hrun : assign eval c target op x e = s.finish op right e₂ := assign_eq_finish haims hright
  rw [hrun]
  refine ⟨fun new e₃ hfills => ?_, fun e' hended => ?_⟩
  · obtain ⟨hwrites, hmisses⟩ := finish_of_fills hstarts hfills
    refine ⟨hwrites, hmisses, fun hobeyed hstale => ?_, fun hfresh => ?_⟩
    · obtain ⟨cause, -, hrefused⟩ := hobeyed.1 hstale
      by_cases hin : s.LiesIn e₃.heap
      · cases hrefused.symm.trans (hwrites hin)
      · exact (hmisses hin).not_refused hrefused
    · have hin : s.LiesIn e₃.heap := by
        by_contra hout
        exact hfresh (.inl hout)
      exact ⟨fun hstale => absurd hstale hfresh, fun _ => hwrites hin⟩
  · obtain ⟨new, e₃, hfills⟩ := fills_of_finish hstarts hended
    obtain ⟨hwrites, hmisses⟩ := finish_of_fills hstarts hfills
    refine ⟨new, e₃, hfills, ?_⟩
    by_cases hin : s.LiesIn e₃.heap
    · cases hended.symm.trans (hwrites hin)
      rfl
    · exact (hmisses hin).written hended

namespace Session

/-- A List with one item, and two positions. -/
def holdingItem : Engine :=
  (blank .standard).withHeap
    ⟨#[.fresh (.list [⟨1⟩]), .fresh (.number 7), .fresh (.string "0"), .fresh (.number 0)]⟩

def firstItem : Expr := .index (.const ⟨0⟩) (.const ⟨2⟩)

/-- The new value is the item, taken out of the List. -/
def removal : Expr := .call none "remove" [.const ⟨0⟩, .const ⟨3⟩]

def holdingNone : Engine := holdingItem.withHeap (holdingItem.heap.setValue ⟨0⟩ (.list []))

/-- The copy that is to be stored has been made. -/
def holdingCopy : Engine := holdingNone.withHeap (holdingNone.heap.new (.number 7)).2

def firstSpot : Spot := .item ⟨0⟩ 0 ⟨1⟩ (positionText 0)

def evalLine : Expr → Run Ref := (Interp.ofFuel ⟨[]⟩ 4).eval .commandLine

theorem aims_firstItem : firstSpot.Aims evalLine .set holdingItem firstItem holdingItem := by
  have hzero : Number.ofText? "0" = some 0 := by decide +kernel
  have hindex : (Value.string "0").toIndex = .ok 0 := by
    simp only [Value.toIndex, Value.toText, hzero]
  have hitems : holdingItem.heap.value ⟨0⟩ = .list [⟨1⟩] := rfl
  exact .item rfl rfl hitems hindex rfl rfl rfl

theorem evalLine_removal : evalLine removal holdingItem = .ok ⟨1⟩ holdingNone := rfl

theorem fills_removal : firstSpot.Fills .set ⟨1⟩ holdingNone (.list [⟨4⟩]) holdingCopy := by
  have hcombined : Run.combine .set (some ⟨1⟩) ⟨1⟩ (positionText 0) holdingNone =
      .ok ⟨1⟩ holdingNone := rfl
  exact .item hcombined

theorem not_liesIn_removal : ¬firstSpot.LiesIn holdingCopy.heap := show ¬0 + 1 ≤ 0 by decide

theorem assign_spot_removal :
    firstSpot.Aims evalLine .set holdingItem firstItem holdingItem ∧
      evalLine removal holdingItem = .ok ⟨1⟩ holdingNone ∧
      Run.assign evalLine .commandLine firstItem .set removal holdingItem =
        .error (.internal .itemGone) holdingCopy := by
  have hspot := Run.assign_spot (c := .commandLine) aims_firstItem evalLine_removal
  obtain ⟨-, hmissed, -⟩ := hspot.1 _ _ fills_removal
  exact ⟨aims_firstItem, evalLine_removal, hmissed not_liesIn_removal⟩

/-- The rule is not always obeyed. -/
theorem not_forall_obeyed : ¬∀ (eval : Expr → Run Ref) (c : Context) (op : AssignOperator)
    (target x : Expr) (s : Spot) (right : Ref) (new : Value) (e e₁ e₂ e₃ : Engine),
    s.Aims eval op e target e₁ → eval x e₁ = .ok right e₂ → s.Fills op right e₂ new e₃ →
      s.Obeyed new e₃ (Run.assign eval c target op x e) := by
  intro hobeyed
  have hrule := hobeyed _ .commandLine _ _ _ _ _ _ _ _ _ _ aims_firstItem evalLine_removal
    fills_removal
  obtain ⟨cause, -, hrefused⟩ := hrule.1 (.inl not_liesIn_removal)
  rw [Run.assign_eq_finish aims_firstItem evalLine_removal] at hrefused
  cases hrefused

end Session

end VimL
