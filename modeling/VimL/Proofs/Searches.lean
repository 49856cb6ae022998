import VimL.Proofs.NativeCalls
import VimL.Proofs.Ranges

/-!
# Searches in Lists and Blobs

A search gives the first position at which there is a wanted value, from a start that counts from
the end if it is below zero. Lists and Blobs are searched apart. In a List the start is normalised
before the search; in a Blob it is not, and a search from below zero runs over the last bytes under
negative positions first, and then over all of them.
-/

namespace VimL

open EStateM (Result)

/-! ## First positions -/

section FirstPositions

variable {α : Type} {items xs : List α} {fits : α → Bool} {size : Nat} {first answer other : Int}

/-- The least position from `first` on at which this is found, or -1 if it is found at none. -/
def IsFirst (found : Int → Prop) (first : Int) (size : Nat) (answer : Int) : Prop :=
  (first ≤ answer ∧ answer < size ∧ found answer ∧ ∀ p, first ≤ p → p < answer → ¬found p) ∨
    (answer = -1 ∧ ∀ p, first ≤ p → p < size → ¬found p)

/-- The element at a position, which counts from the end below zero, fits. -/
def FoundAt (items : List α) (fits : α → Bool) (p : Int) : Prop :=
  ∃ x, items[(fromEnd items.length p).toNat]? = some x ∧ fits x = true

/-- Where a search should start. -/
def searchStart (size : Nat) (start : Int) : Int := if start < 0 then max (start + size) 0 else start

theorem searchStart_nonneg (size : Nat) (start : Int) : 0 ≤ searchStart size start := by
  unfold searchStart
  split <;> omega

/-- A search through elements that are those from `first` on, in their order. -/
theorem isFirst_firstPosition (hlength : (xs.length : Int) = max (items.length - first) 0)
    (hat : ∀ j < xs.length, xs[j]? = items[(fromEnd items.length (first + j)).toNat]?) :
    IsFirst (FoundAt items fits) first items.length (Library.firstPosition fits first xs) := by
  unfold Library.firstPosition
  cases hfound : xs.findIdx? fits with
  | none =>
    right
    refine ⟨rfl, ?_⟩
    rintro p hlow hhigh ⟨x, hx, hfits⟩
    have hj : (p - first).toNat < xs.length := by omega
    have hpos : first + ((p - first).toNat : Int) = p := by omega
    have hsame : xs[(p - first).toNat]? = some x := by
      rw [hat _ hj, hpos, hx]
    have hmiss := List.findIdx?_eq_none_iff.1 hfound x (List.mem_of_getElem? hsame)
    rw [hmiss] at hfits
    cases hfits
  | some j =>
    left
    obtain ⟨hj, hfits, hbefore⟩ := List.findIdx?_eq_some_iff_getElem.1 hfound
    dsimp only
    refine ⟨by omega, by omega, ?_, ?_⟩
    · refine ⟨xs[j], ?_, hfits⟩
      rw [← hat j hj]
      exact List.getElem?_eq_getElem hj
    · rintro p hlow hlt ⟨x, hx, hpfits⟩
      have hk : (p - first).toNat < j := by omega
      have hkin : (p - first).toNat < xs.length := by omega
      have hpos : first + ((p - first).toNat : Int) = p := by omega
      have hsame : xs[(p - first).toNat]? = some x := by
        rw [hat _ hkin, hpos, hx]
      have hvalue : xs[(p - first).toNat] = x := by
        rw [List.getElem?_eq_getElem hkin] at hsame
        exact Option.some.inj hsame
      have hmiss := hbefore _ hk
      rw [hvalue] at hmiss
      exact hmiss hpfits

theorem isFirst_drop (hfirst : 0 ≤ first) :
    IsFirst (FoundAt items fits) first items.length
      (Library.firstPosition fits first (items.drop first.toNat)) := by
  apply isFirst_firstPosition
  · rw [List.length_drop]
    omega
  · intro j _
    have hpos : (fromEnd items.length (first + j)).toNat = first.toNat + j := by
      unfold fromEnd
      rw [if_neg (by omega)]
      omega
    rw [List.getElem?_drop, hpos]

/-- The elements from a position below zero on are those at the end, and then all of them. -/
theorem isFirst_drop_append (hlow : -(items.length : Int) ≤ first) (hneg : first < 0) :
    IsFirst (FoundAt items fits) first items.length
      (Library.firstPosition fits first
        (items.drop (first + items.length).toNat ++ items)) := by
  apply isFirst_firstPosition
  · rw [List.length_append, List.length_drop]
    omega
  · intro j _
    rw [List.getElem?_append, List.length_drop]
    by_cases hend : j < items.length - (first + items.length).toNat
    · have hpos : (fromEnd items.length (first + j)).toNat = (first + items.length).toNat + j := by
        unfold fromEnd
        rw [if_pos (by omega)]
        omega
      rw [if_pos hend, List.getElem?_drop, hpos]
    · have hpos : (fromEnd items.length (first + j)).toNat =
          j - (items.length - (first + items.length).toNat) := by
        unfold fromEnd
        rw [if_neg (by omega)]
        omega
      rw [if_neg hend, hpos]

/-- From the front there is one first position. -/
theorem IsFirst.unique {found : Int → Prop} (_ : 0 ≤ first)
    (h : IsFirst found first size answer) (h' : IsFirst found first size other) :
    answer = other := by
  rcases h with ⟨hlow, hin, hfound, hleast⟩ | ⟨rfl, hnone⟩
  · rcases h' with ⟨hlow', hin', hfound', hleast'⟩ | ⟨rfl, hnone'⟩
    · apply le_antisymm
      · by_contra hlt
        exact hleast other hlow' (by omega) hfound'
      · by_contra hlt
        exact hleast' answer hlow (by omega) hfound
    · exact absurd hfound (hnone' answer hlow hin)
  · rcases h' with ⟨hlow', hin', hfound', -⟩ | ⟨rfl, -⟩
    · exact absurd hfound' (hnone other hlow' hin')
    · rfl

theorem foundAt_add_length (hlow : -(items.length : Int) ≤ first) (hneg : first < 0) :
    FoundAt items fits (first + items.length) ↔ FoundAt items fits first := by
  unfold FoundAt fromEnd
  rw [if_pos hneg, if_neg (by omega)]

theorem not_foundAt_of_forall (hnone : ∀ x ∈ items, fits x = false) (p : Int) :
    ¬FoundAt items fits p := by
  rintro ⟨x, hx, hfits⟩
  rw [hnone x (List.mem_of_getElem? hx)] at hfits
  cases hfits

/-- A search from below zero gives the position of the rule only if nothing is found. -/
theorem isFirst_searchStart_iff (hlow : -(items.length : Int) ≤ first)
    (h : IsFirst (FoundAt items fits) first items.length answer) :
    IsFirst (FoundAt items fits) (searchStart items.length first) items.length answer ↔
      0 ≤ first ∨ ∀ x ∈ items, fits x = false := by
  constructor
  · intro hrule
    by_contra hbroken
    obtain ⟨hneg, hsome⟩ := not_or.1 hbroken
    have hstart : searchStart items.length first = first + items.length := by
      unfold searchStart
      rw [if_pos (by omega)]
      omega
    rw [hstart] at hrule
    apply hsome
    intro x hx
    by_contra hfits
    obtain ⟨p, hp, hat⟩ := List.mem_iff_getElem.1 hx
    have hfoundp : FoundAt items fits p := by
      refine ⟨x, ?_, by simpa using hfits⟩
      unfold fromEnd
      rw [if_neg (by omega), Int.toNat_natCast, List.getElem?_eq_getElem hp, hat]
    rcases h with ⟨hlow', hin, hfound, hleast⟩ | ⟨rfl, hnone⟩
    · -- what is found below zero is not from the start on, and what is found above is, but late
      rcases hrule with ⟨hfrom, -, -, -⟩ | ⟨rfl, hnone⟩
      · have hat' : FoundAt items fits (answer - items.length) := by
          rw [← foundAt_add_length (by omega) (by omega)]
          rwa [Int.sub_add_cancel]
        exact hleast _ (by omega) (by omega) hat'
      · have hat' : FoundAt items fits (-1 + items.length) := by
          rw [foundAt_add_length (by omega) (by omega)]
          exact hfound
        exact hnone _ (by omega) (by omega) hat'
    · exact hnone p (by omega) (by omega) hfoundp
  · rintro (hfirst | hnone)
    · have hstart : searchStart items.length first = first := if_neg (by omega)
      rwa [hstart]
    · right
      constructor
      · rcases h with ⟨-, -, hfound, -⟩ | ⟨hminus, -⟩
        · exact absurd hfound (not_foundAt_of_forall hnone answer)
        · exact hminus
      · intro p _ _
        exact not_foundAt_of_forall hnone p

end FirstPositions

/-! ## Calls -/

namespace Run

/-- An argument for a Number, which may be left out. -/
inductive GivesNumber (default : Int) (e : Engine) : Option Ref → Int → Prop where
  | omitted : GivesNumber default e none default
  | written {r : Ref} {n : Int} (hr : (e.heap.value r).toNumber = .ok n) :
      GivesNumber default e (some r) n

/-- An argument for a flag, which is not set if it is left out. -/
inductive GivesFlag (e : Engine) : Option Ref → Bool → Prop where
  | omitted : GivesFlag e none false
  | written {r : Ref} {b : Bool} (hr : (e.heap.value r).toBool = .ok b) : GivesFlag e (some r) b

variable {host : Host} {i : Interp} {c : Context} {container wanted : Ref} {more : List Ref}
  {receiver start flag : Option Ref} {items : List Ref} {bytes : List UInt8} {n byte : Int}
  {ignoreCase : Bool} {e : Engine}

theorem GivesNumber.of_heap {e' : Engine} (hheap : e'.heap = e.heap) (h : GivesNumber 0 e start n) :
    GivesNumber 0 e' start n := by
  cases h with
  | omitted => exact .omitted
  | written hr => exact .written (hheap ▸ hr)

theorem GivesFlag.of_heap {e' : Engine} (hheap : e'.heap = e.heap)
    (h : GivesFlag e flag ignoreCase) : GivesFlag e' flag ignoreCase := by
  cases h with
  | omitted => exact .omitted
  | written hr => exact .written (hheap ▸ hr)

theorem GivesFlag.flag_eq (h : GivesFlag e flag ignoreCase) :
    Library.flag flag e = .ok ignoreCase e := by
  cases h with
  | omitted => rfl
  | @written r b hr =>
    have hrun : Library.flag (some r) e = settle (e.heap.value r).toBool e := rfl
    rw [hrun, hr]
    rfl

theorem indexOf_list (hitems : e.heap.value container = .list items)
    (hstart : GivesNumber 0 e start n) (hflag : GivesFlag e flag ignoreCase) :
    Library.indexOf container wanted start flag e =
      newInt (Library.firstPosition (fun r => e.heap.equal ignoreCase r wanted)
        (searchStart items.length n)
        (items.drop (searchStart items.length n).toNat)) e := by
  unfold Library.indexOf
  rw [bind_of_ok hflag.flag_eq, bind_of_ok (value_of_eq hitems)]
  cases hstart with
  | omitted => rfl
  | written hr => exact bind_of_ok (number_of_ok hr)

theorem indexOf_blob (hbytes : e.heap.value container = .blob bytes)
    (hbyte : (e.heap.value wanted).toNumber = .ok byte) (hstart : GivesNumber 0 e start n)
    (hflag : GivesFlag e flag ignoreCase) :
    Library.indexOf container wanted start flag e =
      (Library.indexInBlob bytes byte n >>= newInt) e := by
  unfold Library.indexOf
  rw [bind_of_ok hflag.flag_eq, bind_of_ok (value_of_eq hbytes)]
  dsimp only
  rw [bind_of_ok (number_of_ok hbyte)]
  cases hstart with
  | omitted => rfl
  | written hr => exact bind_of_ok (number_of_ok hr)

/-- A search in a Blob starts where it is told to, also below zero. -/
theorem exists_indexInBlob (hlow : -(bytes.length : Int) ≤ n) (byte : Int) :
    ∃ answer, Library.indexInBlob bytes byte n e = .ok answer e ∧
      IsFirst (FoundAt bytes fun b => (b.toNat : Int) == byte) n bytes.length answer := by
  unfold Library.indexInBlob
  rw [if_neg (by omega)]
  by_cases hneg : n < 0
  · rw [if_pos hneg]
    exact ⟨_, rfl, isFirst_drop_append hlow hneg⟩
  · rw [if_neg hneg]
    exact ⟨_, rfl, isFirst_drop (by omega)⟩

theorem callHandler_index (hmore : more.length ≤ 2) :
    callHandler host i c (.builtin .index) (container :: wanted :: more) receiver e =
      afterwards (Library.indexOf container wanted more[0]? more[1]?) e.leave
        (e.enter (.native "index")) := by
  match more, hmore with
  | [], _ => exact callHandler_builtin rfl
  | [_], _ => exact callHandler_builtin rfl
  | [_, _], _ => exact callHandler_builtin rfl
  | _ :: _ :: _ :: _, hmore => exact absurd hmore (by simp)

/-- What the search gives in a List is the first position of an equal item from the normalised start
on. In a Blob it is the first position of the byte from the start itself on, which counts from the
end below zero; so it is the one from the normalised start on exactly if the start is not below zero
or the byte is nowhere in the Blob. A start before the first byte makes the engine fail. -/
theorem index_searches (hmore : more.length ≤ 2) (hstart : GivesNumber 0 e more[0]? n)
    (hflag : GivesFlag e more[1]? ignoreCase) :
    (∀ items, e.heap.value container = .list items → ∃ answer,
      callHandler host i c (.builtin .index) (container :: wanted :: more) receiver e =
        newInt answer e ∧
      IsFirst (FoundAt items fun r => e.heap.equal ignoreCase r wanted)
        (searchStart items.length n) items.length answer) ∧
    ∀ bytes byte, e.heap.value container = .blob bytes →
      (e.heap.value wanted).toNumber = .ok byte →
      (-(bytes.length : Int) ≤ n → ∃ answer,
        callHandler host i c (.builtin .index) (container :: wanted :: more) receiver e =
          newInt answer e ∧
        IsFirst (FoundAt bytes fun b => (b.toNat : Int) == byte) n bytes.length answer ∧
        (IsFirst (FoundAt bytes fun b => (b.toNat : Int) == byte) (searchStart bytes.length n)
            bytes.length answer ↔
          0 ≤ n ∨ ∀ b ∈ bytes, (b.toNat : Int) ≠ byte)) ∧
      (n < -(bytes.length : Int) →
        callHandler host i c (.builtin .index) (container :: wanted :: more) receiver e =
          .error (.internal (.beforeBlob n)) e) := by
  have hstart' : GivesNumber 0 (e.enter (.native "index")) more[0]? n :=
    GivesNumber.of_heap (e := e) rfl hstart
  have hflag' : GivesFlag (e.enter (.native "index")) more[1]? ignoreCase :=
    GivesFlag.of_heap (e := e) rfl hflag
  rw [callHandler_index hmore]
  unfold afterwards
  constructor
  · intro items hitems
    rw [indexOf_list (e := e.enter (.native "index")) hitems hstart' hflag']
    exact ⟨_, rfl, isFirst_drop (searchStart_nonneg items.length n)⟩
  · intro bytes byte hbytes hbyte
    rw [indexOf_blob (e := e.enter (.native "index")) hbytes hbyte hstart' hflag']
    constructor
    · intro hlow
      obtain ⟨answer, hrun, hfirst⟩ :=
        exists_indexInBlob (e := e.enter (.native "index")) hlow byte
      have hrule := isFirst_searchStart_iff hlow hfirst
      rw [bind_of_ok hrun]
      refine ⟨answer, rfl, hfirst, hrule.trans ?_⟩
      simp only [beq_eq_false_iff_ne]
    · intro hlow
      have hrun : Library.indexInBlob bytes byte n (e.enter (.native "index")) =
          .error (.internal (.beforeBlob n)) (e.enter (.native "index")) := by
        unfold Library.indexInBlob
        rw [if_pos hlow]
        rfl
      rw [bind_of_error hrun]
      rfl

end Run

namespace Session

/-- A Blob with two bytes, a value that is the second one, and the start of a search. -/
def holdingBytes : Engine :=
  (blank .standard).withHeap
    ⟨#[.fresh (.blob [1, 2]), .fresh (.number 2), .fresh (.number (-1)), .fresh (.number (-3))]⟩

theorem start_holdingBytes : Run.GivesNumber 0 holdingBytes [(⟨2⟩ : Ref)][0]? (-1) := .written rfl

theorem isFirst_second : IsFirst (FoundAt [(1 : UInt8), 2] fun b => (b.toNat : Int) == 2)
    (searchStart 2 (-1)) 2 1 := by
  left
  refine ⟨by decide, by decide, ⟨2, rfl, rfl⟩, ?_⟩
  intro p hlow hlt
  have hstart : searchStart 2 (-1) = 1 := by decide
  omega

/-- The byte is found at the end of the Blob, under a negative position, and a start before the
first byte is no start at all. -/
theorem index_searches_holdingBytes :
    (∃ answer, Run.callHandler ⟨[]⟩ (.ofFuel ⟨[]⟩ 0) .commandLine (.builtin .index)
        [⟨0⟩, ⟨1⟩, ⟨2⟩] none holdingBytes = Run.newInt answer holdingBytes ∧
      ¬IsFirst (FoundAt [(1 : UInt8), 2] fun b => (b.toNat : Int) == 2) (searchStart 2 (-1)) 2
        answer) ∧
    Run.callHandler ⟨[]⟩ (.ofFuel ⟨[]⟩ 0) .commandLine (.builtin .index) [⟨0⟩, ⟨1⟩, ⟨3⟩] none
      holdingBytes = .error (.internal (.beforeBlob (-3))) holdingBytes := by
  have hlast := @Run.index_searches ⟨[]⟩ (.ofFuel ⟨[]⟩ 0) .commandLine ⟨0⟩ ⟨1⟩ [⟨2⟩] none (-1) false
    holdingBytes (by decide) start_holdingBytes .omitted
  have hbefore := @Run.index_searches ⟨[]⟩ (.ofFuel ⟨[]⟩ 0) .commandLine ⟨0⟩ ⟨1⟩ [⟨3⟩] none (-3)
    false holdingBytes (by decide) (.written rfl) .omitted
  constructor
  · obtain ⟨answer, hrun, -, hrule⟩ := (hlast.2 [1, 2] 2 rfl rfl).1 (by decide)
    refine ⟨answer, hrun, fun hfirst => ?_⟩
    rcases hrule.1 hfirst with hstart | hnone
    · exact absurd hstart (by decide)
    · exact hnone 2 (by decide) rfl
  · exact (hbefore.2 [1, 2] 2 rfl rfl).2 (by decide)

/-- The rule for searches in Blobs does not hold. -/
theorem not_forall_isFirst : ¬∀ (host : Host) (i : Interp) (c : Context) (container wanted : Ref)
    (more : List Ref) (receiver : Option Ref) (n : Int) (ignoreCase : Bool) (e : Engine)
    (bytes : List UInt8) (byte : Int), more.length ≤ 2 → Run.GivesNumber 0 e more[0]? n →
      Run.GivesFlag e more[1]? ignoreCase → e.heap.value container = .blob bytes →
      (e.heap.value wanted).toNumber = .ok byte → ∃ answer,
        Run.callHandler host i c (.builtin .index) (container :: wanted :: more) receiver e =
          Run.newInt answer e ∧
        IsFirst (FoundAt bytes fun b => (b.toNat : Int) == byte) (searchStart bytes.length n)
          bytes.length answer := by
  intro hrule
  obtain ⟨answer, hrun, hfirst⟩ := hrule ⟨[]⟩ (.ofFuel ⟨[]⟩ 0) .commandLine ⟨0⟩ ⟨1⟩ [⟨2⟩] none (-1)
    false holdingBytes [1, 2] 2 (by decide) start_holdingBytes .omitted rfl rfl
  obtain rfl : answer = 1 := hfirst.unique (searchStart_nonneg _ _) isFirst_second
  have hended : Run.callHandler ⟨[]⟩ (.ofFuel ⟨[]⟩ 0) .commandLine (.builtin .index)
      [⟨0⟩, ⟨1⟩, ⟨2⟩] none holdingBytes = Run.newInt (-1) holdingBytes := rfl
  have hheaps : (holdingBytes.heap.new (.ofInt (-1))).2 = (holdingBytes.heap.new (.ofInt 1)).2 :=
    congrArg Engine.heap (Result.ok.inj (hended.symm.trans hrun)).2
  have hvalues : Value.ofInt (-1) = Value.ofInt 1 := by
    rw [← holdingBytes.heap.value_new_self (.ofInt (-1)), hheaps]
    exact holdingBytes.heap.value_new_self (.ofInt 1)
  exact absurd (Value.number.inj hvalues) (by decide)

end Session

end VimL
