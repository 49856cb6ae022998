import VimL.Proofs.FailedAssignments
import VimL.Proofs.LockedEntries
import VimL.Proofs.NativeCalls

/-!
# Changes that fail

The functions that change a container look at their arguments first: at the lock, the kind, the
positions and the mode. What fails then has changed nothing. Only a Dictionary that must not be
extended by a key it has is extended before all keys were looked at.
-/

namespace VimL

open EStateM (Result)

namespace Table

variable {α : Type} {t : Table α} {name : String}

theorem contains_eq_false_iff : t.contains name = false ↔ t.find? name = none := by
  unfold contains
  exact Option.isSome_eq_false_iff.trans Option.isNone_iff_eq_none

theorem keys_insert_of_not_contains (h : t.contains name = false) (value : α) :
    (t.insert name value).keys = t.keys ++ [name] := by
  have hout : name ∉ t.entries.map (·.1) := by
    intro hin
    obtain ⟨found, hfound⟩ := mem_keys_iff.1 hin
    rw [contains_eq_false_iff, hfound] at h
    cases h
  have hentries : (t.insert name value).entries = t.entries ++ [(name, value)] :=
    insertIn_of_not_mem hout
  unfold keys
  rw [hentries, List.map_append]
  rfl

end Table

namespace Run

open Engine

variable {eval : Expr → Run Ref} {e₀ e e' : Engine}

theorem neverFails_setValue (r : Ref) (v : Value) : NeverFails (setValue r v) := .modifyGet _

theorem neverFails_stored (r : Ref) : NeverFails (stored r) := .modifyGet _

theorem neverFails_new (v : Value) : NeverFails (new v) := .modifyGet _

theorem neverFails_extendList (list : Ref) (added : List Ref) :
    NeverFails (extendList list added) := by
  unfold extendList
  refine (NeverFails.storedAll _).bind fun copies => ?_
  refine (NeverFails.value _).bind fun v => ?_
  split
  · exact neverFails_setValue _ _
  · exact .pure ()

theorem looks_listPosition (n : Int) (size : Nat) (allowEnd : Bool) :
    Looks (Library.listPosition n size allowEnd) := by
  unfold Library.listPosition
  by_cases hin : 0 ≤ fromEnd size n ∧ fromEnd size n < size + (if allowEnd then 1 else 0)
  · rw [if_pos hin]
    exact .pure _
  · rw [if_neg hin]
    exact .raise _

theorem looks_lastPosition (start : Nat) (last : Ref) (size : Nat) :
    Looks (Library.lastPosition start last size) := by
  unfold Library.lastPosition
  refine (Looks.number last).bind fun n => (looks_listPosition n size false).bind fun stop => ?_
  split
  · exact (Looks.raise _).bind fun _ => .pure _
  · exact .pure _

theorem failsAfter_raise {α : Type} (cause : Cause) :
    FailsAfter eval e₀ [] (raise cause : Run α) e :=
  .of_adds (.raise cause)

/-! ## Lists and Blobs -/

theorem failsAfter_add (container item : Ref) :
    FailsAfter eval e₀ [] (Library.add container item) e := by
  unfold Library.add Library.checkArgument
  refine .looks_bind (.checkUnlocked _ _) fun _ _ => ?_
  refine .looks_bind (.value _) fun v _ => ?_
  split
  · exact .of_never ((neverFails_extendList _ _).bind fun _ => .pure _)
  · refine .looks_bind (.number _) fun n _ => ?_
    exact .of_never ((neverFails_setValue _ _).bind fun _ => .pure _)
  · exact failsAfter_raise _

theorem failsAfter_insertAt (container item : Ref) (n : Int) :
    FailsAfter eval e₀ [] (do
      match ← value container with
      | .list items =>
        let i ← Library.listPosition n items.length true
        setValue container (.list (Library.insertAt items i [← stored item]))
        return container
      | .blob bytes =>
        let i ← Library.listPosition n bytes.length true
        setValue container (.blob (Library.insertAt bytes i [Library.lowByte (← number item)]))
        return container
      | _ => raise .insertNeedsSequence : Run Ref) e := by
  refine .looks_bind (.value _) fun v _ => ?_
  split
  · refine .looks_bind (looks_listPosition _ _ _) fun i _ => ?_
    refine .of_never ((neverFails_stored _).bind fun s => ?_)
    exact (neverFails_setValue _ _).bind fun _ => .pure _
  · refine .looks_bind (looks_listPosition _ _ _) fun i _ => ?_
    refine .looks_bind (.number _) fun n _ => ?_
    exact .of_never ((neverFails_setValue _ _).bind fun _ => .pure _)
  · exact failsAfter_raise _

theorem failsAfter_insert (container item : Ref) (position : Option Ref) :
    FailsAfter eval e₀ [] (Library.insert container item position) e := by
  unfold Library.insert Library.checkArgument
  refine .looks_bind (.checkUnlocked _ _) fun _ _ => ?_
  split
  · refine .looks_bind (.number _) fun n _ => ?_
    exact failsAfter_insertAt container item n
  · exact failsAfter_insertAt container item 0

theorem failsAfter_removeFromList (list first : Ref) (items : List Ref) (last : Option Ref) :
    FailsAfter eval e₀ [] (Library.removeFromList list items first last) e := by
  unfold Library.removeFromList
  refine .looks_bind (.number _) fun n _ => ?_
  refine .looks_bind (looks_listPosition _ _ _) fun start _ => ?_
  split
  · split
    · exact .of_never ((neverFails_setValue _ _).bind fun _ => .pure _)
    · exact .of_never (.internal _)
  · refine .looks_bind (looks_lastPosition _ _ _) fun stop _ => ?_
    exact .of_never ((neverFails_setValue _ _).bind fun _ => neverFails_new _)

theorem failsAfter_removeFromBlob (blob first : Ref) (bytes : List UInt8) (last : Option Ref) :
    FailsAfter eval e₀ [] (Library.removeFromBlob blob bytes first last) e := by
  unfold Library.removeFromBlob
  refine .looks_bind (.number _) fun n _ => ?_
  refine .looks_bind (looks_listPosition _ _ _) fun start _ => ?_
  split
  · split
    · exact .of_never ((neverFails_setValue _ _).bind fun _ => neverFails_new _)
    · exact .of_never (.internal _)
  · refine .looks_bind (looks_lastPosition _ _ _) fun stop _ => ?_
    exact .of_never ((neverFails_setValue _ _).bind fun _ => neverFails_new _)

theorem failsAfter_remove (container first : Ref) (last : Option Ref) :
    FailsAfter eval e₀ [] (Library.remove container first last) e := by
  unfold Library.remove Library.checkArgument
  refine .looks_bind (.checkUnlocked _ _) fun _ _ => ?_
  refine .looks_bind (.value _) fun v _ => ?_
  split
  · refine .looks_bind (.text _) fun key _ => ?_
    split
    · exact failsAfter_raise _
    · refine .looks_bind (.checkUnlocked _ _) fun _ _ => ?_
      exact .of_never ((neverFails_setValue _ _).bind fun _ => .pure _)
  · exact failsAfter_removeFromList _ _ _ _
  · exact failsAfter_removeFromBlob _ _ _ _
  · exact failsAfter_raise _

theorem failsAfter_reverse (r : Ref) : FailsAfter eval e₀ [] (Library.reverse r) e := by
  unfold Library.reverse Library.checkArgument
  refine .looks_bind (.value _) fun v _ => ?_
  split
  · refine .looks_bind (.checkUnlocked _ _) fun _ _ => ?_
    exact .of_never ((neverFails_setValue _ _).bind fun _ => .pure _)
  · refine .looks_bind (.checkUnlocked _ _) fun _ _ => ?_
    exact .of_never ((neverFails_setValue _ _).bind fun _ => .pure _)
  · exact .of_never (neverFails_new _)
  · exact .of_never (neverFails_new _)

/-! ## Entries of Dictionaries -/

theorem neverFails_extendEntries {clash : Library.Clash} (hclash : clash ≠ .error) (target : Ref)
    (added : List (String × Ref)) : NeverFails (Library.extendEntries target clash added) := by
  induction added with
  | nil => exact .pure ()
  | cons entry rest ih =>
    have hentry (key : String) : NeverFails ( entry? target key) := by
      refine (NeverFails.value _).bind fun v => ?_
      split
      · exact .pure _
      · exact .pure _
    have hset (key : String) (r : Ref) : NeverFails (setEntry target key r) := by
      refine (NeverFails.value _).bind fun v => ?_
      split
      · exact neverFails_setValue _ _
      · exact .pure _
    unfold Library.extendEntries
    refine (hentry _).bind fun found => ?_
    split
    · exact ih
    · exact absurd rfl hclash
    · exact (neverFails_stored _).bind fun s => (hset _ _).bind fun _ => ih

theorem extendEntries_of_clash {target v : Ref} {own : Table Ref} {key : String}
    (hown : e.heap.value target = .dictionary own) (hclash : own.contains key = true)
    (rest : List (String × Ref)) :
    Library.extendEntries target .error ((key, v) :: rest) e =
      .error (.ofCause (.existingKey key)) e := by
  have hentry : entry? target key e = .ok (own.find? key) e := by
    unfold entry?
    rw [bind_of_ok (value_of_eq hown)]
    rfl
  obtain ⟨item, hitem⟩ := Option.isSome_iff_exists.1 hclash
  rw [Library.extendEntries, bind_of_ok hentry, hitem]
  rfl

/-- Entries that must not clash are put in one after the other, up to the first one that does. -/
theorem extendEntries_error {target : Ref} {own : Table Ref} {list : List (String × Ref)}
    (hnodup : (list.map (·.1)).Nodup) (hown : e.heap.value target = .dictionary own) :
    (∃ e', Library.extendEntries target .error list e = .ok () e') ∧
        (∀ entry ∈ list, own.contains entry.1 = false) ∨
      ∃ before key v after own' e', list = before ++ (key, v) :: after ∧
        own.contains key = true ∧ (∀ entry ∈ before, own.contains entry.1 = false) ∧
        Library.extendEntries target .error list e = .error (.ofCause (.existingKey key)) e' ∧
        e'.heap.value target = .dictionary own' ∧ own'.keys = own.keys ++ before.map (·.1) ∧
        (before = [] → e' = e) := by
  induction list generalizing e own with
  | nil =>
    left
    refine ⟨⟨e, rfl⟩, ?_⟩
    intro entry hin
    cases hin
  | cons entry rest ih =>
    obtain ⟨key, v⟩ := entry
    obtain ⟨hout, hrest⟩ := List.nodup_cons.1 hnodup
    cases hclash : own.contains key with
    | true =>
      right
      exact ⟨[], key, v, rest, own, e, rfl, hclash, nofun, extendEntries_of_clash hown hclash rest,
        hown, (List.append_nil _).symm, fun _ => rfl⟩
    | false =>
      have hin : target.index < (e.heap.stored v).2.size :=
        Nat.lt_of_lt_of_le (e.heap.lt_size_of_not_isScalar target (hown ▸ rfl))
          (Heap.Extends.stored e.heap v).size
      have hnext : (e.withHeap ((e.heap.stored v).2.setValue target
          (.dictionary (own.insert key (e.heap.stored v).1)))).heap.value target =
            .dictionary (own.insert key (e.heap.stored v).1) :=
        (e.heap.stored v).2.value_setValue_self _ hin
      -- the keys of the other entries are in the Dictionary now if they were before
      have hsame (entry : String × Ref) (hentry : entry ∈ rest) :
          (own.insert key (e.heap.stored v).1).contains entry.1 = own.contains entry.1 := by
        have hne : entry.1 ≠ key := by
          intro heq
          apply hout
          rw [← heq]
          exact List.mem_map.2 ⟨entry, hentry, rfl⟩
        rw [Table.contains_insert, decide_eq_false hne, Bool.or_false]
      have hstep : Library.extendEntries target .error ((key, v) :: rest) e = _ :=
        extendEntries_cons hown (.inr (Table.contains_eq_false_iff.1 hclash)) v rest
      rcases ih hrest hnext with ⟨⟨e', hrun⟩, hall⟩ |
        ⟨before, other, w, after, own', e', rfl, hother, hbefore, hrun, hown', hkeys, -⟩
      · left
        refine ⟨⟨e', hstep.trans hrun⟩, ?_⟩
        intro entry hentry
        rcases List.mem_cons.1 hentry with rfl | hentry
        · exact hclash
        · rw [← hsame entry hentry]
          exact hall entry hentry
      · right
        have hmem : (other, w) ∈ before ++ (other, w) :: after := by simp
        refine ⟨(key, v) :: before, other, w, after, own', e', rfl, ?_, ?_, hstep.trans hrun, hown',
          ?_, nofun⟩
        · rw [← hsame _ hmem]
          exact hother
        · intro entry hentry
          rcases List.mem_cons.1 hentry with rfl | hentry
          · exact hclash
          · rw [← hsame entry (List.mem_append_left _ hentry)]
            exact hbefore entry hentry
        · rw [hkeys, Table.keys_insert_of_not_contains hclash, List.append_assoc]
          rfl

end Run

/-! ## Calls -/

namespace Engine

/-- The one Dictionary is to be extended by the other one without a clash, and a key that clashes
comes after one that is new. -/
def ClashesLate (e : Engine) (target source mode : Ref) : Prop :=
  ∃ own added new rest, e.heap.value target = .dictionary own ∧
    e.heap.value source = .dictionary added ∧ (e.heap.value mode).toText = .ok "error" ∧
    e.heap.isLocked target = false ∧ added.entries = new :: rest ∧
    own.contains new.1 = false ∧ ∃ entry ∈ rest, own.contains entry.1 = true

theorem OnlyAdds.leave {e e' : Engine} {name : String}
    (h : (e.enter (.native name)).OnlyAdds e') : e.OnlyAdds (e.leave e') := by
  refine ⟨h.heap, ?_⟩
  rw [h.rest]
  rfl

end Engine

namespace Run

open Engine

variable {eval : Expr → Run Ref} {host : Host} {i : Interp} {c : Context} {b : Builtin}
  {receiver : Option Ref} {target source : Ref} {e₀ e e' : Engine}

theorem failsAfter_extendDictionary {own : Table Ref}
    (hown : e.heap.value target = .dictionary own) (added : Table Ref) (mode : String)
    (hlate : mode = "error" → ∀ new rest, added.entries = new :: rest →
      own.contains new.1 = false → ∀ entry ∈ rest, own.contains entry.1 = false) :
    FailsAfter eval e₀ [] (match Library.clashOf? mode with
      | none => raise (.invalidArgument mode)
      | some clash => do
        Library.extendEntries target clash added.entries
        return target : Run Ref) e := by
  cases hclash : Library.clashOf? mode with
  | none => exact failsAfter_raise _
  | some clash =>
    by_cases herror : clash = .error
    · subst herror
      have hmode : mode = "error" := by
        unfold Library.clashOf? at hclash
        split at hclash
        · cases hclash
        · cases hclash
        · rfl
        · cases hclash
      apply FailsAfter.of_unchanged
      intro err e' hrun _
      rcases of_bind_error hrun with hrun | ⟨_, _, _, hdone⟩
      · rcases extendEntries_error added.nodup hown with ⟨⟨e₁, hok⟩, -⟩ |
          ⟨before, key, v, after, own', e₁, hentries, hkey, hbefore, hfailed, -, -, hfirst⟩
        · cases hok.symm.trans hrun
        · obtain rfl := (Result.error.inj (hfailed.symm.trans hrun)).2
          cases before with
          | nil =>
            rw [hfirst rfl]
            exact .refl e
          | cons new others =>
            have hnone := hlate hmode new _ hentries (hbefore new List.mem_cons_self) (key, v)
              (by simp)
            rw [hkey] at hnone
            cases hnone
      · cases hdone
    · exact .of_never ((neverFails_extendEntries herror _ _).bind fun _ => .pure _)

theorem failsAfter_extend {third : Option Ref}
    (hlate : ∀ mode, third = some mode → ¬e.ClashesLate target source mode) :
    FailsAfter eval e₀ [] (Library.extend target source third) e := by
  have hlist (items added : List Ref) (at' : Nat) : FailsAfter eval e₀ [] (do
      setValue target (.list (Library.insertAt items at' (← storedAll added)))
      return target : Run Ref) e := by
    refine .of_never ((NeverFails.storedAll _).bind fun copies => ?_)
    exact (neverFails_setValue _ _).bind fun _ => .pure _
  unfold Library.extend Library.checkArgument
  refine .looks_bind (.checkUnlocked _ _) fun _ hchecked => ?_
  have hfree : e.heap.isLocked target = false := by
    cases hlocked : e.heap.isLocked target with
    | false => rfl
    | true =>
      rw [checkUnlocked_of_locked hlocked] at hchecked
      cases hchecked
  refine .looks_bind (.value _) fun v hv => ?_
  refine .looks_bind (.value _) fun w hw => ?_
  obtain rfl := (Result.ok.inj hv).1
  obtain rfl := (Result.ok.inj hw).1
  split
  · split
    · refine .looks_bind (.number _) fun n _ => ?_
      refine .looks_bind (looks_listPosition _ _ _) fun p _ => ?_
      exact hlist _ _ _
    · exact hlist _ _ _
  · rename_i own added hown hadded
    split
    · rename_i mode
      refine .looks_bind (.text _) fun text htext => ?_
      apply failsAfter_extendDictionary hown
      rintro rfl new rest hentries hnew entry hentry
      by_contra hclash
      have htext' : (e.heap.value mode).toText = .ok "error" := by
        obtain ⟨_, _, hvalue, hsettled⟩ := of_bind_ok htext
        cases hvalue
        exact (of_settle_ok hsettled).1
      exact hlate mode rfl ⟨own, added, new, rest, hown, hadded, htext', hfree, hentries, hnew,
        entry, hentry, by simpa using hclash⟩
    · exact failsAfter_extendDictionary hown added "force" fun hmode => absurd hmode (by decide)
  · exact failsAfter_raise _

theorem looks_checkCount (name : String) (arity : Arity) (count : Nat) :
    Looks (Library.checkCount name arity count) := by
  have hmany : Looks (if arity.most.any (· < count) then raise (.tooManyArguments name)
      else pure () : Run Unit) := by
    split
    · exact .raise _
    · exact .pure ()
  unfold Library.checkCount
  by_cases hfew : count < arity.least
  · rw [if_pos hfew]
    exact (Looks.raise _).bind fun _ => hmany
  · rw [if_neg hfew]
    exact hmany

/-- A call that fails has not begun, or the function has failed. -/
theorem of_callHandler_error {arguments : List Ref} {stop : Stop}
    (h : callHandler host i c (.builtin b) arguments receiver e = .error stop e') :
    e' = e ∨ Library.checkCount b.name b.arity arguments.length e = .ok () e ∧ ∃ e₁,
      Library.runBuiltin ⟨host, c, i.call c⟩ b arguments (e.enter (.native b.name)) =
        .error stop e₁ ∧ e' = e.leave e₁ := by
  have hlooks := looks_checkCount b.name b.arity arguments.length e
  rcases of_bind_error h with hcount | ⟨_, e₁, hcount, hrun⟩
  · left
    exact hlooks _ e' (ends_error_iff.2 hcount)
  · right
    obtain rfl := hlooks _ e₁ (ends_ok_iff.2 hcount)
    refine ⟨hcount, ?_⟩
    change afterwards _ e₁.leave (e₁.enter (.native b.name)) = _ at hrun
    unfold afterwards at hrun
    split at hrun
    · cases hrun
    · rename_i stop' e₂ hfailed
      cases hrun
      exact ⟨e₂, hfailed, rfl⟩

/-- The functions that change their first argument in place, given what they need. -/
theorem failsAfter_runBuiltin {env : NativeEnv} {first : Ref} {more : List Ref}
    (hb : b ∈ [Builtin.add, .insert, .remove, .extend, .reverse]) (hmore : more.length ≤ 2)
    (hlate : b = .extend → ∀ source mode, more = [source, mode] → ¬e.ClashesLate first source mode) :
    FailsAfter eval e₀ [] (Library.runBuiltin env b (first :: more)) e := by
  have hwrong : FailsAfter eval e₀ [] (internal .wrongCount : Run Ref) e := .of_never (.internal _)
  simp only [List.mem_cons, List.not_mem_nil, or_false] at hb
  rcases hb with rfl | rfl | rfl | rfl | rfl
  · match more with
    | [item] => exact failsAfter_add first item
    | [] => exact hwrong
    | _ :: _ :: _ => exact hwrong
  · match more with
    | item :: more => exact failsAfter_insert first item _
    | [] => exact hwrong
  · match more with
    | position :: more => exact failsAfter_remove first position _
    | [] => exact hwrong
  · match more, hmore with
    | [source], _ =>
      have hplain : FailsAfter eval e₀ [] (Library.extend first source none) e := by
        apply failsAfter_extend
        intro mode hmode
        cases hmode
      exact hplain
    | [source, mode], _ =>
      have hmoded : FailsAfter eval e₀ [] (Library.extend first source (some mode)) e := by
        apply failsAfter_extend
        intro mode' hmode
        obtain rfl := Option.some.inj hmode
        exact hlate rfl source mode rfl
      exact hmoded
    | [], _ => exact hwrong
    | _ :: _ :: _ :: _, hmore => exact absurd hmore (by simp)
  · match more with
    | [] => exact failsAfter_reverse first
    | _ :: _ => exact hwrong

theorem length_le_of_checkCount {b : Builtin} {first : Ref} {more : List Ref}
    (hb : b ∈ [Builtin.add, .insert, .remove, .extend, .reverse])
    (hcount : Library.checkCount b.name b.arity (first :: more).length e = .ok () e) :
    more.length ≤ 2 := by
  have harity : ∃ n, b.arity.most = some n ∧ n ≤ 3 ∧ b.arity.least ≤ 3 := by
    simp only [List.mem_cons, List.not_mem_nil, or_false] at hb
    rcases hb with rfl | rfl | rfl | rfl | rfl <;> exact ⟨_, rfl, by decide, by decide⟩
  obtain ⟨n, hmost, hn, hleast⟩ := harity
  by_contra hmany
  have hlength : (first :: more).length = more.length + 1 := rfl
  have hfew : ¬(first :: more).length < b.arity.least := by omega
  have htoo : n < (first :: more).length := by omega
  unfold Library.checkCount at hcount
  rw [if_neg hfew] at hcount
  simp only [hmost, Option.any_some, htoo, decide_true, if_true] at hcount
  cases hcount

/-- A call that is to extend a Dictionary without a clash, and finds one late, has put in what it
found before. -/
theorem exists_callHandler_clash {first source mode : Ref} (h : e.ClashesLate first source mode) :
    ∃ key e', callHandler host i c (.builtin .extend) [first, source, mode] receiver e =
        .error (.ofCause (.existingKey key)) e' ∧
      e'.heap.value first ≠ e.heap.value first := by
  obtain ⟨own, added, new, rest, hown, hadded, hmode, hfree, hentries, hnew, entry, hentry, hclash⟩ :=
    h
  have hown' : (e.enter (.native "extend")).heap.value first = .dictionary own := hown
  have hadded' : (e.enter (.native "extend")).heap.value source = .dictionary added := hadded
  rcases extendEntries_error added.nodup hown' with ⟨-, hnone⟩ |
    ⟨before, key, v, after, own', e₁, hsplit, hkey, hbefore, hrun, hvalue, hkeys, -⟩
  · have hmem : entry ∈ added.entries := by
      rw [hentries]
      exact List.mem_cons_of_mem _ hentry
    rw [hnone entry hmem] at hclash
    cases hclash
  · have hcheck : Library.checkArgument first "extend" (e.enter (.native "extend")) =
        .ok () (e.enter (.native "extend")) := checkUnlocked_of_free hfree
    have htext : text mode (e.enter (.native "extend")) =
        .ok "error" (e.enter (.native "extend")) := by
      change settle (e.heap.value mode).toText (e.enter (.native "extend")) = _
      rw [hmode]
      rfl
    have hextend : Library.extend first source (some mode) (e.enter (.native "extend")) =
        .error (.ofCause (.existingKey key)) e₁ := by
      unfold Library.extend
      rw [bind_of_ok hcheck, bind_of_ok (value_of_eq hown'), bind_of_ok (value_of_eq hadded')]
      exact (bind_of_ok htext).trans (bind_of_error hrun)
    have hcall : callHandler host i c (.builtin .extend) [first, source, mode] receiver e =
        .error (.ofCause (.existingKey key)) (e.leave e₁) := callHandler_of_error rfl hextend
    refine ⟨key, e.leave e₁, hcall, fun hsame => ?_⟩
    -- if the Dictionary were as before, the key that clashes would be the first one
    have htables : own' = own := by
      apply Value.dictionary.inj
      exact hvalue.symm.trans (hsame.trans hown)
    have hempty : before = [] := by
      rw [htables, List.self_eq_append_right, List.map_eq_nil_iff] at hkeys
      exact hkeys
    rw [hempty, List.nil_append, hentries] at hsplit
    obtain ⟨rfl, -⟩ := List.cons.inj hsplit
    rw [hkey] at hnew
    cases hnew

/-- A call of a function that changes its first argument, with any arguments. If it ends in an error
of the script, no container has changed, the first argument included; only a Dictionary that was to
be extended without a clash, and has a key that comes after a new one, is extended by then. Every
such call fails, and leaves the Dictionary changed. -/
theorem failed_change_keeps_containers {first : Ref} {more : List Ref}
    (hb : b ∈ [Builtin.add, .insert, .remove, .extend, .reverse]) :
    (∀ err e', callHandler host i c (.builtin b) (first :: more) receiver e =
        .error (.error err) e' →
      (b = .extend → ∀ source mode, more = [source, mode] → ¬e.ClashesLate first source mode) →
      e.OnlyAdds e' ∧ ∀ r, (e.heap.value r).isScalar = false → e'.heap.value r = e.heap.value r) ∧
    ∀ source mode, b = .extend → more = [source, mode] → e.ClashesLate first source mode →
      ∃ key e', callHandler host i c (.builtin b) (first :: more) receiver e =
          .error (.ofCause (.existingKey key)) e' ∧
        e'.heap.value first ≠ e.heap.value first := by
  constructor
  · intro err e' hcall hlate
    have hadds : e.OnlyAdds e' := by
      rcases of_callHandler_error hcall with rfl | ⟨hcount, e₁, hfailed, rfl⟩
      · exact .refl e'
      · have hfails : FailsAfter (i.eval c) (e.enter (.native b.name)) []
            (Library.runBuiltin ⟨host, c, i.call c⟩ b (first :: more))
            (e.enter (.native b.name)) :=
          failsAfter_runBuiltin hb (length_le_of_checkCount hb hcount) hlate
        exact (hfails.onlyAdds hfailed (OnlyAdds.refl _).unchanged).leave
    exact ⟨hadds, fun r hr => hadds.heap.value_eq hr⟩
  · rintro source mode rfl rfl hlate
    exact exists_callHandler_clash hlate

end Run

namespace Session

/-- A Dictionary with one key, and one with a new key before that one. -/
def holdingClash : Engine :=
  (blank .standard).withHeap
    ⟨#[.fresh (.dictionary ⟨[("a", ⟨1⟩)], by decide⟩), .fresh (.number 1),
      .fresh (.dictionary ⟨[("b", ⟨3⟩), ("a", ⟨1⟩)], by decide⟩), .fresh (.number 2),
      .fresh (.string "error")]⟩

theorem clashesLate_holdingClash : holdingClash.ClashesLate ⟨0⟩ ⟨2⟩ ⟨4⟩ := by
  refine ⟨⟨[("a", ⟨1⟩)], by decide⟩, ⟨[("b", ⟨3⟩), ("a", ⟨1⟩)], by decide⟩, ("b", ⟨3⟩), [("a", ⟨1⟩)],
    rfl, rfl, rfl, rfl, rfl, ?_, ("a", ⟨1⟩), List.mem_cons_self, ?_⟩
  · decide
  · decide

/-- A Dictionary takes no item, and is as it was; but a clash leaves a new key in it. -/
theorem failed_change_keeps_containers_clash :
    (∃ e', Run.callHandler ⟨[]⟩ .spent .commandLine (.builtin .add) [⟨0⟩, ⟨1⟩] none holdingClash =
        .error (.ofCause .addNeedsSequence) e' ∧
      e'.heap.value ⟨0⟩ = holdingClash.heap.value ⟨0⟩) ∧
    ∃ key e', Run.callHandler ⟨[]⟩ .spent .commandLine (.builtin .extend) [⟨0⟩, ⟨2⟩, ⟨4⟩] none
        holdingClash = .error (.ofCause (.existingKey key)) e' ∧
      e'.heap.value ⟨0⟩ ≠ holdingClash.heap.value ⟨0⟩ := by
  have hadd := @Run.failed_change_keeps_containers ⟨[]⟩ .spent .commandLine .add none holdingClash ⟨0⟩
    [⟨1⟩] (by decide)
  have hextend := @Run.failed_change_keeps_containers ⟨[]⟩ .spent .commandLine .extend none
    holdingClash ⟨0⟩ [⟨2⟩, ⟨4⟩] (by decide)
  have hrefused : Run.callHandler ⟨[]⟩ .spent .commandLine (.builtin .add) [⟨0⟩, ⟨1⟩] none
      holdingClash = .error (.ofCause .addNeedsSequence) holdingClash := rfl
  constructor
  · obtain ⟨-, hkept⟩ := hadd.1 _ _ hrefused nofun
    exact ⟨holdingClash, hrefused, hkept ⟨0⟩ rfl⟩
  · exact hextend.2 ⟨2⟩ ⟨4⟩ rfl rfl clashesLate_holdingClash

/-- A failed change may have changed its argument. -/
theorem not_forall_failed_change : ¬∀ (host : Host) (i : Interp) (c : Context) (b : Builtin)
    (first : Ref) (more : List Ref) (receiver : Option Ref) (e : Engine) (err : ScriptError)
    (e' : Engine), b ∈ [Builtin.add, .insert, .remove, .extend, .reverse] →
      (e.heap.value first).isScalar = false →
      Run.callHandler host i c (.builtin b) (first :: more) receiver e = .error (.error err) e' →
      e'.heap.value first = e.heap.value first := by
  intro hkeeps
  obtain ⟨key, e', hcall, hchanged⟩ := @Run.exists_callHandler_clash ⟨[]⟩ .spent .commandLine none
    holdingClash ⟨0⟩ ⟨2⟩ ⟨4⟩ clashesLate_holdingClash
  exact hchanged (hkeeps _ _ _ .extend ⟨0⟩ [⟨2⟩, ⟨4⟩] none holdingClash _ e' (by decide) rfl hcall)

end Session

end VimL
