import VimL.Library.Numbers
import VimL.Library.Storage
import VimL.Library.Texts
import VimL.Proofs.Runs.Targets

/-!
# Runs of native functions

The functions that call nothing back.
-/

namespace VimL

/-- If it is called to write a register, the name is that of one. -/
def Handler.Letters (e : Engine) (arguments : List Ref) (h : Handler) : Prop :=
  h = .builtin .setreg → ∀ r ∈ arguments.head?, ∀ name, (e.heap.value r).toText = .ok name →
    isRegisterName (Text.lower (Library.registerName name)) = true

/-- If it is called to extend a Dictionary that is not locked, and to replace entries, then those
that are locked are only replaced by themselves. -/
def Handler.Spares (e : Engine) (arguments : List Ref) (h : Handler) : Prop :=
  h = .builtin .extend → ∀ target source mode, arguments = target :: source :: mode.toList →
    e.heap.isLocked target = false →
    (∀ r, mode = some r → (e.heap.value r).toText = .ok "force") →
    ∀ entries added key item v, e.heap.value target = .dictionary entries →
      e.heap.value source = .dictionary added → entries.find? key = some item →
      e.heap.isLocked item = true → added.find? key = some v →
      v = item ∧ (e.heap.value v).isScalar = false

/-- What is asked of a call of the handler. -/
structure Handler.Meets (d : Demands) (e : Engine) (arguments : List Ref) (h : Handler) : Prop where
  letters : d.lettered → h.Letters e arguments
  spares : d.sparing → h.Spares e arguments

namespace Handler.Meets

variable {e : Engine} {arguments : List Ref} {h : Handler}

theorem of_none {d : Demands} (hlettered : ¬d.lettered) (hsparing : ¬d.sparing) :
    h.Meets d e arguments := ⟨(absurd · hlettered), (absurd · hsparing)⟩

/-- What is asked in a call was asked of it. -/
theorem opens {host : Host} {D D' : Discipline host} {entry : CallEntry}
    (hmeets : h.Meets D.toDemands e arguments) (hopens : D.Opens D' entry) :
    h.Meets D'.toDemands (e.enter entry) arguments := by
  have hheap : (e.enter entry).heap = e.heap := by cases entry <;> rfl
  constructor
  case letters =>
    intro hlettered hsetreg r hr name hname
    rw [hheap] at hname
    exact hmeets.letters (hopens.lettered hlettered) hsetreg r hr name hname
  case spares =>
    intro hsparing
    unfold Handler.Spares
    rw [hheap]
    exact hmeets.spares (hopens.sparing hsparing)

end Handler.Meets

namespace Library

open Run

variable {host : Host} {D : Discipline host}

/-! ## Containers -/

instance (r : Ref) (function : String) : Reads D (checkArgument r function) := by
  unfold checkArgument
  infer_instance

theorem allows_listPosition (e : Engine) (n : Int) (size : Nat) (allowEnd : Bool) :
    Allows D e (listPosition n size allowEnd)
      fun i e' => e' = e ∧ i < size + if allowEnd then 1 else 0 := by
  unfold listPosition
  by_cases hin : 0 ≤ fromEnd size n ∧ fromEnd size n < size + (if allowEnd then 1 else 0)
  · rw [if_pos hin]
    refine .pure ⟨rfl, ?_⟩
    cases allowEnd <;> simp only [Bool.false_eq_true, if_false, if_true] at hin ⊢ <;> omega
  · rw [if_neg hin]
    exact .raise

instance (n : Int) (size : Nat) (allowEnd : Bool) : Keeps D (listPosition n size allowEnd) :=
  .of_allows fun e => (allows_listPosition e n size allowEnd).mono fun _ _ _ _ => trivial

instance (n : Int) (size : Nat) (allowEnd : Bool) : Reads D (listPosition n size allowEnd) :=
  ⟨fun e => (allows_listPosition e n size allowEnd).mono fun _ _ _ h => h.1⟩

instance (r : Ref) : Keeps D (len r) := by
  unfold len
  refine .bind fun v => ?_
  cases v <;> infer_instance

instance (r : Ref) : Keeps D (empty r) := by
  unfold empty
  refine .bind fun v => ?_
  cases v <;> infer_instance

instance (container key : Ref) (fallback : Option Ref) :
    Keeps D (Library.get container key fallback) := by
  have hmissing : Keeps D (match fallback with
      | some r => pure r
      | none => newInt 0) := by cases fallback <;> infer_instance
  unfold Library.get
  refine .bind fun v => ?_
  cases v with
  | list items =>
    refine .bind fun n => ?_
    cases (position? items.length n).bind (items[·]?) <;> infer_instance
  | dictionary entries =>
    refine .bind fun k => ?_
    cases entries.find? k <;> infer_instance
  | blob bytes =>
    refine .bind fun n => ?_
    cases (position? bytes.length n).bind (bytes[·]?) <;> infer_instance
  | funcref f =>
    refine .bind fun k => ?_
    split <;> infer_instance
  | _ => infer_instance

instance (r : Ref) : Keeps D (entriesOf r) := by
  unfold entriesOf
  refine .bind fun v => ?_
  cases v <;> infer_instance

instance (dictionary key : Ref) : Keeps D (hasKey dictionary key) := by
  unfold hasKey
  infer_instance

instance (texts : List String) : Gathers D (newTexts texts) := by
  induction texts with
  | nil => unfold newTexts; infer_instance
  | cons s rest ih => unfold newTexts; infer_instance

instance (dictionary : Ref) : Keeps D (keys dictionary) := by unfold keys; infer_instance

instance (dictionary : Ref) : Keeps D (values dictionary) := by unfold values; infer_instance

/-- The value of an entry is handed on to the List that it makes with its key. -/
instance (entries : List (String × Ref)) : Gathers D (newItems entries) := by
  induction entries with
  | nil => unfold newItems; infer_instance
  | cons entry rest ih =>
    obtain ⟨key, v⟩ := entry
    refine ⟨fun e => ?_⟩
    unfold newItems
    refine Since.gather_bind fun k e₁ _ hk => (since_handOn [v]).bind fun _ e₂ _ hhanded => ?_
    have hpair (hlinear : D.linear) : e.Affords e₂ [k, v] := by
      refine (hhanded.2.2 _ (hk hlinear)).mono fun s => Nat.le_of_eq ?_
      exact List.Perm.count_eq (List.Perm.swap v k []) s
    refine (Since.newList hpair).bind fun r e₃ _ hr => ?_
    refine (Since.of_allows (ih.allows e₃)).bind fun rs e₄ _ hrs => .pure fun hlinear => ?_
    exact (hr hlinear).trans (hrs hlinear)

instance (dictionary : Ref) : Keeps D (items dictionary) := by unfold items; infer_instance

instance (r : Ref) : Keeps D (copy r) := by
  unfold copy
  refine .bind fun v => ?_
  cases v with
  | dictionary entries =>
    have hcopies : Gathers D (do
        let copies ← storedAll entries.values
        new (.dictionary (entries.withValues copies))) :=
      gathers_new (fun _ => nofun) fun copies => entries.count_values_withValues copies
    infer_instance
  | _ => infer_instance

instance (r : Ref) : Keeps D (deepcopy r) := keeps_modifyGet fun _ he => leads_deepCopy he r

instance (items : List Ref) (count : Nat) : Gathers D (repeatItems items count) := by
  induction count with
  | zero => unfold repeatItems; infer_instance
  | succ count ih => unfold repeatItems; infer_instance

instance (r count : Ref) : Keeps D (repeated r count) := by
  unfold repeated
  refine .bind fun n => .bind fun v => ?_
  cases v <;> infer_instance

/-! ### Changes -/

theorem checkArgument_bind {β : Type} {e e' : Engine} {goal : β → Engine → Prop} {r : Ref}
    {function : String} {f : Unit → Run β}
    (h : e'.heap.isLocked r = false → Since D e e' (f ()) goal) :
    Since D e e' (checkArgument r function >>= f) goal :=
  Since.checkUnlocked_bind h

instance (container item : Ref) : Keeps D (add container item) := by
  refine ⟨fun e => ?_⟩
  unfold add
  refine checkArgument_bind fun hlocked => .value_bind ?_
  cases hv : e.heap.value container with
  | list items => exact (since_extendList hlocked _).bind fun _ _ _ _ => .pure trivial
  | blob bytes =>
    refine .keeps_bind fun n e₁ _ => ?_
    exact (Since.setBlob (.of_checked hlocked hv)).bind fun _ _ _ _ => .pure trivial
  | _ => exact .raise

theorem count_insertAt (items : List Ref) (i : Nat) (added : List Ref) (s : Ref) :
    (insertAt items i added).count s = items.count s + added.count s := by
  unfold insertAt
  conv_rhs => rw [← List.take_append_drop i items]
  simp only [List.count_append]
  omega

instance (container item : Ref) (position : Option Ref) :
    Keeps D (insert container item position) := by
  refine ⟨fun e => ?_⟩
  unfold insert
  refine checkArgument_bind fun hlocked => ?_
  have hinsert (e' : Engine) (n : Int) : Since D e e' (do
      match ← value container with
      | .list items =>
        let i ← listPosition n items.length true
        setValue container (.list (insertAt items i [← stored item]))
        return container
      | .blob bytes =>
        let i ← listPosition n bytes.length true
        setValue container (.blob (insertAt bytes i [lowByte (← number item)]))
        return container
      | _ => raise .insertNeedsSequence) fun _ _ => True := by
    refine .value_bind ?_
    cases hv : e'.heap.value container with
    | list items =>
      refine .reads_bind fun i => ?_
      refine .adds_bind (.stored item) (by rw [hv]; rfl) fun new e₁ hnew hvalue => ?_
      refine (Since.setValue (.of_written hlocked (hvalue.trans hv)) hnew fun s => ?_).bind
        fun _ _ _ _ => .pure trivial
      rw [hvalue, hv]
      exact Nat.le_of_eq (count_insertAt items i [new] s)
    | blob bytes =>
      refine .reads_bind fun i => .reads_bind fun _ => ?_
      exact (Since.setBlob (.of_written hlocked hv)).bind fun _ _ _ _ => .pure trivial
    | _ => exact .raise
  cases position with
  | none => exact .pure_bind (hinsert e 0)
  | some r => exact .keeps_bind fun n e₁ _ => hinsert e₁ n

instance (start : Nat) (last : Ref) (size : Nat) : Reads D (lastPosition start last size) := by
  unfold lastPosition
  infer_instance

section Remove

variable {e e' : Engine} {container : Ref}

theorem since_removeFromList (hlocked : e.heap.isLocked container = false) {items : List Ref}
    (hitems : e'.heap.value container = .list items) (first : Ref) (last : Option Ref) :
    Since D e e' (removeFromList container items first last) fun _ _ => True := by
  unfold removeFromList
  refine .reads_bind fun n => ?_
  refine (Since.of_allows (allows_listPosition e' n items.length false)).bind
    fun start e₂ _ hposition => ?_
  obtain ⟨rfl, hstart⟩ := hposition
  cases last with
  | none =>
    have hin : start < items.length := by simpa using hstart
    simp only [List.getElem?_eq_getElem hin]
    refine (Since.setValue_within (.of_written hlocked hitems) fun s => ?_).bind
      fun _ _ _ _ => .pure trivial
    rw [hitems]
    exact (List.eraseIdx_sublist items start).count_le s
  | some last =>
    -- the items lose their places, which makes room for them in the new List
    refine .of_holds fun _ hleads => .reads_bind fun stop => ?_
    have hcut (s : Ref) := count_cutAt items start (stop + 1) s
    dsimp only [cutAt] at hcut ⊢
    have hnone (hlinear : D.linear) : e.Affords e₂ [] := D.affords hleads hlinear
    refine (Since.write (.of_written hlocked hitems) hnone fun s => ?_).bind fun _ e₃ _ he₃ => ?_
    · rw [hitems]
      simp only [Value.parts, List.count_append, List.count_nil]
      have := hcut s
      omega
    · subst he₃
      refine (Since.newList fun hlinear => ?_).mono fun _ _ _ _ => trivial
      refine (hnone hlinear).setValue rfl fun s => ?_
      rw [hitems]
      simp only [Value.parts, List.count_append, List.count_nil]
      have := hcut s
      omega

theorem since_removeFromBlob (hlocked : e.heap.isLocked container = false) {bytes : List UInt8}
    (hbytes : e.heap.value container = .blob bytes) (first : Ref) (last : Option Ref) :
    Since D e e' (removeFromBlob container bytes first last) fun _ _ => True := by
  unfold removeFromBlob
  refine .keeps_bind fun n e₁ _ => (Since.of_allows (allows_listPosition e₁ n bytes.length
    false)).bind fun start e₂ _ ⟨_, hstart⟩ => ?_
  cases last with
  | none =>
    have hin : start < bytes.length := by simpa using hstart
    simp only [List.getElem?_eq_getElem hin]
    exact (Since.setBlob (.of_checked hlocked hbytes)).bind fun _ _ _ _ => .keeps
  | some last =>
    refine .reads_bind fun stop => ?_
    exact (Since.setBlob (.of_checked hlocked hbytes)).bind fun _ _ _ _ => .keeps

end Remove

instance (container first : Ref) (last : Option Ref) : Keeps D (remove container first last) := by
  refine ⟨fun e => ?_⟩
  unfold remove
  refine checkArgument_bind fun hlocked => .value_bind ?_
  cases hv : e.heap.value container with
  | dictionary entries =>
    refine .reads_bind fun key => ?_
    cases hkey : entries.find? key with
    | none => exact .raise
    | some r =>
      refine checkArgument_bind fun hfree => ?_
      refine (Since.setValue_within (.erase hlocked hv hkey hfree) fun s => ?_).bind
        fun _ _ _ _ => .pure trivial
      rw [hv]
      exact entries.count_values_erase key s
  | list items => exact since_removeFromList hlocked hv first last
  | blob bytes => exact since_removeFromBlob hlocked hv first last
  | _ => exact .raise

/-- What is no scalar is stored itself. -/
theorem eq_of_stored {e e' : Engine} {r s : Ref} (hr : (e.heap.value r).isScalar = false)
    (h : stored r e = .ok s e') : s = r := by
  have hrun : stored r e = .ok (e.heap.stored r).1 (e.withHeap (e.heap.stored r).2) := rfl
  have hsame : (e.heap.stored r).1 = r := by
    unfold Heap.stored
    dsimp only
    rw [if_neg (by simp [hr])]
  rw [hrun] at h
  cases h
  exact hsame

/-- A new key replaces no entry, and what is stored for another one is the object itself if it is
no scalar. -/
theorem since_extendEntries {e e' : Engine} {dictionary : Ref} {clash : Clash}
    {entries : List (String × Ref)} (hlocked : e.heap.isLocked dictionary = false)
    (hspares : D.sparing → clash = .force → ∀ own key item v,
      e.heap.value dictionary = .dictionary own → own.find? key = some item →
      e.heap.isLocked item = true → (key, v) ∈ entries →
      v = item ∧ (e.heap.value v).isScalar = false)
    (hothers : ∀ v, (e.heap.value v).isScalar = false → (e'.heap.value v).isScalar = false) :
    Since D e e' (extendEntries dictionary clash entries) fun _ _ => True := by
  induction entries generalizing e' with
  | nil => exact .pure trivial
  | cons entry rest ih =>
    obtain ⟨key, v⟩ := entry
    have hrest {e' : Engine}
        (hothers : ∀ v, (e.heap.value v).isScalar = false → (e'.heap.value v).isScalar = false) :
        Since D e e' (extendEntries dictionary clash rest) fun _ _ => True :=
      ih (fun hsparing hforce own key item v hown hkey hitem hin =>
        hspares hsparing hforce own key item v hown hkey hitem (List.mem_cons_of_mem _ hin)) hothers
    have hset {found : Option Ref} (hfound : found.isSome = true → clash = .force)
        (hseen : ∀ own, e'.heap.value dictionary = .dictionary own → own.find? key = found) :
        Since D e e' (do
          setEntry dictionary key (← stored v)
          extendEntries dictionary clash rest) fun _ _ => True := by
      refine .extends_bind (.stored v) fun s e₁ hstored hextends hs => ?_
      have hothers₁ (v : Ref) (hv : (e.heap.value v).isScalar = false) :
          (e₁.heap.value v).isScalar = false := hextends.value_eq (hothers v hv) ▸ hothers v hv
      refine (since_setEntry (fun now hnow => ?_) hs).bind fun _ e₂ _ hothers₂ =>
        hrest fun v hv => hothers₂ v (hothers₁ v hv)
      refine .insert hlocked hnow fun hsparing own item hown hkey hitem hstill => ?_
      have hbefore : e'.heap.value dictionary = .dictionary now := by
        rw [← hextends.value_eq (hothers dictionary (by rw [hown]; rfl)), hnow]
      have hforce : clash = .force := by
        apply hfound
        rw [← hseen now hbefore, hstill]
        rfl
      obtain ⟨rfl, hscalar⟩ :=
        hspares hsparing hforce own key item v hown hkey hitem List.mem_cons_self
      exact eq_of_stored (hothers v hscalar) hstored
    -- what is there already is kept, or ends the run, or gives way where that is forced
    refine .entry?_bind fun found hseen _ => ?_
    split
    · exact hrest hothers
    · exact .raise
    · rename_i hkeep herror
      refine hset (fun hsome => ?_) hseen
      obtain ⟨r, rfl⟩ := Option.isSome_iff_exists.1 hsome
      cases clash with
      | force => rfl
      | keep => exact absurd rfl (hkeep r rfl)
      | error => exact absurd rfl (herror r rfl)

theorem eq_force_of_clashOf? {text : String} (h : clashOf? text = some .force) :
    text = "force" := by
  unfold clashOf? at h
  split at h
  · rfl
  · cases h
  · cases h
  · cases h

theorem allows_extend {e : Engine} {target source : Ref} {third : Option Ref}
    (hspares : D.sparing → e.heap.isLocked target = false →
      (∀ r, third = some r → (e.heap.value r).toText = .ok "force") →
      ∀ entries added key item v, e.heap.value target = .dictionary entries →
        e.heap.value source = .dictionary added → entries.find? key = some item →
        e.heap.isLocked item = true → added.find? key = some v →
        v = item ∧ (e.heap.value v).isScalar = false) :
    Allows D e (extend target source third) fun _ _ => True := by
  unfold extend
  refine checkArgument_bind fun hlocked => .value_bind (.value_bind ?_)
  have hlist {items : List Ref} (hitems : e.heap.value target = .list items) (added : List Ref)
      (i : Nat) : Since D e e (do
        setValue target (.list (insertAt items i (← storedAll added)))
        return target) fun _ _ => True := by
    refine .adds_bind (.storedAll added) (by rw [hitems]; rfl) fun copies e₁ hcopies hvalue => ?_
    refine (Since.setValue (.of_written hlocked (hvalue.trans hitems)) hcopies fun s => ?_).bind
      fun _ _ _ _ => .pure trivial
    rw [hvalue, hitems]
    exact Nat.le_of_eq (count_insertAt items i copies s)
  have hdictionary {added : Table Ref} (hadded : e.heap.value source = .dictionary added)
      {clash : Clash}
      (hforced : clash = .force → ∀ r, third = some r → (e.heap.value r).toText = .ok "force") :
      Since D e e (do
        extendEntries target clash added.entries
        return target) fun _ _ => True := by
    refine (since_extendEntries hlocked ?_ fun _ => id).bind fun _ _ _ _ => .pure trivial
    intro hsparing hforce own key item v hown hkey hitem hin
    exact hspares hsparing hlocked (hforced hforce) own added key item v hown hadded hkey hitem
      (Table.find?_eq_some_iff.2 hin)
  split
  · rename_i items added hitems _
    cases third with
    | none => exact .pure_bind (hlist hitems added _)
    | some r => exact .reads_bind fun n => .reads_bind fun i => hlist hitems added i
  · rename_i hadded
    cases third with
    | none =>
      refine .pure_bind (hdictionary hadded fun _ r hr => ?_)
      cases hr
    | some r =>
      dsimp only
      unfold text
      rw [bind_assoc]
      refine .value_bind (.settle_bind fun mode hmode => ?_)
      split
      · exact .raise
      · rename_i hclash
        refine hdictionary hadded fun hforce r hr => ?_
        obtain rfl := Option.some.inj hr
        subst hforce
        rw [hmode, eq_force_of_clashOf? hclash]
  · exact .raise

instance (r : Ref) : Keeps D (reverse r) := by
  refine ⟨fun e => ?_⟩
  unfold reverse
  refine .value_bind ?_
  cases hv : e.heap.value r with
  | list items =>
    refine checkArgument_bind fun hlocked => ?_
    refine (Since.setValue_within (.of_checked hlocked hv) fun s => ?_).bind
      fun _ _ _ _ => .pure trivial
    rw [hv]
    exact Nat.le_of_eq List.count_reverse
  | blob bytes =>
    refine checkArgument_bind fun hlocked => ?_
    exact (Since.setBlob (.of_checked hlocked hv)).bind fun _ _ _ _ => .pure trivial
  | _ => exact .keeps

/-! ## Numbers -/

instance (r : Ref) : Keeps D (float2nr r) := by unfold float2nr; infer_instance

instance (r : Ref) : Keeps D (abs r) := by
  unfold abs
  refine .bind fun v => ?_
  cases v <;> infer_instance

instance (rs : List Ref) : Keeps D (numbersIn rs) := by
  induction rs with
  | nil => unfold numbersIn; infer_instance
  | cons r rest ih => unfold numbersIn; infer_instance

instance (r : Ref) : Keeps D (numbersOf r) := by
  unfold numbersOf
  refine .bind fun v => ?_
  cases v <;> infer_instance

instance (r : Ref) : Keeps D (greatest r) := by unfold greatest; infer_instance

instance (r : Ref) : Keeps D (least r) := by unfold least; infer_instance

instance (first stride : Int) (count : Nat) : Gathers D (newInts first stride count) := by
  induction count generalizing first with
  | zero => unfold newInts; infer_instance
  | succ count ih => unfold newInts; infer_instance

instance (start : Ref) (last stride : Option Ref) : Keeps D (range start last stride) := by
  unfold range
  cases stride <;> cases last <;> infer_instance

/-! ## Searches -/

instance (r : Option Ref) : Keeps D (flag r) := by
  unfold flag
  cases r <;> infer_instance

instance (container wanted : Ref) (ignoreCase start : Option Ref) :
    Keeps D (count container wanted ignoreCase start) := by
  unfold count
  refine .bind fun ignoreCase => ?_
  dsimp only
  refine .bind fun v => ?_
  cases v with
  | list items => cases start <;> infer_instance
  | _ => infer_instance

instance (bytes : List UInt8) (byte start : Int) :
    Keeps D (indexInBlob bytes byte start) := by
  unfold indexInBlob
  dsimp only
  split
  · refine keeps_internal nofun fun _ => .inr (.beforeBlob ?_)
    omega
  · infer_instance

instance (container wanted : Ref) (start ignoreCase : Option Ref) :
    Keeps D (indexOf container wanted start ignoreCase) := by
  unfold indexOf
  refine .bind fun ignoreCase => .bind fun v => ?_
  cases v with
  | list items => cases start <;> infer_instance
  | blob bytes =>
    refine .bind fun byte => ?_
    cases start <;> infer_instance
  | _ => infer_instance

/-! ## Texts -/

instance (r : Ref) : Keeps D (string r) := by unfold string; infer_instance

instance (r : Ref) : Keeps D (Library.type r) := by unfold Library.type; infer_instance

instance (list : Ref) (separator : Option Ref) : Keeps D (join list separator) := by
  unfold join
  refine .bind fun v => ?_
  cases v with
  | list items => cases separator <;> infer_instance
  | _ => infer_instance

instance (separator : Option Ref) : Keeps D (separatorOf separator) := by
  unfold separatorOf
  cases separator with
  | none => infer_instance
  | some r =>
    refine .bind fun s => ?_
    cases h : Pattern.ofMagic false s with
    | ok p => infer_instance
    | error fault =>
      have : Keeps D (internal (.unreadableSeparator s) : Run Pattern) :=
        keeps_internal nofun fun _ => .inr (.unreadableSeparator h)
      infer_instance

instance (r : Ref) (separator keepEmpty : Option Ref) :
    Keeps D (split r separator keepEmpty) := by
  unfold split
  infer_instance

instance (r : Ref) : Keeps D (toupper r) := by unfold toupper; infer_instance

instance (r : Ref) : Keeps D (tolower r) := by unfold tolower; infer_instance

instance (r : Ref) (base : Option Ref) : Keeps D (str2nr r base) := by
  have htooMany : Keeps D (internal .tooManyDigits : Run Ref) :=
    keeps_internal nofun fun _ => .inl .tooManyDigits
  have hread (numeral : Numeral) : Keeps D (match numeral.read? with
      | some n => newInt n
      | none => internal .tooManyDigits) := by cases numeral.read? <;> infer_instance
  unfold str2nr
  cases base with
  | none | some b =>
    dsimp only
    refine .bind fun radix => ?_
    cases radix? radix with
    | none => infer_instance
    | some found => exact .bind fun _ => hread _

instance (negative : Bool) (chars : List Char) : Except.Admitted D (readFloat negative chars) := by
  have hletter :
      Except.Admitted D (.error (.internal .foreignLetter) : Except Stop (Option Float)) :=
    Except.admitted_internal nofun fun _ => .inr .foreignLetter
  unfold readFloat
  infer_instance

instance (r : Ref) : Keeps D (str2float r) := by
  unfold str2float
  refine .bind fun s => ?_
  dsimp only
  refine .bind fun x => ?_
  cases x <;> infer_instance

/-! ## Stored and exchanged texts -/

instance (r : Ref) : Keeps D (jsonEncode r) := by unfold jsonEncode; infer_instance

instance (r : Ref) : Keeps D (jsonDecode r) := by unfold jsonDecode; infer_instance

instance (r : Option Ref) : Keeps D (getreg r) := by
  unfold getreg
  cases r <;> infer_instance

instance (rs : List Ref) : Keeps D (textsOf rs) := by
  induction rs with
  | nil => unfold textsOf; infer_instance
  | cons r rest ih => unfold textsOf; infer_instance

instance (r : Ref) : Keeps D (linesOf r) := by
  unfold linesOf
  refine .bind fun v => ?_
  cases v <;> infer_instance

/-- Any text names a register here. -/
theorem allows_setreg {e : Engine} {r : Ref} (content : Ref)
    (hname : D.lettered → ∀ name, (e.heap.value r).toText = .ok name →
      isRegisterName (Text.lower (registerName name)) = true) :
    Allows D e (setreg r content) fun _ _ => True := by
  unfold setreg text
  rw [bind_assoc]
  refine .value_bind (.settle_bind fun name hok => ?_)
  have hset (text : String) : Keeps D (setRegister (Text.lower (registerName name)) text) :=
    keeps_setRegister (fun h => hname h name hok) text
  exact Since.keeps

instance (r : Ref) : Keeps D (getenv r) := by
  unfold getenv
  refine .bind fun name => .bind fun found => ?_
  cases found <;> infer_instance

instance (r content : Ref) : Keeps D (setenv r content) := by unfold setenv; infer_instance

end Library

end VimL
