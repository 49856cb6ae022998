import VimL.Proofs.Runs.Names
import VimL.Targets

/-!
# Runs on elements and targets

Operators, elements and ranges, assignment, removal and locks.
-/

namespace VimL

variable {host : Host} {D : Discipline host}

/-! ## Operators -/

namespace Value

instance (v : Value) : Except.Admitted D v.checkOrdered := by
  cases v <;> unfold checkOrdered <;> infer_instance

instance (op : Comparison) (ignoreCase : Bool) (x y : Value) :
    Except.Admitted D (ordered op ignoreCase x y) := by
  unfold ordered
  refine .bind fun _ => .bind fun _ => ?_
  split <;> infer_instance

end Value

instance (h : Heap) (ignoreCase : Bool) (a b : Ref) :
    Except.Admitted D (h.equalConverted ignoreCase a b) := by
  unfold Heap.equalConverted
  dsimp only
  iterate 4
    split
    · infer_instance
  split
  · cases hx : (h.value a).toFloat with
    | error stop => cases (h.value b).toFloat <;> exact .of_eq hx
    | ok p =>
      cases hy : (h.value b).toFloat with
      | error stop => exact .of_eq hy
      | ok q => infer_instance
  · split
    · cases hx : (h.value a).toNumber with
      | error stop => cases (h.value b).toNumber <;> exact .of_eq hx
      | ok m =>
        cases hy : (h.value b).toNumber with
        | error stop => exact .of_eq hy
        | ok n => infer_instance
    · infer_instance

namespace Run

variable (ignoreCase : Bool)

instance (text : String) : Keeps D (pattern ignoreCase text) := by
  unfold pattern
  cases h : Pattern.ofMagic ignoreCase text with
  | ok p => infer_instance
  | error fault =>
    cases fault with
    | malformed => infer_instance
    | boundTooLarge => exact keeps_internal nofun fun _ => .inr (.boundTooLarge h)

instance (wanted subject : String) : Keeps D (occurs ignoreCase wanted subject) := by
  unfold occurs
  infer_instance

instance (op : Arithmetic) (left right : Ref) : Keeps D (arithmetic op left right) := by
  unfold arithmetic
  refine .bind fun x => .bind fun y => ?_
  split <;> infer_instance

instance (left right : Ref) : Keeps D (concat left right) := by
  unfold concat
  infer_instance

instance (op : Comparison) (left right : Ref) :
    Keeps D (compare op ignoreCase left right) := by
  unfold compare
  cases op <;> infer_instance

instance (op : Comparison) (mark : Option Bool) : Keeps D (caseFor op mark) := by
  unfold caseFor
  cases mark <;> infer_instance

/-- Operators that evaluate both sides. -/
theorem keeps_binary {op : BinaryOperator} (left right : Ref)
    (hop : D.strict → ∀ text, op ≠ .unknown text) (hand : op ≠ .and) (hor : op ≠ .or) :
    Keeps D (binary op left right) := by
  unfold binary
  cases op with
  | and => exact absurd rfl hand
  | or => exact absurd rfl hor
  | unknown text => exact keeps_internal nofun fun hp => absurd rfl (hop hp text)
  | _ => infer_instance

theorem keeps_unary {op : UnaryOperator} (operand : Ref)
    (hop : D.strict → ∀ text, op ≠ .unknown text) :
    Keeps D (unary op operand) := by
  unfold unary
  cases op with
  | unknown text => exact keeps_internal nofun fun hp => absurd rfl (hop hp text)
  | not => infer_instance
  | _ =>
    refine .bind fun v => ?_
    cases v <;> infer_instance

/-! ## Elements and ranges -/

variable (e : Engine)

/-- A reference that is read points at a function that exists. -/
theorem allows_value (r : Ref) : Allows D e (value r)
    fun v e' => e' = e ∧ (D.strict → ∀ f, v = .funcref f → f.handler.Known host e') :=
  fun he hleads => ⟨hleads, rfl, fun hstrict f hf => (D.sound he hstrict).references r f hf⟩

instance (dictionary entry : Ref) : Keeps D (bindTo dictionary entry) := by
  refine ⟨fun e => ?_⟩
  unfold bindTo
  refine (allows_value e entry).bind fun v e' _ ⟨_, hv⟩ => ?_
  cases v with
  | funcref f =>
    refine .get_bind ?_
    split
    · exact allows_newSharing_funcref fun hp => hv hp f rfl
    · exact .pure trivial
  | _ => exact .pure trivial

instance (container key : Ref) : Keeps D (element container key) := by
  unfold element
  refine .bind fun v => ?_
  cases v with
  | list items =>
    refine .bind fun n => ?_
    cases (position? items.length n).bind (items[·]?) <;> infer_instance
  | dictionary entries =>
    refine .bind fun k => ?_
    cases entries.find? k <;> infer_instance
  | blob bytes =>
    refine .bind fun n => ?_
    cases (position? bytes.length n).bind (bytes[·]?) <;> infer_instance
  | _ => infer_instance

instance (container : Ref) : Keeps D (sliceableSize container) := by
  unfold sliceableSize
  refine .bind fun v => ?_
  cases v <;> infer_instance

instance (container : Ref) (size : Nat) (first last : Int) :
    Keeps D (newRange container size first last) := by
  unfold newRange
  refine .bind fun v => ?_
  cases v <;> infer_instance

/-! ## Checks -/

namespace Since

variable {β : Type} {e e' : Engine} {goal : β → Engine → Prop}

theorem index_bind {r : Ref} {f : Int → Run β} (h : ∀ n, Since D e e' (f n) goal) :
    Since D e e' (index r >>= f) goal := by
  unfold index
  rw [bind_assoc]
  exact .value_bind (.settle_bind fun n _ => h n)

theorem checkUnlocked_bind {r : Ref} {name : String} {f : Unit → Run β}
    (h : e'.heap.isLocked r = false → Since D e e' (f ()) goal) :
    Since D e e' (checkUnlocked r name >>= f) goal := by
  unfold checkUnlocked isLocked
  rw [bind_assoc]
  refine .get_bind ?_
  split
  · exact .raise_bind
  · rename_i hlocked
    exact .pure_bind (h (by simpa using hlocked))

theorem entry?_bind {dictionary : Ref} {key : String} {f : Option Ref → Run β}
    (h : ∀ found,
      (∀ entries, e'.heap.value dictionary = .dictionary entries → entries.find? key = found) →
      (∀ r, found = some r → ∃ entries,
        e'.heap.value dictionary = .dictionary entries ∧ entries.find? key = some r) →
      Since D e e' (f found) goal) :
    Since D e e' ( entry? dictionary key >>= f) goal := by
  unfold entry?
  rw [bind_assoc]
  refine .value_bind ?_
  cases hv : e'.heap.value dictionary with
  | dictionary entries =>
    refine .pure_bind (h _ (fun seen hseen => ?_) fun r hr => ⟨entries, hv, hr⟩)
    rw [Value.dictionary.inj (hv.symm.trans hseen)]
  | _ => exact .pure_bind (h none (fun _ hseen => nomatch hv.symm.trans hseen) nofun)

end Since

instance (r : Ref) (name : String) : Keeps D (checkUnlocked r name) := by
  unfold checkUnlocked
  infer_instance

instance (r : Ref) (name : String) : Reads D (checkUnlocked r name) := by
  unfold checkUnlocked isLocked
  infer_instance

instance (items : List Ref) (name : String) : Reads D (checkAllUnlocked items name) := by
  unfold checkAllUnlocked
  infer_instance

/-- The three pieces make up the whole. -/
theorem count_cutAt (items : List Ref) (start : Nat) (stop : Int) (s : Ref) :
    (cutAt items start stop).1.count s + ((cutAt items start stop).2.1.count s +
      (cutAt items start stop).2.2.count s) = items.count s := by
  simp only [cutAt, ← List.count_append]
  generalize (fromEnd items.length stop).toNat = n
  have hdrop : items.drop (max start n) = (items.drop start).drop (max start n - start) := by
    rw [List.drop_drop, Nat.add_sub_cancel' (Nat.le_max_left start n)]
  rw [hdrop, List.take_append_drop, List.take_append_drop]

/-! ## Writes after a check -/

section Writes

variable {e e' : Engine}

theorem since_extendList {list : Ref} (h : e.heap.isLocked list = false) (added : List Ref) :
    Since D e e' (extendList list added) fun _ _ => True := by
  unfold extendList
  refine .gather_bind fun copies e₁ _ hcopies => .value_bind ?_
  cases hv : e₁.heap.value list with
  | list items =>
    refine .setValue (.of_written h hv) hcopies fun s => ?_
    rw [hv]
    exact Nat.le_of_eq List.count_append
  | _ => exact .pure trivial

theorem since_setEntry {dictionary r : Ref} {key : String}
    (h : ∀ entries, e'.heap.value dictionary = .dictionary entries →
      e.Permits D.toDemands e' dictionary (.dictionary (entries.insert key r)))
    (hr : D.linear → e.Affords e' [r]) :
    Since D e e' (setEntry dictionary key r) fun _ e'' =>
      ∀ v, (e'.heap.value v).isScalar = false → (e''.heap.value v).isScalar = false := by
  unfold setEntry
  refine .value_bind ?_
  cases hv : e'.heap.value dictionary with
  | dictionary entries =>
    refine (Since.write (h entries hv) hr fun s => ?_).mono fun _ e'' _ he'' v hscalar => ?_
    · rw [hv]
      exact entries.count_values_insert key r s
    · subst he''
      change ((e'.heap.setValue dictionary _).value v).isScalar = false
      rcases e'.heap.value_setValue dictionary v _ with hnew | hold
      · rw [hnew]
        rfl
      · rwa [hold]
  | _ => exact .pure fun _ => id

theorem since_setItem {list r : Ref} {i : Nat}
    (h : ∀ e'' items, e''.heap.value list = .list items →
      e.Permits D.toDemands e'' list (.list (items.set i r)))
    (hr : D.linear → e.Affords e' [r]) :
    Since D e e' (setItem list i r) fun _ _ => True := by
  have hgone : Keeps D (internal .itemGone : Run Unit) :=
    keeps_internal nofun fun _ => .inr .itemGone
  unfold setItem
  refine .value_bind ?_
  cases hv : e'.heap.value list with
  | list items =>
    dsimp only
    split
    · rename_i hi
      refine .setValue (h e' items hv) hr fun s => ?_
      rw [hv]
      exact List.count_set_le hi r s
    · exact .keeps
  | _ => exact .keeps

end Writes

/-! ## Assignment -/

instance (op : AssignOperator) (current : Option Ref) (right : Ref) (name : String) :
    Keeps D (combine op current right name) := by
  unfold combine
  split
  · infer_instance
  · infer_instance
  · infer_instance
  · refine ⟨fun e => .value_bind (.value_bind ?_)⟩
    split
    · refine .checkUnlocked_bind fun h => ?_
      exact (since_extendList h _).bind fun _ _ _ _ => .pure trivial
    · rename_i hbytes _
      refine .checkUnlocked_bind fun h => ?_
      exact (Since.setBlob (.of_checked h hbytes)).bind fun _ _ _ _ => .pure trivial
    · exact .keeps

instance (dictionary r : Ref) : Keeps D (boundOnStore dictionary r) := by
  refine ⟨fun e => ?_⟩
  unfold boundOnStore
  refine (allows_value e r).bind fun v e' _ ⟨_, hv⟩ => ?_
  cases v with
  | funcref f =>
    refine .get_bind ?_
    split
    · exact allows_newSharing_funcref fun hstrict => hv hstrict f rfl
    · exact .pure trivial
  | _ => exact .pure trivial

instance (dictionary : Ref) (key : String) : Keeps D ( entry? dictionary key) := by
  unfold entry?
  refine .bind fun v => ?_
  cases v <;> infer_instance

instance (r : Ref) : Keeps D (bytes r) := by
  have hgone : Keeps D (internal .byteGone : Run (List UInt8)) :=
    keeps_internal nofun fun _ => .inr .byteGone
  unfold bytes
  refine .bind fun v => ?_
  cases v <;> infer_instance

instance (blob : Ref) (i : Nat) : Keeps D (byteAt blob i) := by
  have hgone : Keeps D (internal .byteGone : Run UInt8) :=
    keeps_internal nofun fun _ => .inr .byteGone
  unfold byteAt
  refine .bind fun found => ?_
  cases found[i]? <;> infer_instance

section Assign

variable {eval : Expr → Run Ref} (c : Context) (op : AssignOperator)

instance [D.Runs c] (v : Variable) (e : Expr) [Keeps D (eval e)] :
    Keeps D (assignVariable eval c v op e) := by
  unfold assignVariable
  infer_instance

/-- The right side may change the Dictionary; what is checked is the entry that it leaves. -/
instance (dictionary key : Ref) (e : Expr) [Keeps D (eval e)] :
    Keeps D (assignEntry eval dictionary key op e) := by
  refine ⟨fun e₀ => ?_⟩
  unfold assignEntry
  refine Allows.keeps_bind fun k e₁ _ => Allows.keeps_bind fun known e₂ _ => ?_
  dsimp only
  split
  · exact .raise_bind
  · refine Allows.keeps_bind fun right e₃ _ => Since.entry?_bind fun found hseen hfound => ?_
    have hstore (h : ∀ r e' entries, e'.heap.value dictionary = .dictionary entries →
        e₃.Permits D.toDemands e' dictionary (.dictionary (entries.insert k r))) (e' : Engine)
        (r : Ref) :
        Since D e₃ e' (do
          let bound ← boundOnStore dictionary r
          setEntry dictionary k (← stored bound)) fun _ _ => True :=
      .keeps_bind fun _ _ _ => .gather_bind fun _ _ _ hr =>
        (since_setEntry (h _ _) hr).mono fun _ _ _ _ => trivial
    cases found with
    | none =>
      refine .checkUnlocked_bind fun hlocked => .pure_bind ?_
      refine hstore (fun r _ _ h => .insert_of_free hlocked h (fun entries item hv hitem => ?_) r)
        e₃ right
      rw [hseen entries hv] at hitem
      cases hitem
    | some current =>
      obtain ⟨entries, hentries, hkey⟩ := hfound current rfl
      refine .checkUnlocked_bind fun hlocked => .keeps_bind fun combined e₄ _ => ?_
      exact hstore (fun _ _ _ h => .entry hentries hkey hlocked h rfl) e₄ combined

theorem allows_assignItem {list : Ref} {items : List Ref} {e₀ : Engine}
    (hitems : e₀.heap.value list = .list items) (key : Ref) (e : Expr) [Keeps D (eval e)] :
    Allows D e₀ (assignItem eval list items key op e) fun _ _ => True := by
  unfold assignItem
  refine .index_bind fun n => ?_
  cases position? items.length n with
  | none => exact .raise
  | some i =>
    dsimp only
    cases hi : items[i]? with
    | none => exact .raise
    | some current =>
      refine .checkUnlocked_bind fun hlocked => ?_
      refine .keeps_bind fun right e₁ _ => .keeps_bind fun combined e₂ _ => ?_
      refine .gather_bind fun r e₃ _ hr => since_setItem (fun _ _ h => ?_) hr
      exact .item hitems hi hlocked h rfl

theorem allows_assignByte {blob : Ref} {bytes : List UInt8} {e₀ : Engine}
    (hbytes : e₀.heap.value blob = .blob bytes) (size : Nat) (key : Ref) (e : Expr)
    [Keeps D (eval e)] : Allows D e₀ (assignByte eval blob size key op e) fun _ _ => True := by
  unfold assignByte
  refine .index_bind fun n => ?_
  cases position? size n with
  | none => exact .raise
  | some i =>
    refine .checkUnlocked_bind fun hlocked => ?_
    refine .keeps_bind fun right e₁ _ => .keeps_bind fun b e₂ _ => ?_
    refine .keeps_bind fun current e₃ _ => ?_
    refine .keeps_bind fun combined e₄ _ => .keeps_bind fun byte e₅ _ => ?_
    dsimp only
    split
    · exact .raise_bind
    · exact .keeps_bind fun _ _ _ => .setBlob (.of_checked hlocked hbytes)

instance (container key e : Expr) [Keeps D (eval container)] [Keeps D (eval key)]
    [Keeps D (eval e)] : Keeps D (assignElement eval container key op e) := by
  refine ⟨fun e₀ => ?_⟩
  unfold assignElement
  refine Allows.keeps_bind fun target e₁ _ => Allows.keeps_bind fun k e₂ _ => .value_bind ?_
  cases hv : e₂.heap.value target with
  | list items => exact allows_assignItem op hv k e
  | dictionary => exact .keeps
  | blob bytes => exact allows_assignByte op hv _ k e
  | _ => exact .raise

instance (r : Ref) : Keeps D (rangeTargetSize r) := by
  unfold rangeTargetSize
  refine .bind fun v => ?_
  cases v <;> infer_instance

theorem keeps_bound {e : Option Expr} (he : ∀ x ∈ e, Keeps D (eval x)) (default : Int) :
    Keeps D (bound eval e default) := by
  unfold bound
  cases e with
  | none => infer_instance
  | some e =>
    have := he e rfl
    infer_instance

instance (available : Nat) (count : Int) (isOpen : Bool) (few many : Cause) [few.Regular]
    [many.Regular] : Reads D (checkCount available count isOpen few many) := by
  unfold checkCount
  infer_instance

theorem since_replaceRange {e e' : Engine} {target : Ref} (h : e.heap.isLocked target = false)
    (source : Ref) (size : Nat) (first last : Int) (isOpen : Bool) :
    Since D e e' (replaceRange target source size first last isOpen) fun _ _ => True := by
  unfold replaceRange
  refine .value_bind (.value_bind ?_)
  split
  · rename_i items added hitems _
    refine .reads_bind fun _ => .reads_bind fun _ => ?_
    refine .adds_bind (.storedAll added) (by rw [hitems]; rfl) fun copies e₁ hcopies hvalue => ?_
    have hcopies : D.linear → e.Affords e₁ copies := hcopies
    refine .setValue (.of_written h (hvalue.trans hitems)) hcopies fun s => ?_
    have hcut := count_cutAt items (fromEnd size first).toNat
      (if isOpen then (size : Int) else fromEnd size last + 1) s
    rw [hvalue, hitems]
    simp only [Value.parts, cutAt, List.count_append] at hcut ⊢
    omega
  · rename_i hbytes _
    exact .reads_bind fun _ => .setBlob (.of_written h hbytes)
  · exact .raise

theorem keeps_assignRange {container e : Expr} {first last : Option Expr}
    [Keeps D (eval container)] [Keeps D (eval e)]
    (hfirst : ∀ x ∈ first, Keeps D (eval x)) (hlast : ∀ x ∈ last, Keeps D (eval x)) :
    Keeps D (assignRange eval container first last op e) := by
  have hfirst := keeps_bound hfirst
  have hlast := keeps_bound hlast
  refine ⟨fun e₀ => ?_⟩
  unfold assignRange
  refine Allows.keeps_bind fun target e₁ _ => Allows.keeps_bind fun size e₂ _ => ?_
  dsimp only
  split
  · exact .raise_bind
  refine Allows.keeps_bind fun a e₃ _ => Allows.keeps_bind fun b e₄ _ => ?_
  split
  · exact .raise_bind
  split
  · exact .raise_bind
  refine .checkUnlocked_bind fun hlocked => .keeps_bind fun source e₅ _ => ?_
  exact since_replaceRange hlocked source size a b last.isNone

instance (scope : Option Scope) (name : String) (e : Expr) [Keeps D (eval e)] :
    Keeps D (assignOption eval scope name op e) := by
  unfold assignOption
  infer_instance

theorem toNat_lt_of_isAlphanum {c : Char} (h : (c == '"' || c.isAlphanum) = true) :
    c.toNat < 128 := by
  have hle : c.val ≤ 'z'.val := by
    rcases Bool.or_eq_true_iff.1 h with h | h
    · rw [eq_of_beq h]
      decide
    · have hkinds : ((c.isUpper || c.isLower) || c.isDigit) = true := h
      rcases Bool.or_eq_true_iff.1 hkinds with hletter | hdigit
      · rcases Bool.or_eq_true_iff.1 hletter with hcapital | hsmall
        · exact UInt32.le_trans (of_decide_eq_true hcapital).2 (by decide)
        · exact of_decide_eq_true (Bool.and_eq_true_iff.1 hsmall).2
      · exact UInt32.le_trans (of_decide_eq_true (Bool.and_eq_true_iff.1 hdigit).2) (by decide)
  exact Nat.lt_of_le_of_lt (UInt32.le_iff_toNat_le.1 hle) (by decide)

/-- What is so below 128 is so of the quote and of all letters and digits. -/
theorem of_forall_ascii {P : Char → Prop} (h : ∀ n < 128, P (Char.ofNat n)) {c : Char}
    (hc : (c == '"' || c.isAlphanum) = true) : P c := by
  have hP := h c.toNat (toNat_lt_of_isAlphanum hc)
  rwa [Char.ofNat_toNat] at hP

/-- Capital letters are folded before a register is written. -/
theorem isRegisterName_lower {name : String} (hname : isWritableRegister name = true) :
    isRegisterName (Text.lower name) = true := by
  unfold isWritableRegister at hname
  split at hname
  · rename_i c hc
    have hboth := of_forall_ascii (P := fun c => (c == '"' || c.isAlphanum) = true →
      Text.lowerFrom [] [c] = [Text.lowerLetter c] ∧
        isRegisterName (String.ofList [Text.lowerLetter c]) = true) (by decide) hname hname
    rw [Text.lower, hc, hboth.1]
    exact hboth.2
  · cases hname

instance (name : String) (e : Expr) [Keeps D (eval e)] :
    Keeps D (assignRegister eval name op e) := by
  unfold assignRegister
  dsimp only
  split
  · infer_instance
  · rename_i hwritable
    have hset (text : String) : Keeps D (setRegister (Text.lower name) text) :=
      keeps_setRegister (fun _ => isRegisterName_lower (by simpa using hwritable)) text
    infer_instance

instance (name : String) (e : Expr) [Keeps D (eval e)] :
    Keeps D (assignEnvironment eval name op e) := by
  unfold assignEnvironment
  infer_instance

/-- Of a target, only its parts are evaluated. -/
theorem keeps_assign [D.Runs c] {target e : Expr}
    (htarget : ∀ x ∈ target.targetParts, Keeps D (eval x)) [Keeps D (eval e)] :
    Keeps D (assign eval c target op e) := by
  unfold assign
  cases target with
  | index container key =>
    have := htarget container (by simp [Expr.targetParts])
    have := htarget key (by simp [Expr.targetParts])
    infer_instance
  | slice container first last =>
    have := htarget container (by simp [Expr.targetParts])
    refine keeps_assignRange op (fun x hx => htarget x ?_) fun x hx => htarget x ?_
    · simp [Expr.targetParts, Option.mem_def.1 hx]
    · simp [Expr.targetParts, Option.mem_def.1 hx]
  | _ => infer_instance

end Assign

/-! ## Removal -/

section Unlet

variable {eval : Expr → Run Ref} (c : Context) (force : Bool)

instance [D.Runs c] (v : Variable) : Keeps D (unletVariable c v force) := by
  refine ⟨fun e => ?_⟩
  unfold unletVariable
  refine (Keeps.allows e).outcome_bind (fun _ _ _ _ => .pure trivial) fun stop e' _ hstop => ?_
  cases stop with
  | error err =>
    dsimp only
    split
    · exact .pure trivial
    · exact .throw hstop
  | _ => exact .throw hstop

instance (container key : Expr) [Keeps D (eval container)] [Keeps D (eval key)] :
    Keeps D (removeElement eval container key force) := by
  refine ⟨fun e₀ => ?_⟩
  unfold removeElement
  refine Allows.keeps_bind fun target e₁ _ => Allows.keeps_bind fun k e₂ _ => .value_bind ?_
  cases hv : e₂.heap.value target with
  | dictionary entries =>
    refine .reads_bind fun name => ?_
    cases hname : entries.find? name with
    | none => exact .keeps
    | some r =>
      refine .checkUnlocked_bind fun hlocked => .checkUnlocked_bind fun hfree => ?_
      refine .setValue_within (.erase hlocked hv hname hfree) fun s => ?_
      rw [hv]
      exact entries.count_values_erase name s
  | list items =>
    refine .reads_bind fun n => ?_
    cases position? items.length n with
    | none => exact .raise
    | some i =>
      refine .checkUnlocked_bind fun hlocked => .reads_bind fun _ => ?_
      refine .setValue_within (.of_checked hlocked hv) fun s => ?_
      rw [hv]
      exact (List.eraseIdx_sublist items i).count_le s
  | blob bytes =>
    refine .reads_bind fun n => ?_
    cases position? bytes.length n with
    | none => exact .raise
    | some i => exact .checkUnlocked_bind fun hlocked => .setBlob (.of_checked hlocked hv)
  | _ => exact .raise

theorem keeps_removeRange {container : Expr} {first last : Option Expr}
    [Keeps D (eval container)] (hfirst : ∀ x ∈ first, Keeps D (eval x))
    (hlast : ∀ x ∈ last, Keeps D (eval x)) :
    Keeps D (removeRange eval container first last) := by
  have hfirst := keeps_bound hfirst
  have hlast := keeps_bound hlast
  refine ⟨fun e₀ => ?_⟩
  unfold removeRange
  refine Allows.keeps_bind fun target e₁ _ => Allows.keeps_bind fun size e₂ _ => ?_
  refine Allows.keeps_bind fun a e₃ _ => Allows.keeps_bind fun b e₄ _ => ?_
  dsimp only
  split
  · exact .raise_bind
  split
  · exact .raise_bind
  refine .checkUnlocked_bind fun hlocked => .value_bind ?_
  cases hv : e₄.heap.value target with
  | list items =>
    refine .reads_bind fun _ => .setValue_within (.of_checked hlocked hv) fun s => ?_
    have hcut := count_cutAt items (fromEnd size a).toNat (fromEnd size b + 1) s
    rw [hv]
    simp only [Value.parts, cutAt, List.count_append] at hcut ⊢
    omega
  | blob bytes => exact .setBlob (.of_checked hlocked hv)
  | _ => exact .pure trivial

theorem keeps_unlet [D.Runs c] {target : Expr}
    (htarget : ∀ x ∈ target.targetParts, Keeps D (eval x)) :
    Keeps D (unlet eval c force target) := by
  unfold unlet
  cases target with
  | index container key =>
    have := htarget container (by simp [Expr.targetParts])
    have := htarget key (by simp [Expr.targetParts])
    infer_instance
  | slice container first last =>
    have := htarget container (by simp [Expr.targetParts])
    refine keeps_removeRange (fun x hx => htarget x ?_) fun x hx => htarget x ?_
    · simp [Expr.targetParts, Option.mem_def.1 hx]
    · simp [Expr.targetParts, Option.mem_def.1 hx]
  | _ => infer_instance

/-! ## Locks -/

theorem bound_of_lockOwner? {e : Engine} {target : Expr} {r : Ref} {b : Binding}
    (h : lockOwner? e c target r = some b) : (e.tableAt b.place).find? b.name = some r := by
  cases target with
  | var v =>
    dsimp only [lockOwner?] at h
    unfold Engine.binding? at h
    split at h
    · split at h
      · obtain rfl := Option.some.inj h
        assumption
      · cases h
    · cases h
  | _ => cases h

instance (depth : Int) (target : Expr) [Keeps D (eval target)] :
    Keeps D (lock eval c depth target) := by
  have (r : Ref) : Keeps D (modify fun e =>
      { e with heap := e.heap.lock depth (lockOwner? e c target r) r } : Run Unit) :=
    keeps_modify fun e => .lock depth _ r fun b h => bound_of_lockOwner? c h
  unfold lock
  infer_instance

/-- Only a statement that has started may take locks away. -/
theorem allows_unlock {e : Engine} {s : Stmt} (hs : s.unlocks = true)
    (hbegan : .began c s ∈ e.history) (depth : Int) (target : Expr) [Keeps D (eval target)] :
    Allows D e (unlock eval depth target) fun _ _ => True := by
  unfold unlock
  refine Allows.keeps_bind fun r e₁ h => ?_
  have hstill : .began c s ∈ e₁.history := (D.grows h).history.subset hbegan
  exact .edit rfl (.unlock depth r hs hstill) trivial

end Unlet

end Run

end VimL
