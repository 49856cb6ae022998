import VimL.Proofs.FailedChanges
import VimL.Proofs.Methods

/-!
# Scalars in calls

A function that is handed a scalar reads its value, and whether it is locked, but not which object
it is: what is stored of it is a copy. So with another scalar of the same value a call does the
same. Only a scalar that is given back as it is may be the one or the other.
-/

namespace VimL

namespace Heap

/-- No call tells these objects apart: they are one, or two scalars of one value that are both
locked or both free. -/
inductive Matches (h : Heap) (r : Ref) : Ref → Prop where
  | same : h.Matches r r
  | scalar {s : Ref} (hr : r.index < h.size) (hs : s.index < h.size)
      (hscalar : (h.value r).isScalar = true) (hvalue : h.value s = h.value r)
      (hlocked : h.isLocked s = h.isLocked r) : h.Matches r s

namespace Matches

variable {h h' : Heap} {r s : Ref}

theorem value_eq (hrs : h.Matches r s) : h.value s = h.value r := by
  cases hrs with
  | same => rfl
  | scalar _ _ _ hvalue _ => exact hvalue

theorem isLocked_eq (hrs : h.Matches r s) : h.isLocked s = h.isLocked r := by
  cases hrs with
  | same => rfl
  | scalar _ _ _ _ hlocked => exact hlocked

theorem mono (hrs : h.Matches r s) (hh : h.Extends h') : h'.Matches r s := by
  cases hrs with
  | same => exact .same
  | scalar hr hs hscalar hvalue hlocked =>
    have hvalueOf (t : Ref) (ht : t.index < h.size) : h'.value t = h.value t :=
      congrArg Cell.value (hh.cell t ht)
    have hlockedOf (t : Ref) (ht : t.index < h.size) : h'.isLocked t = h.isLocked t :=
      congrArg Cell.locked (hh.cell t ht)
    refine .scalar (Nat.lt_of_lt_of_le hr hh.size) (Nat.lt_of_lt_of_le hs hh.size) ?_ ?_ ?_
    · rw [hvalueOf r hr]
      exact hscalar
    · rw [hvalueOf s hs, hvalueOf r hr, hvalue]
    · rw [hlockedOf s hs, hlockedOf r hr, hlocked]

/-- Anything that is not a scalar matches itself only. -/
theorem eq_of_not_isScalar (hrs : h.Matches r s) (hr : (h.value r).isScalar = false) : s = r := by
  cases hrs with
  | same => rfl
  | scalar _ _ hscalar => rw [hr] at hscalar; cases hscalar

theorem stored_eq (hrs : h.Matches r s) : h.stored s = h.stored r := by
  cases hrs with
  | same => rfl
  | scalar _ _ hscalar hvalue => simp only [stored, hvalue, hscalar, if_true]

/-- What is found out about a scalar by its value alone is found out about the other one. -/
theorem congr {β : Type} {f : Ref → β} (hrs : h.Matches r s)
    (hf : ∀ t u, h.value u = h.value t → (∃ n, h.value t = .number n) ∨
      (∃ x, h.value t = .float x) ∨ (∃ text, h.value t = .string text) → f u = f t) :
    f s = f r := by
  cases hrs with
  | same => rfl
  | scalar _ _ hscalar hvalue =>
    refine hf r s hvalue ?_
    cases hv : h.value r with
    | number n => exact .inl ⟨n, rfl⟩
    | float x => exact .inr (.inl ⟨x, rfl⟩)
    | string text => exact .inr (.inr ⟨text, rfl⟩)
    | _ => rw [hv] at hscalar; cases hscalar

theorem textAt_eq (hrs : h.Matches r s) (depth : Nat) :
    h.textAt depth [] s = h.textAt depth [] r := by
  refine hrs.congr fun t u hvalue hkind => ?_
  cases depth with
  | zero =>
    unfold textAt
    rw [hvalue]
  | succ depth =>
    unfold textAt
    rw [hvalue]
    rcases hkind with ⟨n, hv⟩ | ⟨x, hv⟩ | ⟨text, hv⟩ <;> rw [hv]

theorem toJson_eq (hrs : h.Matches r s) : h.toJson s = h.toJson r := by
  refine hrs.congr fun t u hvalue hkind => ?_
  unfold toJson toJsonFrom
  rw [hvalue]
  rcases hkind with ⟨n, hv⟩ | ⟨x, hv⟩ | ⟨text, hv⟩ <;> rw [hv]

theorem toHost_eq (hrs : h.Matches r s) : h.toHost s = h.toHost r := by
  refine hrs.congr fun t u hvalue hkind => ?_
  unfold toHost toHostFrom
  rw [hvalue]
  rcases hkind with ⟨n, hv⟩ | ⟨x, hv⟩ | ⟨text, hv⟩ <;> rw [hv]

theorem deepCopy_eq (hrs : h.Matches r s) : h.deepCopy s = h.deepCopy r := by
  refine hrs.congr fun t u hvalue hkind => ?_
  unfold deepCopy deepCopyFrom
  rw [hvalue]
  rcases hkind with ⟨n, hv⟩ | ⟨x, hv⟩ | ⟨text, hv⟩ <;> rw [hv]

theorem equal_eq (hrs : h.Matches r s) (ignoreCase : Bool) (a : Ref) :
    h.equal ignoreCase a s = h.equal ignoreCase a r := by
  refine hrs.congr fun t u hvalue hkind => ?_
  unfold equal equalFrom
  rw [hvalue]
  rcases hkind with ⟨n, hv⟩ | ⟨x, hv⟩ | ⟨text, hv⟩ <;> rw [hv] <;> cases h.value a <;> rfl

end Matches

end Heap

namespace Run

variable {α β : Type} {m m' : Run α} {e : Engine} {r s : Ref} {rs ss : List Ref}

/-! ## Readers -/

theorem bind_congr_of_ok {f g : α → Run β} (h : ∀ a e', m e = .ok a e' → f a e' = g a e') :
    (m >>= f) e = (m >>= g) e := by
  cases hm : m e with
  | ok a e' => rw [bind_of_ok hm, bind_of_ok hm, h a e' hm]
  | error stop e' => rw [bind_of_error hm, bind_of_error hm]

/-- Two runs that begin by looking at the same go on in the same engine. -/
theorem Looks.bind_congr (hm : Looks m) {f g : α → Run β} (hmm : m' e = m e)
    (h : ∀ a, g a e = f a e) : (m' >>= g) e = (m >>= f) e := by
  rw [bind_congr_at hmm]
  refine bind_congr_of_ok fun a e' hrun => ?_
  rw [hm e (.ok a) e' (ends_ok_iff.2 hrun)]
  exact h a

theorem bind_value_congr {f g : Value → Run β} (hrs : e.heap.Matches r s)
    (h : g (e.heap.value r) e = f (e.heap.value r) e) :
    (value s >>= g) e = (value r >>= f) e := by
  rw [bind_of_ok (value_of_eq hrs.value_eq), bind_of_ok (value_of_eq rfl), h]

section Readers

variable {o p : Option Ref}

theorem value_congr (hrs : e.heap.Matches r s) : value s e = value r e := by
  rw [value_of_eq hrs.value_eq, value_of_eq rfl]

theorem text_congr (hrs : e.heap.Matches r s) : text s e = text r e :=
  bind_congr_at (value_congr hrs) _

theorem number_congr (hrs : e.heap.Matches r s) : number s e = number r e :=
  bind_congr_at (value_congr hrs) _

theorem index_congr (hrs : e.heap.Matches r s) : index s e = index r e :=
  bind_congr_at (value_congr hrs) _

theorem bool_congr (hrs : e.heap.Matches r s) : bool s e = bool r e :=
  bind_congr_at (value_congr hrs) _

theorem checkUnlocked_congr (hrs : e.heap.Matches r s) (name : String) :
    checkUnlocked s name e = checkUnlocked r name e := by
  cases hlocked : e.heap.isLocked r with
  | true =>
    rw [checkUnlocked_of_locked hlocked, checkUnlocked_of_locked (hrs.isLocked_eq.trans hlocked)]
  | false =>
    rw [checkUnlocked_of_free hlocked, checkUnlocked_of_free (hrs.isLocked_eq.trans hlocked)]

theorem stored_congr (hrs : e.heap.Matches r s) : stored s e = stored r e := by
  have hrun (t : Ref) : stored t e = .ok (e.heap.stored t).1 (e.withHeap (e.heap.stored t).2) := rfl
  rw [hrun, hrun, hrs.stored_eq]

theorem stored_ok (r : Ref) (e : Engine) :
    stored r e = .ok (e.heap.stored r).1 (e.withHeap (e.heap.stored r).2) := rfl

theorem storedAll_congr (hrs : List.Forall₂ e.heap.Matches rs ss) :
    storedAll ss e = storedAll rs e := by
  -- Copies are made one after the other, so the objects match in the states between as well.
  suffices hgeneral : ∀ d : Engine, e.heap.Extends d.heap → storedAll ss d = storedAll rs d from
    hgeneral e (.refl e.heap)
  induction hrs with
  | nil => exact fun _ _ => rfl
  | @cons r s rs ss hfirst _ ih =>
    intro d hd
    have hnext : e.heap.Extends (d.heap.stored r).2 := hd.trans (.stored d.heap r)
    unfold storedAll
    rw [bind_congr_at (stored_congr (hfirst.mono hd)), bind_of_ok (stored_ok r d),
      bind_of_ok (stored_ok r d), bind_congr_at (ih (d.withHeap (d.heap.stored r).2) hnext)]

/-- An argument that may be left out, with what is done if it is. -/
theorem optional_congr {read : Ref → Run α} {m : Run α} {f g : α → Run β} (hm : Looks m)
    (hlooks : ∀ r, Looks (read r)) (hread : ∀ {r s}, e.heap.Matches r s → read s e = read r e)
    (h : ∀ a, g a e = f a e) : Option.Rel e.heap.Matches o p →
    (match p with
      | some r => read r >>= g
      | none => m >>= g) e =
    (match o with
      | some r => read r >>= f
      | none => m >>= f) e
  | .none => hm.bind_congr rfl h
  | .some hrs => (hlooks _).bind_congr (hread hrs) h

theorem flag_congr (hop : Option.Rel e.heap.Matches o p) : Library.flag p e = Library.flag o e := by
  cases hop with
  | none => rfl
  | some hrs => exact bool_congr hrs

end Readers

/-! ## Native functions -/

section Natives

variable {t u : Ref} {o p o' p' : Option Ref}

theorem looks_flag (o : Option Ref) : Looks (Library.flag o) := by
  cases o with
  | none => exact .pure false
  | some r => exact (Looks.value r).bind fun _ => .settle _

theorem copy_congr (hrs : e.heap.Matches r s) : Library.copy s e = Library.copy r e := by
  refine bind_value_congr hrs ?_
  cases e.heap.value r with
  | list | dictionary | blob => rfl
  | _ => exact stored_congr hrs

theorem deepcopy_congr (hrs : e.heap.Matches r s) :
    Library.deepcopy s e = Library.deepcopy r e := by
  have hrun (t : Ref) : Library.deepcopy t e =
      .ok (e.heap.deepCopy t).1 { e with heap := (e.heap.deepCopy t).2 } := rfl
  rw [hrun, hrun, hrs.deepCopy_eq]

theorem reverse_congr (hrs : e.heap.Matches r s) : Library.reverse s e = Library.reverse r e := by
  refine bind_value_congr hrs ?_
  cases hv : e.heap.value r with
  | list | blob => rw [hrs.eq_of_not_isScalar (by rw [hv]; rfl)]
  | _ => rfl

theorem string_congr (hrs : e.heap.Matches r s) : Library.string s e = Library.string r e := by
  unfold Library.string
  rw [bind_of_ok (get_eq e), bind_of_ok (get_eq e), hrs.textAt_eq]

theorem jsonEncode_congr (hrs : e.heap.Matches r s) :
    Library.jsonEncode s e = Library.jsonEncode r e := by
  refine bind_congr_at ?_ _
  unfold encodeJson
  rw [bind_of_ok (get_eq e), bind_of_ok (get_eq e), hrs.toJson_eq]

/-! ### Changes -/

theorem add_congr (hrs : e.heap.Matches r s) (htu : e.heap.Matches t u) :
    Library.add s u e = Library.add r t e := by
  refine (Looks.checkUnlocked r _).bind_congr (checkUnlocked_congr hrs _) fun _ =>
    bind_value_congr hrs ?_
  cases hv : e.heap.value r with
  | list items =>
    rw [hrs.eq_of_not_isScalar (by rw [hv]; rfl)]
    exact bind_congr_at (bind_congr_at (storedAll_congr (.cons htu .nil)) _) _
  | blob bytes =>
    rw [hrs.eq_of_not_isScalar (by rw [hv]; rfl)]
    exact bind_congr_at (number_congr htu) _
  | _ => rfl

theorem insert_congr (hrs : e.heap.Matches r s) (htu : e.heap.Matches t u)
    (hop : Option.Rel e.heap.Matches o p) : Library.insert s u p e = Library.insert r t o e := by
  refine (Looks.checkUnlocked r _).bind_congr (checkUnlocked_congr hrs _) fun _ => ?_
  refine optional_congr (.pure 0) .number number_congr (fun n => ?_) hop
  refine bind_value_congr hrs ?_
  cases hv : e.heap.value r with
  | list items =>
    rw [hrs.eq_of_not_isScalar (by rw [hv]; rfl)]
    exact (looks_listPosition _ _ _).bind_congr rfl fun _ => bind_congr_at (stored_congr htu) _
  | blob bytes =>
    rw [hrs.eq_of_not_isScalar (by rw [hv]; rfl)]
    exact (looks_listPosition _ _ _).bind_congr rfl fun _ => bind_congr_at (number_congr htu) _
  | _ => rfl

theorem lastPosition_congr (hrs : e.heap.Matches r s) (start size : Nat) :
    Library.lastPosition start s size e = Library.lastPosition start r size e :=
  bind_congr_at (number_congr hrs) _

theorem removeFromList_congr (list : Ref) (items : List Ref) (htu : e.heap.Matches t u)
    (hop : Option.Rel e.heap.Matches o p) :
    Library.removeFromList list items u p e = Library.removeFromList list items t o e := by
  refine (Looks.number t).bind_congr (number_congr htu) fun _ =>
    (looks_listPosition _ _ _).bind_congr rfl fun _ => ?_
  cases hop with
  | none => rfl
  | some hlast => exact bind_congr_at (lastPosition_congr hlast _ _) _

theorem removeFromBlob_congr (blob : Ref) (bytes : List UInt8) (htu : e.heap.Matches t u)
    (hop : Option.Rel e.heap.Matches o p) :
    Library.removeFromBlob blob bytes u p e = Library.removeFromBlob blob bytes t o e := by
  refine (Looks.number t).bind_congr (number_congr htu) fun _ =>
    (looks_listPosition _ _ _).bind_congr rfl fun _ => ?_
  cases hop with
  | none => rfl
  | some hlast => exact bind_congr_at (lastPosition_congr hlast _ _) _

theorem remove_congr (hrs : e.heap.Matches r s) (htu : e.heap.Matches t u)
    (hop : Option.Rel e.heap.Matches o p) : Library.remove s u p e = Library.remove r t o e := by
  refine (Looks.checkUnlocked r _).bind_congr (checkUnlocked_congr hrs _) fun _ =>
    bind_value_congr hrs ?_
  cases hv : e.heap.value r with
  | list items =>
    rw [hrs.eq_of_not_isScalar (by rw [hv]; rfl)]
    exact removeFromList_congr r items htu hop
  | blob bytes =>
    rw [hrs.eq_of_not_isScalar (by rw [hv]; rfl)]
    exact removeFromBlob_congr r bytes htu hop
  | dictionary entries =>
    rw [hrs.eq_of_not_isScalar (by rw [hv]; rfl)]
    exact bind_congr_at (text_congr htu) _
  | _ => rfl

theorem extend_congr (hrs : e.heap.Matches r s) (htu : e.heap.Matches t u)
    (hop : Option.Rel e.heap.Matches o p) : Library.extend s u p e = Library.extend r t o e := by
  refine (Looks.checkUnlocked r _).bind_congr (checkUnlocked_congr hrs _) fun _ =>
    bind_value_congr hrs (bind_value_congr htu ?_)
  cases hv : e.heap.value r with
  | list items =>
    rw [hrs.eq_of_not_isScalar (by rw [hv]; rfl)]
    cases e.heap.value t with
    | list added =>
      cases hop with
      | none => rfl
      | some hthird => exact bind_congr_at (number_congr hthird) _
    | _ => rfl
  | dictionary entries =>
    rw [hrs.eq_of_not_isScalar (by rw [hv]; rfl)]
    cases e.heap.value t with
    | dictionary added =>
      cases hop with
      | none => rfl
      | some hthird => exact bind_congr_at (text_congr hthird) _
    | _ => rfl
  | _ => cases e.heap.value t <;> rfl

/-! ### Reading containers -/

theorem looks_entriesOf (r : Ref) : Looks (Library.entriesOf r) := by
  refine (Looks.value r).bind fun v => ?_
  cases v with
  | dictionary entries => exact .pure entries
  | _ => exact .raise _

theorem hasKey_congr (hrs : e.heap.Matches r s) (htu : e.heap.Matches t u) :
    Library.hasKey s u e = Library.hasKey r t e :=
  (looks_entriesOf r).bind_congr (bind_congr_at (value_congr hrs) _) fun _ =>
    bind_congr_at (text_congr htu) _

theorem repeated_congr (hrs : e.heap.Matches r s) (htu : e.heap.Matches t u) :
    Library.repeated s u e = Library.repeated r t e :=
  (Looks.number t).bind_congr (number_congr htu) fun _ => bind_congr_at (value_congr hrs) _

theorem count_congr (hrs : e.heap.Matches r s) (htu : e.heap.Matches t u)
    (hop : Option.Rel e.heap.Matches o p) (hop' : Option.Rel e.heap.Matches o' p') :
    Library.count s u p p' e = Library.count r t o o' e := by
  have hequal (ignoreCase : Bool) (items : List Ref) :
      (do
        let heap := (← MonadState.get).heap
        newInt (items.filter fun r => heap.equal ignoreCase r u).length : Run Ref) e =
      (do
        let heap := (← MonadState.get).heap
        newInt (items.filter fun r => heap.equal ignoreCase r t).length : Run Ref) e := by
    rw [bind_of_ok (get_eq e), bind_of_ok (get_eq e)]
    simp only [htu.equal_eq]
  refine (looks_flag o).bind_congr (flag_congr hop) fun ignoreCase => bind_value_congr hrs ?_
  cases e.heap.value r with
  | string text => exact bind_congr_at (text_congr htu) _
  | list items =>
    cases hop' with
    | none => exact hequal ignoreCase items
    | some hstart =>
      exact (Looks.number _).bind_congr (number_congr hstart) fun _ =>
        (looks_listPosition _ _ _).bind_congr rfl fun _ => hequal ignoreCase _
  | dictionary entries => exact hequal ignoreCase entries.values
  | _ => rfl

theorem indexOf_congr (hrs : e.heap.Matches r s) (htu : e.heap.Matches t u)
    (hop : Option.Rel e.heap.Matches o p) (hop' : Option.Rel e.heap.Matches o' p') :
    Library.indexOf s u p p' e = Library.indexOf r t o o' e := by
  refine (looks_flag o').bind_congr (flag_congr hop') fun ignoreCase => bind_value_congr hrs ?_
  cases e.heap.value r with
  | list items =>
    refine optional_congr (.pure 0) .number number_congr (fun n => ?_) hop
    dsimp only
    rw [bind_of_ok (get_eq e), bind_of_ok (get_eq e)]
    simp only [htu.equal_eq]
  | blob bytes =>
    exact (Looks.number t).bind_congr (number_congr htu) fun _ =>
      optional_congr (.pure 0) .number number_congr (fun _ => rfl) hop
  | _ => rfl

/-! ### Numbers, texts and what is stored -/

theorem range_congr (hrs : e.heap.Matches r s) (hop : Option.Rel e.heap.Matches o p)
    (hop' : Option.Rel e.heap.Matches o' p') : Library.range s p p' e = Library.range r o o' e := by
  refine optional_congr (.pure 1) .number number_congr (fun step => ?_) hop'
  dsimp only
  cases hop with
  | none =>
    split
    · rfl
    · exact bind_congr_at (number_congr hrs) _
  | some hlast =>
    split
    · rfl
    · exact (Looks.number r).bind_congr (number_congr hrs) fun _ =>
        bind_congr_at (number_congr hlast) _

theorem join_congr (hrs : e.heap.Matches r s) (hop : Option.Rel e.heap.Matches o p) :
    Library.join s p e = Library.join r o e := by
  refine bind_value_congr hrs ?_
  cases e.heap.value r with
  | list items => exact optional_congr (.pure " ") .text text_congr (fun _ => rfl) hop
  | _ => rfl

theorem looks_separatorOf (o : Option Ref) : Looks (Library.separatorOf o) := by
  cases o with
  | none => exact .pure _
  | some r =>
    refine (Looks.text r).bind fun s => ?_
    split
    · exact .pure _
    · split
      · exact .pure _
      · exact .internal _

theorem split_congr (hrs : e.heap.Matches r s) (hop : Option.Rel e.heap.Matches o p)
    (hop' : Option.Rel e.heap.Matches o' p') : Library.split s p p' e = Library.split r o o' e := by
  have hseparator : Library.separatorOf p e = Library.separatorOf o e := by
    cases hop with
    | none => rfl
    | some hpattern => exact bind_congr_at (text_congr hpattern) _
  exact (Looks.text r).bind_congr (text_congr hrs) fun _ =>
    (looks_separatorOf o).bind_congr hseparator fun _ => bind_congr_at (flag_congr hop') _

theorem str2nr_congr (hrs : e.heap.Matches r s) (hop : Option.Rel e.heap.Matches o p) :
    Library.str2nr s p e = Library.str2nr r o e := by
  refine optional_congr (.pure 10) .number number_congr (fun radix => ?_) hop
  dsimp only
  cases Library.radix? radix with
  | none => rfl
  | some found => exact bind_congr_at (text_congr hrs) _

theorem linesOf_congr (hrs : e.heap.Matches r s) : Library.linesOf s e = Library.linesOf r e :=
  bind_congr_at (value_congr hrs) _

theorem getreg_congr (hop : Option.Rel e.heap.Matches o p) :
    Library.getreg p e = Library.getreg o e :=
  optional_congr (.pure "") .text text_congr (fun _ => rfl) hop

theorem setreg_congr (hrs : e.heap.Matches r s) (htu : e.heap.Matches t u) :
    Library.setreg s u e = Library.setreg r t e :=
  (Looks.text r).bind_congr (text_congr hrs) fun _ => bind_congr_at (linesOf_congr htu) _

theorem setenv_congr (hrs : e.heap.Matches r s) (htu : e.heap.Matches t u) :
    Library.setenv s u e = Library.setenv r t e :=
  (Looks.text r).bind_congr (text_congr hrs) fun _ => bind_congr_at (text_congr htu) _

/-! ### Functions -/

theorem sort_congr (env : NativeEnv) (hrs : e.heap.Matches r s)
    (hop : Option.Rel e.heap.Matches o p) : Library.sort env s p e = Library.sort env r o e := by
  refine bind_value_congr hrs ?_
  cases hv : e.heap.value r with
  | list items =>
    rw [hrs.eq_of_not_isScalar (by rw [hv]; rfl)]
    refine (Looks.checkUnlocked r _).bind_congr rfl fun _ => ?_
    cases hop with
    | none => rfl
    | some hhow => exact bind_congr_at (value_congr hhow) _
  | _ => rfl

theorem looks_boundArguments (o : Option Ref) : Looks (Library.boundArguments o) := by
  cases o with
  | none => exact .pure []
  | some r =>
    refine (Looks.value r).bind fun v => ?_
    cases v with
    | list items => exact .pure items
    | _ => exact .raise _

theorem boundArguments_congr (hrs : e.heap.Matches r s) :
    Library.boundArguments (some s) e = Library.boundArguments (some r) e :=
  bind_congr_at (value_congr hrs) _

/-- What follows the check of a receiver is about a Dictionary, which matches itself only. -/
theorem checkReceiver_congr {f g : Unit → Run α} (cause : Cause) (hrs : e.heap.Matches r s)
    (h : s = r → g () e = f () e) :
    (Library.checkReceiver (some s) cause >>= g) e =
      (Library.checkReceiver (some r) cause >>= f) e := by
  have hchecks : Library.checkReceiver (some s) cause e = Library.checkReceiver (some r) cause e :=
    bind_value_congr hrs rfl
  rw [bind_congr_at hchecks]
  refine bind_congr_of_ok fun _ e' hok => ?_
  obtain ⟨rfl, hkind⟩ := Library.of_checkReceiver_ok hok
  have hscalar : (e'.heap.value r).isScalar = false :=
    Value.isScalar_eq_of_kind_eq (w := .dictionary .empty) hkind
  exact h (hrs.eq_of_not_isScalar hscalar)

theorem looks_checkReceiver (o : Option Ref) (cause : Cause) :
    Looks (Library.checkReceiver o cause) := by
  cases o with
  | none => exact .pure ()
  | some r =>
    refine (Looks.value r).bind fun v => ?_
    cases v with
    | dictionary entries => exact .pure ()
    | _ => exact .raise _

theorem looks_bindings (o p : Option Ref) : Looks (Library.bindings o p) := by
  cases p with
  | some r => cases o <;> exact .pure _
  | none =>
    cases o with
    | none => exact .pure _
    | some r =>
      refine (Looks.value r).bind fun v => ?_
      cases v <;> exact .pure _

theorem function_name_congr (env : NativeEnv) (hrs : e.heap.Matches r s) (o p : Option Ref) :
    Library.function env s o p e = Library.function env r o p e :=
  (looks_bindings o p).bind_congr rfl fun found =>
    (looks_boundArguments found.1).bind_congr rfl fun _ =>
      (looks_checkReceiver found.2 _).bind_congr rfl fun _ => bind_congr_at (value_congr hrs) _

theorem function_congr (env : NativeEnv) (hrs : e.heap.Matches r s)
    (hop : Option.Rel e.heap.Matches o p) (hop' : Option.Rel e.heap.Matches o' p') :
    Library.function env s p p' e = Library.function env r o o' e := by
  rw [function_name_congr env hrs p p']
  cases hop' with
  | none =>
    cases hop with
    | none => rfl
    | @some t u htu =>
      unfold Library.function
      cases hv : e.heap.value t with
      | dictionary entries => rw [htu.eq_of_not_isScalar (by rw [hv]; rfl)]
      | _ =>
        have ht : Library.bindings (some t) none e = .ok (some t, none) e :=
          bind_of_ok (value_of_eq hv)
        have hu : Library.bindings (some u) none e = .ok (some u, none) e :=
          bind_of_ok (value_of_eq (htu.value_eq.trans hv))
        rw [bind_of_ok ht, bind_of_ok hu]
        exact (looks_boundArguments (some t)).bind_congr (boundArguments_congr htu) fun _ => rfl
  | some hreceiver =>
    cases hop with
    | none => exact checkReceiver_congr _ hreceiver fun heq => heq ▸ rfl
    | some harguments =>
      exact (looks_boundArguments _).bind_congr (boundArguments_congr harguments) fun _ =>
        checkReceiver_congr _ hreceiver fun heq => heq ▸ rfl

theorem call_congr (env : NativeEnv) (hrs : e.heap.Matches r s) (htu : e.heap.Matches t u)
    (hop : Option.Rel e.heap.Matches o p) : Library.call env s u p e = Library.call env r t o e := by
  refine bind_value_congr htu ?_
  cases e.heap.value t with
  | list items =>
    cases hop with
    | none => exact (Looks.pure ()).bind_congr rfl fun _ => bind_congr_at (value_congr hrs) _
    | some hreceiver =>
      refine checkReceiver_congr _ hreceiver fun heq => ?_
      rw [heq]
      exact bind_congr_at (value_congr hrs) _
  | _ => rfl

end Natives

/-! ## Calls -/

/-- The runs end in one way and in one engine, with results that match. -/
def EndsAlike (e : Engine) (m m' : Run Ref) : Prop :=
  m' e = m e ∨ ∃ r s e', m e = .ok r e' ∧ m' e = .ok s e' ∧ e'.heap.Matches r s

namespace EndsAlike

variable {n n' : Run Ref}

theorem congr {m₁ m₂ : Run Ref} (h : EndsAlike e n n') (hn : m₁ e = n e) (hn' : m₂ e = n' e) :
    EndsAlike e m₁ m₂ := by
  unfold EndsAlike
  rw [hn, hn']
  exact h

theorem of_looks {look : Run α} {f g : α → Run Ref} (hlook : Looks look)
    (h : ∀ a, EndsAlike e (f a) (g a)) : EndsAlike e (look >>= f) (look >>= g) := by
  cases hrun : look e with
  | error stop e' => exact .inl (by rw [bind_of_error hrun, bind_of_error hrun])
  | ok a e' =>
    obtain rfl := hlook e (.ok a) e' (ends_ok_iff.2 hrun)
    unfold EndsAlike
    rw [bind_of_ok hrun, bind_of_ok hrun]
    exact h a

theorem afterwards (h : EndsAlike e n n') {change : Engine → Engine}
    (hchange : ∀ e', (change e').heap = e'.heap) :
    EndsAlike e (n.afterwards change) (n'.afterwards change) := by
  rcases h with h | ⟨r, s, e', hr, hs, hrs⟩
  · exact .inl (by simp only [Run.afterwards, h])
  · refine .inr ⟨r, s, change e', afterwards_of_ok hr change, afterwards_of_ok hs change, ?_⟩
    rw [hchange]
    exact hrs

end EndsAlike

section Calls

variable {t u : Ref} {o p : Option Ref} {env : NativeEnv} {host : Host} {i : Interp} {c : Context}

theorem get_congr (hrs : e.heap.Matches r s) (htu : e.heap.Matches t u) (o : Option Ref) :
    Library.get s u o e = Library.get r t o e := by
  refine bind_value_congr hrs ?_
  cases e.heap.value r with
  | list | blob => exact bind_congr_at (index_congr htu) _
  | dictionary | funcref => exact bind_congr_at (text_congr htu) _
  | _ => rfl

/-- What is given back if nothing is found is the object that was handed in. -/
theorem get_fallback (r t : Ref) (hop : Option.Rel e.heap.Matches o p) :
    EndsAlike e (Library.get r t o) (Library.get r t p) := by
  cases hop with
  | none => exact .inl rfl
  | some hfallback =>
    refine .of_looks (.value r) fun v => ?_
    cases v with
    | list items =>
      refine .of_looks (.index t) fun n => ?_
      cases (position? items.length n).bind (items[·]?) with
      | some found => exact .inl rfl
      | none => exact .inr ⟨_, _, e, rfl, rfl, hfallback⟩
    | blob bytes =>
      refine .of_looks (.index t) fun n => ?_
      cases (position? bytes.length n).bind (bytes[·]?) with
      | some found => exact .inl rfl
      | none => exact .inr ⟨_, _, e, rfl, rfl, hfallback⟩
    | dictionary entries =>
      refine .of_looks (.text t) fun key => ?_
      cases entries.find? key with
      | some found => exact .inl rfl
      | none => exact .inr ⟨_, _, e, rfl, rfl, hfallback⟩
    | funcref f =>
      refine .of_looks (.text t) fun key => ?_
      dsimp only
      split
      · exact .inl rfl
      · exact .inl rfl
      · exact .inl rfl
      · exact .inr ⟨_, _, e, rfl, rfl, hfallback⟩
    | _ => exact .inl rfl

theorem rel_getElem? {R : Ref → Ref → Prop} (hrs : List.Forall₂ R rs ss) (k : Nat) :
    Option.Rel R rs[k]? ss[k]? := by
  induction hrs generalizing k with
  | nil => exact .none
  | cons hfirst _ ih =>
    cases k with
    | zero => exact .some hfirst
    | succ k => exact ih k

/-! ### Arguments by their number -/

namespace EndsAlike

variable {f : List Ref → Run Ref}

theorem one (hwrong : ∀ r t more, f (r :: t :: more) = f [])
    (h : ∀ {r s}, e.heap.Matches r s → f [s] e = f [r] e) :
    List.Forall₂ e.heap.Matches rs ss → EndsAlike e (f rs) (f ss)
  | .nil => .inl rfl
  | .cons hr .nil => .inl (h hr)
  | .cons _ (.cons _ _) => .inl (by rw [hwrong, hwrong])

theorem oneOrMore (h : ∀ {r s more more'}, e.heap.Matches r s →
      List.Forall₂ e.heap.Matches more more' → f (s :: more') e = f (r :: more) e) :
    List.Forall₂ e.heap.Matches rs ss → EndsAlike e (f rs) (f ss)
  | .nil => .inl rfl
  | .cons hr hmore => .inl (h hr hmore)

theorem two (hone : ∀ r, f [r] = f []) (hwrong : ∀ r t u more, f (r :: t :: u :: more) = f [])
    (h : ∀ {r s t u}, e.heap.Matches r s → e.heap.Matches t u → f [s, u] e = f [r, t] e) :
    List.Forall₂ e.heap.Matches rs ss → EndsAlike e (f rs) (f ss)
  | .nil => .inl rfl
  | .cons _ .nil => .inl (by rw [hone, hone])
  | .cons hr (.cons ht .nil) => .inl (h hr ht)
  | .cons _ (.cons _ (.cons _ _)) => .inl (by rw [hwrong, hwrong])

theorem twoOrMore (hone : ∀ r, f [r] = f [])
    (h : ∀ {r s t u more more'}, e.heap.Matches r s → e.heap.Matches t u →
      List.Forall₂ e.heap.Matches more more' → f (s :: u :: more') e = f (r :: t :: more) e) :
    List.Forall₂ e.heap.Matches rs ss → EndsAlike e (f rs) (f ss)
  | .nil => .inl rfl
  | .cons _ .nil => .inl (by rw [hone, hone])
  | .cons hr (.cons ht hmore) => .inl (h hr ht hmore)

end EndsAlike

/-- A native function does not tell scalars of one value apart. Only a default that is given back
may be the one or the other. -/
theorem runBuiltin_alike (b : Builtin) (hrs : List.Forall₂ e.heap.Matches rs ss) :
    EndsAlike e (Library.runBuiltin env b rs) (Library.runBuiltin env b ss) := by
  cases b with
  | len | empty | type | abs =>
    exact .one (fun _ _ _ => rfl) (fun hr => bind_congr_at (value_congr hr) _) hrs
  | keys | values | items | max | min =>
    exact .one (fun _ _ _ => rfl) (fun hr => bind_congr_at (bind_congr_at (value_congr hr) _) _) hrs
  | toupper | tolower | str2float | exist | islocked | jsonDecode | getenv =>
    exact .one (fun _ _ _ => rfl) (fun hr => bind_congr_at (text_congr hr) _) hrs
  | float2nr =>
    exact .one (fun _ _ _ => rfl) (fun hr => bind_congr_at (number_congr hr) _) hrs
  | copy =>
    exact .one (fun _ _ _ => rfl) (fun hr => copy_congr hr) hrs
  | reverse =>
    exact .one (fun _ _ _ => rfl) (fun hr => reverse_congr hr) hrs
  | string =>
    exact .one (fun _ _ _ => rfl) (fun hr => string_congr hr) hrs
  | jsonEncode =>
    exact .one (fun _ _ _ => rfl) (fun hr => jsonEncode_congr hr) hrs
  | add =>
    exact .two (fun _ => rfl) (fun _ _ _ _ => rfl) (fun hr ht => add_congr hr ht) hrs
  | hasKey =>
    exact .two (fun _ => rfl) (fun _ _ _ _ => rfl) (fun hr ht => hasKey_congr hr ht) hrs
  | repeated =>
    exact .two (fun _ => rfl) (fun _ _ _ _ => rfl) (fun hr ht => repeated_congr hr ht) hrs
  | setreg =>
    exact .two (fun _ => rfl) (fun _ _ _ _ => rfl) (fun hr ht => setreg_congr hr ht) hrs
  | setenv =>
    exact .two (fun _ => rfl) (fun _ _ _ _ => rfl) (fun hr ht => setenv_congr hr ht) hrs
  | deepcopy =>
    exact .oneOrMore (fun hr hmore => deepcopy_congr hr) hrs
  | sort =>
    exact .oneOrMore (fun hr hmore => sort_congr env hr (rel_getElem? hmore 0)) hrs
  | range =>
    exact .oneOrMore (fun hr hmore =>
      range_congr hr (rel_getElem? hmore 0) (rel_getElem? hmore 1)) hrs
  | join =>
    exact .oneOrMore (fun hr hmore => join_congr hr (rel_getElem? hmore 0)) hrs
  | split =>
    exact .oneOrMore (fun hr hmore =>
      split_congr hr (rel_getElem? hmore 0) (rel_getElem? hmore 1)) hrs
  | str2nr =>
    exact .oneOrMore (fun hr hmore => str2nr_congr hr (rel_getElem? hmore 0)) hrs
  | function | funcref =>
    exact .oneOrMore (fun hr hmore =>
      function_congr env hr (rel_getElem? hmore 0) (rel_getElem? hmore 1)) hrs
  | insert =>
    exact .twoOrMore (fun _ => rfl) (fun hr ht hmore =>
      insert_congr hr ht (rel_getElem? hmore 0)) hrs
  | remove =>
    exact .twoOrMore (fun _ => rfl) (fun hr ht hmore =>
      remove_congr hr ht (rel_getElem? hmore 0)) hrs
  | extend =>
    exact .twoOrMore (fun _ => rfl) (fun hr ht hmore =>
      extend_congr hr ht (rel_getElem? hmore 0)) hrs
  | count =>
    exact .twoOrMore (fun _ => rfl) (fun hr ht hmore =>
      count_congr hr ht (rel_getElem? hmore 0) (rel_getElem? hmore 1)) hrs
  | index =>
    exact .twoOrMore (fun _ => rfl) (fun hr ht hmore =>
      indexOf_congr hr ht (rel_getElem? hmore 0) (rel_getElem? hmore 1)) hrs
  | call =>
    exact .twoOrMore (fun _ => rfl) (fun hr ht hmore =>
      call_congr env hr ht (rel_getElem? hmore 0)) hrs
  | getreg => exact .inl (getreg_congr (rel_getElem? hrs 0))
  | get =>
    rcases hrs with _ | ⟨hr, _ | ⟨ht, hmore⟩⟩
    · exact .inl rfl
    · exact .inl rfl
    · exact (get_fallback _ _ (rel_getElem? hmore 0)).congr rfl (get_congr hr ht _)

/-! ### Functions of the host -/

/-- Data that is made from a scalar is made from its value. -/
theorem runHosted_congr {f : HostFunction} (hcopies : f.copies = true)
    (hrs : List.Forall₂ e.heap.Matches rs ss) :
    Library.runHosted env f ss e = Library.runHosted env f rs e := by
  have hdata : ss.map e.heap.toHost = rs.map e.heap.toHost := by
    induction hrs with
    | nil => rfl
    | cons hr _ ih => rw [List.map_cons, List.map_cons, hr.toHost_eq, ih]
  unfold Library.runHosted
  rw [bind_of_ok (get_eq e), bind_of_ok (get_eq e)]
  simp only [hcopies, if_true, hdata]

/-! ### Functions of scripts -/

theorem bindParameters_given (eval : Context → Expr → Run Ref) (f : Function) (frame : FrameId)
    (p : String) (rest : List String) (r : Ref) (rs : List Ref) (e : Engine) :
    bindParameters eval f frame (p :: rest) (r :: rs) e =
      (stored r >>= fun x => bindParameter frame f.isLambda p x >>= fun _ =>
        bindParameters eval f frame rest rs : Run Unit) e := rfl

theorem exists_bindParameter (frame : FrameId) (isLambda : Bool) (p : String) (r : Ref)
    (e : Engine) : ∃ e', bindParameter frame isLambda p r e = .ok () e' ∧ e'.heap = e.heap := by
  cases isLambda with
  | true => exact ⟨_, rfl, rfl⟩
  | false => exact ⟨_, rfl, rfl⟩

/-- As long as there are arguments, what is bound is stored, and nothing is evaluated. -/
theorem bindParameters_congr (eval : Context → Expr → Run Ref) (f : Function) (frame : FrameId)
    (parameters : List String) (hrs : List.Forall₂ e.heap.Matches rs ss) :
    bindParameters eval f frame parameters ss e = bindParameters eval f frame parameters rs e := by
  suffices hgeneral : ∀ d : Engine, e.heap.Extends d.heap →
      bindParameters eval f frame parameters ss d = bindParameters eval f frame parameters rs d from
    hgeneral e (.refl e.heap)
  induction parameters generalizing rs ss with
  | nil => exact fun _ _ => rfl
  | cons p rest ih =>
    intro d hd
    cases hrs with
    | nil => rfl
    | @cons r s rs ss hfirst hrest =>
      obtain ⟨d', hbind, hheap⟩ := exists_bindParameter frame f.isLambda p (d.heap.stored r).1
        (d.withHeap (d.heap.stored r).2)
      have hnext : e.heap.Extends d'.heap := hheap ▸ hd.trans (.stored d.heap r)
      rw [bindParameters_given, bindParameters_given,
        bind_congr_at (stored_congr (hfirst.mono hd)), bind_of_ok (stored_ok r d),
        bind_of_ok (stored_ok r d), bind_of_ok hbind, bind_of_ok hbind, ih hrest d' hnext]

theorem exists_bindParameters (eval : Context → Expr → Run Ref) (f : Function) (frame : FrameId)
    {parameters : List String} (hlength : parameters.length ≤ rs.length) (e : Engine) :
    ∃ e', bindParameters eval f frame parameters rs e = .ok () e' ∧ e.heap.Extends e'.heap := by
  induction parameters generalizing rs e with
  | nil => exact ⟨e, rfl, .refl e.heap⟩
  | cons p rest ih =>
    cases rs with
    | nil => exact absurd hlength (Nat.not_succ_le_zero _)
    | cons r rs =>
      obtain ⟨d, hbind, hheap⟩ := exists_bindParameter frame f.isLambda p (e.heap.stored r).1
        (e.withHeap (e.heap.stored r).2)
      obtain ⟨e', hrest, hextends⟩ := ih (Nat.le_of_succ_le_succ hlength) d
      have hfirst : e.heap.Extends d.heap := hheap ▸ .stored e.heap r
      refine ⟨e', ?_, hfirst.trans hextends⟩
      rw [bindParameters_given, bind_of_ok (stored_ok r e), bind_of_ok hbind, hrest]

theorem bindArguments_congr (eval : Context → Expr → Run Ref) (f : Function) (frame : FrameId)
    (hrs : List.Forall₂ e.heap.Matches rs ss) :
    bindArguments eval f frame ss e = bindArguments eval f frame rs e := by
  unfold bindArguments
  rw [bind_congr_at (bindParameters_congr eval f frame _ hrs)]
  rcases Nat.le_total f.definition.parameters.length rs.length with hlength | hlength
  · obtain ⟨e', hbind, hextends⟩ := exists_bindParameters eval f frame hlength e
    rw [bind_of_ok hbind, bind_of_ok hbind]
    split
    · have hextras : List.Forall₂ e'.heap.Matches (rs.drop f.definition.parameters.length)
          (ss.drop f.definition.parameters.length) :=
        List.forall₂_drop _ (hrs.imp fun _ _ h => h.mono hextends)
      exact bind_congr_at (storedAll_congr hextras) _
    · rfl
  · rw [List.drop_eq_nil_of_le hlength, List.drop_eq_nil_of_le (hrs.length_eq ▸ hlength)]

theorem within_congr {m m' : Run α} {entry : CallEntry}
    (h : m' (e.enter entry) = m (e.enter entry)) : within entry m' e = within entry m e := by
  have hrun (m : Run α) : within entry m e = m.afterwards e.leave (e.enter entry) := rfl
  rw [hrun, hrun, afterwards, afterwards, h]

theorem callDefined_congr (id : FunctionId) (receiver : Option Ref)
    (hrs : List.Forall₂ e.heap.Matches rs ss) :
    callDefined i id ss receiver e = callDefined i id rs receiver e := by
  unfold callDefined
  rw [bind_of_ok (get_eq e), bind_of_ok (get_eq e), hrs.length_eq]
  cases e.function? id with
  | none => rfl
  | some f =>
    refine bind_congr_of_ok fun _ e' hcheck => ?_
    obtain rfl := of_checkCall_ok hcheck
    set opened := e'.invoke ⟨id, .empty, firstLocals e'.heap f receiver, f.closure⟩
    have hframe : newFrame id f receiver e' = .ok ⟨e'.frames.size⟩ opened := rfl
    have hbind : bindArguments i.eval f ⟨e'.frames.size⟩ ss (opened.enter (.defined f.displayName)) =
        bindArguments i.eval f ⟨e'.frames.size⟩ rs (opened.enter (.defined f.displayName)) :=
      bindArguments_congr i.eval f _ hrs
    rw [bind_of_ok hframe, bind_of_ok hframe]
    exact bind_congr_at (within_congr (bind_congr_at hbind _)) _

/-! ### All functions -/

theorem callNative_alike {name : String} {arity : Arity} {count : Nat} {body body' : Run Ref}
    (h : EndsAlike (e.enter (.native name)) body body') :
    EndsAlike e (callNative name arity count body) (callNative name arity count body') :=
  .of_looks (looks_checkCount name arity count) fun _ => h.afterwards fun _ => rfl

/-- A call with other scalars of the same values ends alike. A function of the host that is handed
the objects themselves has to be given the same ones. -/
theorem callHandler_alike (h : Handler) (receiver : Option Ref)
    (hrs : List.Forall₂ e.heap.Matches rs ss)
    (hhost : ∀ name f, h = .host name → host.function? name = some f → f.copies = false → rs = ss) :
    EndsAlike e (callHandler host i c h rs receiver) (callHandler host i c h ss receiver) := by
  cases h with
  | defined id name => exact .inl (callDefined_congr id receiver hrs)
  | builtin b =>
    unfold callHandler
    dsimp only
    rw [hrs.length_eq]
    exact callNative_alike (runBuiltin_alike b hrs)
  | host name =>
    unfold callHandler
    dsimp only
    cases hf : host.function? name with
    | none => exact .inl rfl
    | some f =>
      cases hcopies : f.copies with
      | false =>
        rw [hhost name f rfl hf hcopies]
        exact .inl rfl
      | true =>
        dsimp only
        rw [hrs.length_eq]
        exact callNative_alike (.inl (runHosted_congr hcopies hrs))

end Calls

end Run

end VimL
