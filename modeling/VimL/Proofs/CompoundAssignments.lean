import VimL.Proofs.Bindings
import VimL.Proofs.RangeAssignments
import VimL.Proofs.Typing

/-!
# Compound assignments

A compound assignment to a variable stands for an assignment of a binary expression, whose left side
is the variable. Both look for the variable first, evaluate the right side, apply the operator and
store the result, and they fail for the same reasons and in the same order. They differ in one case
only: what is added to a List or a Blob is put into this object itself, for everyone who shares it,
where a binary expression would make a new object.
-/

namespace VimL

open EStateM (Result)

/-! ## What a compound assignment stands for -/

/-- A compound assignment with the one operator applies the other one. -/
inductive AssignOperator.Applies : AssignOperator → BinaryOperator → Prop where
  | arithmetic (op : Arithmetic) : Applies (.arithmetic op) (.arithmetic op)
  | concat (doubled : Bool) : Applies .concat (.concat doubled)

theorem AssignOperator.Applies.ne_set {op : AssignOperator} {op' : BinaryOperator}
    (h : op.Applies op') : op ≠ .set := by
  rintro rfl
  cases h

/-- The assignment of a binary expression, whose left side is the variable. -/
def Stmt.expansion (v : Variable) (op : BinaryOperator) (x : Expr) : Stmt :=
  .assign (.var v) .set (.binary op (.var v) x)

namespace Run

variable {host : Host} {c : Context} {v : Variable} {op : AssignOperator} {op' : BinaryOperator}
  {x : Expr} {r right : Ref} {e e' e₁ : Engine}

theorem addsInPlace_iff {op : Arithmetic} {v w : Value} : addsInPlace op v w = true ↔
    op = .add ∧ (v.kind = .list ∧ w.kind = .list ∨ v.kind = .blob ∧ w.kind = .blob) := by
  cases op with
  | add => cases v <;> cases w <;> simp [addsInPlace, Value.kind]
  | _ => simp [addsInPlace]

/-- Unless something is added in place, the operator is applied as in a binary expression. -/
theorem combine_eq_binary (h : op.Applies op') (name : String)
    (hplace : ∀ a, op = .arithmetic a →
      addsInPlace a (e.heap.value r) (e.heap.value right) = false) :
    combine op (some r) right name e = binary op' r right e := by
  cases h with
  | arithmetic a => exact combine_of_not_inPlace name (hplace a rfl)
  | concat doubled => rfl

theorem lookup_of_resolve (h : e.resolve c v.scope v.name = .ok (some r)) :
    lookup c v e = .ok r e := by
  have hresolve : resolve c v.scope v.name e = .ok (some r) e := by
    rw [resolve_eq, h]
    rfl
  unfold lookup
  rw [bind_of_ok hresolve]
  rfl

/-- The two assignments do the same if the operators do the same to what the variable holds and what
is evaluated. -/
theorem assignVariable_eq_expansion {eval eval' : Expr → Run Ref} (hop : op ≠ .set)
    (hbinary : eval' (.binary op' (.var v) x) =
      (lookup c v >>= fun left => eval x >>= fun right => binary op' left right : Run Ref))
    (hsame : ∀ r right e₁, e.checkWritable c v = .ok () →
      e.resolve c v.scope v.name = .ok (some r) → eval x e = .ok right e₁ →
      combine op (some r) right v.text e₁ = binary op' r right e₁) :
    assignVariable eval c v op x e =
      assignVariable eval' c v .set (.binary op' (.var v) x) e := by
  have hresolve := resolve_eq c v.scope v.name e
  -- both sides take the same steps, so they stop at the same one or come to the operator
  unfold assignVariable
  rw [bind_of_ok (get_eq e), bind_of_ok (get_eq e)]
  cases hwritable : e.checkWritable c v with
  | error stop => rfl
  | ok =>
    have hchecked : settle (.ok () : Except Stop Unit) e = .ok () e := rfl
    rw [bind_of_ok hchecked, bind_of_ok hchecked]
    cases hfound : e.resolve c v.scope v.name with
    | error stop =>
      rw [hfound] at hresolve
      rw [bind_of_error hresolve, bind_of_error hresolve]
    | ok found =>
      rw [hfound] at hresolve
      rw [bind_of_ok hresolve, bind_of_ok hresolve, hbinary]
      cases found with
      | none =>
        have hlookup : lookup c v e = .error (.ofCause (.undefinedVariable v.text)) e := by
          unfold lookup
          rw [bind_of_ok hresolve]
          rfl
        simp only [hop, ne_eq, not_false_eq_true, Option.isNone_none, and_self, if_true,
          not_true_eq_false, false_and, if_false]
        rw [bind_assoc, bind_of_error hlookup]
        rfl
      | some r =>
        have hlookup : lookup c v e = .ok r e := lookup_of_resolve hfound
        simp only [ne_eq, Option.isNone_some, Bool.false_eq_true, and_false, not_true_eq_false,
          if_false]
        rw [bind_assoc, bind_of_ok hlookup, bind_assoc]
        cases hright : eval x e with
        | error stop e₁ => rw [bind_of_error hright, bind_of_error hright]
        | ok right e₁ =>
          have hset (s : Ref) : combine .set (some r) s v.text = pure s := rfl
          have hcombined := hsame r right e₁ hwritable hfound hright
          rw [bind_of_ok hright, bind_of_ok hright]
          simp only [hset, pure_bind]
          cases happlied : binary op' r right e₁ with
          | error stop e₂ =>
            rw [bind_of_error (hcombined.trans happlied), bind_of_error happlied]
          | ok s e₂ => rw [bind_of_ok (hcombined.trans happlied), bind_of_ok happlied]

theorem evaluate_expansion (h : op.Applies op') (host : Host) (i : Interp) :
    evaluate host i c (.binary op' (.var v) x) =
      (i.eval c (.var v) >>= fun left => i.eval c x >>= fun right => binary op' left right :
        Run Ref) := by
  cases h <;> rfl

/-- The steps of an assignment that has come to its end. -/
theorem of_assignVariable_ok {eval : Expr → Run Ref}
    (h : assignVariable eval c v op x e = .ok () e') :
    e.checkWritable c v = .ok () ∧ ∃ found right e₁ s e₂,
      e.resolve c v.scope v.name = .ok found ∧ eval x e = .ok right e₁ ∧
        combine op found right v.text e₁ = .ok s e₂ ∧ store c v s e₂ = .ok () e' := by
  unfold assignVariable at h
  rw [bind_of_ok (get_eq e)] at h
  obtain ⟨⟨⟩, e₁, hchecked, hlooked⟩ := of_bind_ok h
  obtain ⟨hwritable, rfl⟩ := of_settle_ok hchecked
  obtain ⟨found, e₂, hfound, hrest⟩ := of_bind_ok hlooked
  rw [resolve_eq] at hfound
  obtain ⟨hresolve, rfl⟩ := of_settle_ok hfound
  refine ⟨hwritable, ?_⟩
  dsimp only at hrest
  split at hrest
  · cases hrest
  obtain ⟨right, e₃, hright, hcombining⟩ := of_bind_ok hrest
  obtain ⟨s, e₄, hcombined, hstored⟩ := of_bind_ok hcombining
  exact ⟨found, right, e₃, s, e₄, hresolve, hright, hcombined, hstored⟩

/-- An assignment comes to an end, and is marked, as the binding of the variable does. -/
theorem marked_assign_congr {i i' : Interp} {op'' : AssignOperator} {y : Expr}
    (h : assignVariable (i.eval c) c v op x e = assignVariable (i'.eval c) c v op'' y e) :
    marked "let" (execute i c (.assign (.var v) op x)) e =
      marked "let" (execute i' c (.assign (.var v) op'' y)) e := by
  have hexecuted : execute i c (.assign (.var v) op x) e =
      execute i' c (.assign (.var v) op'' y) e := bind_congr_at h _
  unfold marked
  rw [hexecuted]

/-! ## What is added in place -/

theorem of_checkUnlocked_ok {name : String} (h : checkUnlocked r name e = .ok () e') : e' = e := by
  cases hlocked : e.heap.isLocked r with
  | true =>
    rw [checkUnlocked_of_locked hlocked] at h
    cases h
  | false =>
    rw [checkUnlocked_of_free hlocked] at h
    exact (Result.ok.inj h).2.symm

end Run

/-- The elements of both in one value. -/
def Value.append : Value → Value → Value
  | .list items, .list added => .list (items ++ added)
  | .blob bytes, .blob added => .blob (bytes ++ added)
  | v, _ => v

/-- Both are Lists, or both are Blobs. -/
def Value.BothSequences (v w : Value) : Prop :=
  v.kind = .list ∧ w.kind = .list ∨ v.kind = .blob ∧ w.kind = .blob

theorem Value.BothSequences.isScalar_eq {v w : Value} (h : v.BothSequences w) :
    v.isScalar = false :=
  Value.isScalar_of_kind (h.imp And.left And.left)

theorem Value.BothSequences.isScalar_append {v w new : Value} (h : v.BothSequences w) :
    (v.append new).isScalar = false := by
  cases v with
  | number | float | string => cases h.isScalar_eq
  | _ => cases new <;> rfl

/-- Nothing that there was changes. -/
theorem Run.Brings.heap_extends {right : Ref} {new : Value} {e e' : Engine}
    (h : Brings right e new e') : e.heap.Extends e'.heap := by
  cases h with
  | items _ hcopies => exact hcopies.grows
  | bytes => exact .refl _

namespace Run

variable {host : Host} {c : Context} {v : Variable} {x : Expr} {r right s : Ref}
  {e e' e₁ : Engine}

/-- What is added goes behind what there is, in the same object. -/
theorem of_combine_add {name : String}
    (hboth : (e.heap.value r).BothSequences (e.heap.value right))
    (h : combine (.arithmetic .add) (some r) right name e = .ok s e') :
    s = r ∧ ∃ new e₁, Brings right e new e₁ ∧
      e' = e₁.withHeap (e₁.heap.setValue r ((e.heap.value r).append new)) := by
  unfold combine at h
  dsimp only at h
  rw [bind_of_ok (value_of_eq rfl), bind_of_ok (value_of_eq rfl)] at h
  cases hx : e.heap.value r with
  | list items =>
    cases hy : e.heap.value right with
    | list added =>
      rw [hx, hy] at h
      obtain ⟨_, e₁, hfree, hadded⟩ := of_bind_ok h
      obtain rfl := of_checkUnlocked_ok hfree
      obtain ⟨_, e₂, hextended, hdone⟩ := of_bind_ok hadded
      cases hdone
      unfold extendList at hextended
      obtain ⟨copies, e₃, hcopies, hextended⟩ := of_bind_ok hextended
      obtain ⟨hrest, hstores⟩ := of_storedAll hcopies
      have hkept : e₃.heap.value r = .list items := by
        rw [hstores.grows.value_eq (by rw [hx]; rfl), hx]
      rw [bind_of_ok (value_of_eq hkept)] at hextended
      cases hextended
      exact ⟨rfl, .list copies, e₃, hrest ▸ .items hy hstores, rfl⟩
    | _ =>
      rw [hx, hy] at hboth
      rcases hboth with ⟨-, hy⟩ | ⟨hx, -⟩
      · cases hy
      · cases hx
  | blob bytes =>
    cases hy : e.heap.value right with
    | blob added =>
      rw [hx, hy] at h
      obtain ⟨_, e₁, hfree, hadded⟩ := of_bind_ok h
      obtain rfl := of_checkUnlocked_ok hfree
      cases hadded
      exact ⟨rfl, .blob added, e₁, .bytes hy, rfl⟩
    | _ =>
      rw [hx, hy] at hboth
      rcases hboth with ⟨hx, -⟩ | ⟨-, hy⟩
      · cases hx
      · cases hy
  | _ =>
    rw [hx] at hboth
    rcases hboth with ⟨hx, -⟩ | ⟨hx, -⟩ <;> cases hx

end Run

namespace Engine

variable {host : Host} {fuel : Nat} {c : Context} {v : Variable} {op : AssignOperator} {x : Expr}
  {r right : Ref} {e e' e₁ : Engine}

/-- The variable holds a List, and the value that is added to it is a List as well; or both are
Blobs. -/
structure Appends (e : Engine) (host : Host) (fuel : Nat) (c : Context) (v : Variable)
    (op : AssignOperator) (x : Expr) (r right : Ref) (e₁ : Engine) : Prop where
  adds : op = .arithmetic .add
  resolves : e.resolve c v.scope v.name = .ok (some r)
  evaluates : (Interp.ofFuel host fuel).eval c x e = .ok right e₁
  both : (e.heap.value r).BothSequences (e₁.heap.value right)

/-- The elements of `right` were put behind those of the object, in place, and the variable was
bound to the object again. Of all other objects that there were, none has changed. -/
structure Extended (e : Engine) (c : Context) (v : Variable) (r right : Ref) (e' : Engine) :
    Prop where
  stores : ∃ new e₁ p, Run.Brings right e new e₁ ∧
    e' = (e₁.withHeap (e₁.heap.setValue r ((e.heap.value r).append new))).storing c v r p ∧
    e'.heap.value r = (e.heap.value r).append new
  others : ∀ s : Ref, s ≠ r → s.index < e.heap.size → e'.heap.cell s = e.heap.cell s

/-- A compound assignment, which has begun, does what the assignment does that it stands for, unless
it adds to a List or Blob; then it extends the very object that the variable held before anything
was evaluated. -/
structure ExpandsCompounds (e : Engine) (host : Host) : Prop where
  same : ∀ {fuel c v op op' x}, op.Applies op' →
    (∀ r right e₁, ¬e.Appends host (fuel + 1) c v op x r right e₁) →
    Run.marked "let" (Run.execute (.ofFuel host (fuel + 1)) c (.assign (.var v) op x)) e =
      Run.marked "let" (Run.execute (.ofFuel host (fuel + 2)) c (.expansion v op' x)) e
  extended : ∀ {fuel c v op x r right e₁ signal e'},
    e.Appends host (fuel + 1) c v op x r right e₁ →
    Run.marked "let" (Run.execute (.ofFuel host (fuel + 1)) c (.assign (.var v) op x)) e =
      .ok signal e' → e₁.Extended c v r right e'

theorem TrueToNotes.size_of_resolve (he : e.TrueToNotes) (hwritable : e.checkWritable c v = .ok ())
    (hresolve : e.resolve c v.scope v.name = .ok (some r)) : r.index < e.heap.size := by
  obtain ⟨b, hrefers, hbinds, -⟩ := exists_refers_of_resolve hresolve
  have hfree := isReadOnly_of_checkWritable hwritable
  refine he.objects b r ?_ hbinds
  refine Context.isWritable_of_scope (scope_of_placeOf? hrefers.place) ?_
  rintro (hscope | hscope) <;> simp [isReadOnly, hscope] at hfree

theorem TrueToNotes.same (he : e.TrueToNotes) {op' : BinaryOperator} (h : op.Applies op')
    (hnot : ∀ r right e₁, ¬e.Appends host (fuel + 1) c v op x r right e₁) :
    Run.marked "let" (Run.execute (.ofFuel host (fuel + 1)) c (.assign (.var v) op x)) e =
      Run.marked "let" (Run.execute (.ofFuel host (fuel + 2)) c (.expansion v op' x)) e := by
  refine Run.marked_assign_congr ?_
  refine Run.assignVariable_eq_expansion h.ne_set (Run.evaluate_expansion h host _) ?_
  intro r right e₁ hwritable hresolve hright
  refine Run.combine_eq_binary h v.text fun a ha => Bool.eq_false_iff.2 fun hplace => ?_
  obtain ⟨rfl, hboth⟩ := Run.addsInPlace_iff.1 hplace
  rw [(Run.keepsKinds_of_eval hright).kind r (he.size_of_resolve hwritable hresolve)] at hboth
  exact hnot r right e₁ ⟨ha, hresolve, hright, hboth⟩

theorem TrueToNotes.extended (he : e.TrueToNotes) {signal : Signal}
    (happends : e.Appends host (fuel + 1) c v op x r right e₁)
    (h : Run.marked "let" (Run.execute (.ofFuel host (fuel + 1)) c (.assign (.var v) op x)) e =
      .ok signal e') : e₁.Extended c v r right e' := by
  obtain ⟨rfl, hresolve, hright, hboth⟩ := happends
  unfold Run.marked at h
  split at h
  case h_2 => cases h
  rename_i ended e₂ hexecuted
  obtain rfl : e₂ = e' := (Result.ok.inj h).2
  obtain ⟨⟨⟩, e₃, hassigned, hdone⟩ := Run.of_bind_ok hexecuted
  obtain rfl : e₃ = e₂ := (Result.ok.inj hdone).2
  obtain ⟨hwritable, found, right', e₄, s, e₅, hfound, hright', hcombined, hstored⟩ :=
    Run.of_assignVariable_ok hassigned
  obtain rfl : found = some r := Except.ok.inj (hfound.symm.trans hresolve)
  obtain ⟨rfl, rfl⟩ := Result.ok.inj (hright'.symm.trans hright)
  have hkinds := Run.keepsKinds_of_eval hright
  have hin := he.size_of_resolve hwritable hresolve
  have hboth₁ : (e₄.heap.value r).BothSequences (e₄.heap.value right') := by
    unfold Value.BothSequences
    rw [hkinds.kind r hin]
    exact hboth
  obtain ⟨rfl, new, e₆, hbrings, rfl⟩ := Run.of_combine_add hboth₁ hcombined
  obtain ⟨-, p, -, rfl⟩ := Run.of_store_ok hstored
  have hgrows := hbrings.heap_extends
  -- what is stored in the variable is the object itself, which is no scalar
  have hvalue : (e₆.heap.setValue s ((e₄.heap.value s).append new)).value s =
      (e₄.heap.value s).append new := by
    have hout := Heap.lt_size_of_not_isScalar _ _ hboth₁.isScalar_eq
    exact Heap.value_setValue_self _ _ (Nat.lt_of_lt_of_le hout hgrows.size)
  have hheap : ((e₆.withHeap (e₆.heap.setValue s ((e₄.heap.value s).append new))).storing
      c v s p).heap = e₆.heap.setValue s ((e₄.heap.value s).append new) := by
    rw [heap_storing, Heap.stored_of_not_isScalar]
    · rfl
    · exact (congrArg Value.isScalar hvalue).trans hboth₁.isScalar_append
  refine ⟨⟨new, e₆, p, hbrings, rfl, ?_⟩, fun other hne hother => ?_⟩
  · rw [hheap, hvalue]
  · rw [hheap, ← hgrows.cell other hother]
    rcases e₆.heap.cell_modifyCell s other
      (fun cell => { cell with value := (e₄.heap.value s).append new }) with hkept | ⟨heq, -, -⟩
    · exact hkept
    · exact absurd heq hne

theorem TrueToNotes.expandsCompounds (he : e.TrueToNotes) (host : Host) :
    e.ExpandsCompounds host :=
  ⟨fun h hnot => he.same h hnot, fun happends h => he.extended happends h⟩

end Engine

namespace Session

variable {host : Host} {e : Engine}

/-- Whatever a session asks for: in the engines that it comes to, between its runs and in every step
of them, a compound assignment that begins is the assignment it stands for. A statement that begins
leaves an event in the history, which says what statement it is and which no run ever reads. -/
theorem perform_expandsCompounds (he : Arrives host e) (fuel : Nat) (r : Request) :
    (∀ event, ((r.perform (.ofFuel host fuel) e).2.record event).ExpandsCompounds host) ∧
    ∀ hit : Task → Engine → Bool,
      (∀ task e₁, (∀ event, (e₁.record event).ExpandsCompounds host) → hit task e₁ = false) →
      r.perform (.watching host hit fuel) e = r.perform (.ofFuel host fuel) e := by
  have htrue := he.trueToNotes
  have hexpands {e₁ : Engine} (he₁ : e₁.TrueToNotes) (event : Event) :
      (e₁.record event).ExpandsCompounds host := by
    have hrecorded : (e₁.record event).TrueToNotes := he₁.of_same (.of_eq rfl rfl rfl rfl)
    exact hrecorded.expandsCompounds host
  have hkeeps : e.KeepsNotes (r.perform (.ofFuel host fuel) e).2 :=
    Invariant.noting.keeps_perform htrue host fuel r
  exact ⟨hexpands (hkeeps.right htrue), fun hit hhit =>
    Invariant.noting.perform_watching htrue fuel r fun task e₁ he₁ => hhit task e₁ (hexpands he₁)⟩

/-- A list of one item, under two names. -/
def shareList : Request :=
  .run .commandLine [.assign (.var list) .set (.list [.list []]),
    .assign (.var other) .set (.var list)]

/-- What is added to a list, which may be the list itself, is put into it. -/
def doubleList : Stmt := .assign (.var list) (.arithmetic .add) (.var list)

/-- The engine in which the list is about to be doubled. -/
def aboutToDouble : Engine :=
  (shareList.perform (.ofFuel ⟨[]⟩ 5) (holding "")).2.record (.began .commandLine doubleList)

theorem perform_expandsCompounds_list :
    Arrives ⟨[]⟩ (holding "") ∧ ∃ signal e', Run.marked "let"
        (Run.execute (.ofFuel ⟨[]⟩ 1) .commandLine doubleList) aboutToDouble = .ok signal e' ∧
      aboutToDouble.Extended .commandLine list ⟨6⟩ ⟨6⟩ e' := by
  have harrives := arrives_holding ⟨[]⟩ ""
  have hexpands :=
    (perform_expandsCompounds harrives 5 shareList).1 (.began .commandLine doubleList)
  have hbound : aboutToDouble.globals.find? "list" = some ⟨6⟩ := by decide +kernel
  have hkind : (aboutToDouble.heap.value ⟨6⟩).kind = .list := by decide +kernel
  have hdone : (match Run.marked "let"
      (Run.execute (.ofFuel ⟨[]⟩ 1) .commandLine doubleList) aboutToDouble with
    | .ok _ _ => true
    | .error _ _ => false) = true := by decide +kernel
  change aboutToDouble.ExpandsCompounds ⟨[]⟩ at hexpands
  generalize aboutToDouble = e at *
  have hresolve : e.resolve .commandLine list.scope list.name = .ok (some ⟨6⟩) :=
    congrArg Except.ok hbound
  have happends : e.Appends ⟨[]⟩ 1 .commandLine list (.arithmetic .add) (.var list) ⟨6⟩ ⟨6⟩ e :=
    ⟨rfl, hresolve, Run.lookup_of_resolve hresolve, .inl ⟨hkind, hkind⟩⟩
  split at hdone
  case h_2 => cases hdone
  rename_i signal e' hended
  exact ⟨harrives, signal, e', hended, hexpands.extended happends hended⟩

end Session

end VimL
