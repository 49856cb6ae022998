import VimL.Proofs.Methods
import VimL.Proofs.Preserving

/-!
# Arguments

A call binds each parameter to an argument or to the value of its default, from left to right. A
default is evaluated in the frame of the call, in which the parameters before it are bound, and
whatever it runs leaves them alone. Parameters without a default come first, so that a call with
enough arguments finds a default wherever it needs one. Further arguments are bound afterwards, as
their number, as a List and by their positions, and they win over a parameter of such a name.
-/

namespace VimL

open EStateM (Result)

variable {host : Host} {fuel : Nat}

namespace Function

variable {f : Function}

/-- The parameters without a default. -/
def required (f : Function) : List String :=
  f.definition.parameters.filter fun p => !f.defaults.contains p

theorem DefaultsLast.requiredCount_eq (hf : f.DefaultsLast)
    (hdistinct : f.definition.parameters.Nodup) : f.requiredCount = f.required.length := by
  obtain ⟨plain, given, hparameters, hplain, hgiven, hkeys⟩ := hf.exists_split
  rw [hparameters] at hdistinct
  have hrequired : f.required = plain := by
    have hleft : plain.filter (fun p => !f.defaults.contains p) = plain :=
      List.filter_eq_self.2 fun p hp => by rw [hplain p hp]; rfl
    have hright : given.filter (fun p => !f.defaults.contains p) = [] :=
      List.filter_eq_nil_iff.2 fun p hp => by rw [hgiven p hp]; decide
    rw [required, hparameters, List.filter_append, hleft, hright, List.append_nil]
  have hperm : f.defaults.keys.Perm given := by
    refine (List.perm_ext_iff_of_nodup f.defaults.nodup hdistinct.of_append_right).2 fun p => ?_
    exact ⟨fun hp => hkeys hp,
      fun hp => Table.mem_keys_iff.2 (Option.isSome_iff_exists.1 (hgiven p hp))⟩
  have hsize : f.defaults.size = given.length := by
    simpa [Table.keys, Table.size] using hperm.length_eq
  rw [requiredCount, hrequired, hsize, hparameters, List.length_append]
  omega

/-- Parameters that are left without an argument have defaults. -/
theorem DefaultsLast.exists_default_of_mem_drop (hf : f.DefaultsLast) {count : Nat}
    (hcount : f.requiredCount ≤ count) {p : String} (hp : p ∈ f.definition.parameters.drop count) :
    ∃ x, f.defaults.find? p = some x := by
  obtain ⟨before, rest, hdrop⟩ := List.append_of_mem hp
  have hsplit : f.definition.parameters =
      (f.definition.parameters.take count ++ before) ++ p :: rest := by
    rw [List.append_assoc, ← hdrop, List.take_append_drop]
  have hlt : count < f.definition.parameters.length := by
    by_contra hle
    rw [List.drop_of_length_le (Nat.le_of_not_lt hle)] at hp
    cases hp
  refine hf.exists_default hcount hsplit ?_
  rw [List.length_append, List.length_take]
  omega

end Function

namespace Heap

/-- What a value is passed as: as itself, or, if it is a scalar, as a new object of this value. -/
structure PassedAs (h : Heap) (r s : Ref) (h' : Heap) : Prop where
  shared : (h.value r).isScalar = false → s = r
  copied : (h.value r).isScalar = true →
    h.size ≤ s.index ∧ s.index < h'.size ∧ h'.value s = h.value r

namespace PassedAs

variable {h h' h'' : Heap} {r s : Ref}

theorem mono (hpassed : h.PassedAs r s h') (hkept : h'.KeepsScalars h'') :
    h.PassedAs r s h'' := by
  refine ⟨hpassed.shared, ?_⟩
  intro hr
  obtain ⟨hnew, hin, hvalue⟩ := hpassed.copied hr
  refine ⟨hnew, Nat.lt_of_lt_of_le hin hkept.size, ?_⟩
  rw [← hvalue] at hr ⊢
  exact hkept.values s hin hr

/-- What is passed later is passed from the first heap as well. -/
theorem of_kept (hpassed : h'.PassedAs r s h'') (hkept : h.KeepsScalars h')
    (hr : r.index < h.size) : h.PassedAs r s h'' := by
  constructor
  · intro hscalar
    exact hpassed.shared (hkept.others r hscalar)
  · intro hscalar
    have hvalue : h'.value r = h.value r := hkept.values r hr hscalar
    rw [← hvalue] at hscalar ⊢
    obtain ⟨hnew, hin⟩ := hpassed.copied hscalar
    exact ⟨Nat.le_trans hkept.size hnew, hin⟩

theorem stored (h : Heap) (r : Ref) : h.PassedAs r (h.stored r).1 (h.stored r).2 := by
  constructor
  · intro hr
    rw [stored_of_not_isScalar hr]
  · intro hr
    rw [stored_of_isScalar hr]
    refine ⟨Nat.le_refl _, ?_, h.value_new_self _⟩
    rw [size_new]
    exact Nat.lt_succ_self _

end PassedAs

end Heap

/-! ## Bindings of arguments -/

namespace Engine

variable {e e' : Engine} {f : Function} {frame : FrameId} {p : String} {r : Ref}

/-- The arguments that are bound in a frame, in the order in which they were. -/
def argumentsIn (e : Engine) (frame : FrameId) : List (String × Ref) :=
  (e.tableAt (.arguments frame)).entries

def withArgument (e : Engine) (frame : FrameId) (name : String) (r : Ref) : Engine :=
  e.changeTable (·.insert name r) (.arguments frame)

theorem withArgument_heap (e : Engine) (name : String) (r : Ref) :
    (e.withArgument frame name r).heap = e.heap := changeTable_heap _ _ _

theorem frames_size_withArgument (e : Engine) (name : String) (r : Ref) :
    (e.withArgument frame name r).frames.size = e.frames.size := frames_size_changeTable _ _ _

theorem tableAt_withArgument (he : frame.index < e.frames.size) (name : String) (r : Ref) :
    (e.withArgument frame name r).tableAt (.arguments frame) =
      (e.tableAt (.arguments frame)).insert name r := by
  have hplace : e.HasPlace (.arguments frame) := he
  exact tableAt_changeTable_self hplace _

/-- An argument is bound to a new object. -/
def withNewArgument (e : Engine) (frame : FrameId) (name : String) (v : Value) : Engine :=
  (e.withHeap (e.heap.new v).2).withArgument frame name (e.heap.new v).1

section NewArgument

variable (e) (name : String) (v : Value)

theorem withNewArgument_heap : (e.withNewArgument frame name v).heap = (e.heap.new v).2 :=
  withArgument_heap _ _ _

theorem frames_size_withNewArgument :
    (e.withNewArgument frame name v).frames.size = e.frames.size := frames_size_withArgument _ _ _

theorem tableAt_withNewArgument (he : frame.index < e.frames.size) :
    (e.withNewArgument frame name v).tableAt (.arguments frame) =
      (e.tableAt (.arguments frame)).insert name (e.heap.new v).1 := tableAt_withArgument he _ _

theorem extends_withNewArgument : e.heap.Extends (e.withNewArgument frame name v).heap := by
  rw [withNewArgument_heap]
  exact .new e.heap v

/-- The new object keeps its value when others are added. -/
theorem value_withNewArgument {h : Heap} (hgrows : (e.withNewArgument frame name v).heap.Extends h) :
    h.value (e.heap.new v).1 = v := by
  rw [withNewArgument_heap] at hgrows
  have hin : (e.heap.new v).1.index < (e.heap.new v).2.size := by
    rw [Heap.size_new]
    exact Nat.lt_succ_self _
  exact (congrArg Cell.value (hgrows.cell _ hin)).trans (e.heap.value_new_self v)

end NewArgument

/-- A parameter is bound to the object that is stored for a value. A lambda finds it in its locals
as well. -/
def withParameter (e : Engine) (f : Function) (frame : FrameId) (p : String) (r : Ref) : Engine :=
  let s := (e.heap.stored r).1
  let bound := (e.withHeap (e.heap.stored r).2).withArgument frame p s
  if f.isLambda then bound.changeTable (·.insert p s) (.locals frame) else bound

theorem withParameter_heap : (e.withParameter f frame p r).heap = (e.heap.stored r).2 := by
  unfold withParameter
  dsimp only
  split <;> simp only [changeTable_heap, withArgument_heap, withHeap]

theorem frames_size_withParameter :
    (e.withParameter f frame p r).frames.size = e.frames.size := by
  unfold withParameter
  dsimp only
  split <;> simp only [frames_size_changeTable, frames_size_withArgument, withHeap]

theorem argumentsIn_withParameter (he : frame.index < e.frames.size)
    (hp : p ∉ (e.argumentsIn frame).map (·.1)) :
    (e.withParameter f frame p r).argumentsIn frame =
      e.argumentsIn frame ++ [(p, (e.heap.stored r).1)] := by
  have hbound : ((e.withHeap (e.heap.stored r).2).withArgument frame p
      (e.heap.stored r).1).tableAt (.arguments frame) =
        (e.tableAt (.arguments frame)).insert p (e.heap.stored r).1 := tableAt_withArgument he _ _
  have htable : (e.withParameter f frame p r).tableAt (.arguments frame) =
      (e.tableAt (.arguments frame)).insert p (e.heap.stored r).1 := by
    unfold withParameter
    dsimp only
    split
    · rw [tableAt_changeTable_of_ne _ _ Place.noConfusion, hbound]
    · exact hbound
  unfold argumentsIn
  rw [htable]
  exact Table.insertIn_of_not_mem hp

theorem argumentsIn_opening (e : Engine) (id : FunctionId) (f : Function)
    (receiver : Option Ref) : (e.opening id f receiver).argumentsIn ⟨e.frames.size⟩ = [] := by
  have hframe := e.frame?_new ⟨id, .empty, Run.firstLocals e.heap f receiver, f.closure⟩
  exact congrArg (fun found : Option Frame =>
    ((found.map Frame.arguments).getD Table.empty).entries) hframe

theorem preserves_withParameter : e.Preserves (fun _ => False) (e.withParameter f frame p r) := by
  have hbound := (Preserves.stored e r).trans
    (.changeAny _ (·.insert p (e.heap.stored r).1) (.arguments frame))
  unfold withParameter
  dsimp only
  split
  · exact hbound.trans (.changeAny _ _ _)
  · exact hbound

end Engine

namespace Run

/-! ## Parameters -/

section Parameters

variable (eval : Context → Expr → Run Ref) (f : Function) (frame : FrameId)

/-- The parameters are bound one after the other, after those that are bound before: to an argument
as long as there is one, and then to the value of the default. The row comes out in the end, if no
default stops short. -/
inductive Fills : List (String × Ref) → List String → List Ref → Engine →
    Except Stop (List (String × Ref)) → Engine → Prop where
  | done {before : List (String × Ref)} {rs : List Ref} {e : Engine}
      (hbefore : e.argumentsIn frame = before) : Fills before [] rs e (.ok before) e
  | given {before : List (String × Ref)} {p : String} {parameters : List String} {r : Ref}
      {rs : List Ref} {e e' : Engine} {ended : Except Stop (List (String × Ref))}
      (hbefore : e.argumentsIn frame = before)
      (hrest : Fills (before ++ [(p, (e.heap.stored r).1)]) parameters rs
        (e.withParameter f frame p r) ended e') :
      Fills before (p :: parameters) (r :: rs) e ended e'
  | default {before : List (String × Ref)} {p : String} {parameters : List String} {x : Expr}
      {r : Ref} {e e₁ e' : Engine} {ended : Except Stop (List (String × Ref))}
      (hbefore : e.argumentsIn frame = before) (hx : f.defaults.find? p = some x)
      (heval : eval ⟨f.script, some frame⟩ x e = .ok r e₁)
      (hrest : Fills (before ++ [(p, (e₁.heap.stored r).1)]) parameters []
        (e₁.withParameter f frame p r) ended e') :
      Fills before (p :: parameters) [] e ended e'
  | raised {before : List (String × Ref)} {p : String} {parameters : List String} {x : Expr}
      {stop : Stop} {e e' : Engine} (hbefore : e.argumentsIn frame = before)
      (hx : f.defaults.find? p = some x)
      (heval : eval ⟨f.script, some frame⟩ x e = .error stop e') :
      Fills before (p :: parameters) [] e (.error stop) e'

end Parameters

section Filled

variable {f : Function} {frame : FrameId} {before entries : List (String × Ref)}
  {parameters : List String} {rs : List Ref} {e e' : Engine}
  {ended : Except Stop (List (String × Ref))}

theorem ends_bindParameter {p : String} {r : Ref} {rest : Run Unit} {answer : Except Stop Unit}
    (hrest : rest.Ends (e.withParameter f frame p r) answer e') :
    (do
      bindParameter frame f.isLambda p (← stored r)
      rest).Ends e answer e' := by
  have hstored : (stored r).Ends e (.ok (e.heap.stored r).1) (e.withHeap (e.heap.stored r).2) :=
    ends_ok_iff.2 rfl
  have hbound : (bindParameter frame f.isLambda p (e.heap.stored r).1).Ends
      (e.withHeap (e.heap.stored r).2) (.ok ()) (e.withParameter f frame p r) := by
    apply ends_ok_iff.2
    unfold bindParameter Engine.withParameter
    cases f.isLambda <;> rfl
  exact hstored.bind (hbound.bind hrest)

/-- The induction is on the parameters. Where a default is evaluated, the frame holds the row so
far, and the evaluation keeps it. -/
theorem exists_fills (he : frame.index < e.frames.size) (hbefore : e.argumentsIn frame = before)
    (hdistinct : (before.map (·.1) ++ parameters).Nodup)
    (hdefaults : ∀ p ∈ parameters.drop rs.length, ∃ x, f.defaults.find? p = some x) :
    ∃ ended e', Fills (Interp.ofFuel host fuel).eval f frame before parameters rs e ended e' ∧
      (bindParameters (Interp.ofFuel host fuel).eval f frame parameters rs).Ends e
        (ended.map fun _ => ()) e' := by
  induction parameters generalizing rs e before with
  | nil => exact ⟨.ok before, e, .done hbefore, rfl⟩
  | cons p rest ih =>
    -- once this parameter is bound, by a given argument or by its default, the rest is filled
    have hnext {e₁ : Engine} (he₁ : frame.index < e₁.frames.size)
        (hbefore₁ : e₁.argumentsIn frame = before) (r : Ref) {rs : List Ref}
        (hdefaults : ∀ q ∈ rest.drop rs.length, ∃ x, f.defaults.find? q = some x) :
        ∃ ended e', Fills (Interp.ofFuel host fuel).eval f frame
            (before ++ [(p, (e₁.heap.stored r).1)]) rest rs (e₁.withParameter f frame p r)
            ended e' ∧
          (bindParameters (Interp.ofFuel host fuel).eval f frame rest rs).Ends
            (e₁.withParameter f frame p r) (ended.map fun _ => ()) e' := by
      have hp : p ∉ (e₁.argumentsIn frame).map (·.1) := by
        intro hin
        rw [hbefore₁] at hin
        exact (List.nodup_append.1 hdistinct).2.2 _ hin _ List.mem_cons_self rfl
      refine ih ?_ ?_ ?_ hdefaults
      · rwa [Engine.frames_size_withParameter]
      · rw [Engine.argumentsIn_withParameter he₁ hp, hbefore₁]
      · simpa using hdistinct
    unfold bindParameters
    cases rs with
    | cons r rs =>
      obtain ⟨ended, e', hfills, hends⟩ := hnext he hbefore r (by simpa using hdefaults)
      refine ⟨ended, e', .given hbefore hfills, ?_⟩
      have hgiven : (pure r : Run Ref).Ends e (.ok r) e := ends_ok_iff.2 rfl
      exact hgiven.bind (ends_bindParameter hends)
    | nil =>
      obtain ⟨x, hx⟩ := hdefaults p (by simp)
      rw [hx]
      cases heval : (Interp.ofFuel host fuel).eval ⟨f.script, some frame⟩ x e with
      | error stop e₁ =>
        exact ⟨.error stop, e₁, .raised hbefore hx heval, (ends_error_iff.2 heval).bind_error⟩
      | ok r e₁ =>
        have hkept : e.Preserves (· = frame) e₁ := by
          apply preserves_of_eval _ (ends_ok_iff.2 heval)
          rintro _ rfl
          exact he
        have hbefore₁ : e₁.argumentsIn frame = before := by
          unfold Engine.argumentsIn
          rw [hkept.arguments frame rfl]
          exact hbefore
        have hrest : ∀ q ∈ rest.drop ([] : List Ref).length, ∃ y, f.defaults.find? q = some y := by
          intro q hq
          exact hdefaults q (by simpa using .inr hq)
        obtain ⟨ended, e', hfills, hends⟩ :=
          hnext (Nat.lt_of_lt_of_le he hkept.frames) hbefore₁ r hrest
        exact ⟨ended, e', .default hbefore hx heval hfills,
          (ends_ok_iff.2 heval).bind (ends_bindParameter hends)⟩

namespace Fills

variable {eval : Context → Expr → Run Ref}

/-- The row goes on with the parameters, and it is what the frame holds in the end. -/
theorem exists_row (h : Fills eval f frame before parameters rs e (.ok entries) e') :
    ∃ row, entries = before ++ row ∧ row.map (·.1) = parameters ∧
      e'.argumentsIn frame = entries := by
  generalize hended : Except.ok entries = ended at h
  induction h with
  | done hbefore =>
    cases hended
    exact ⟨[], (List.append_nil _).symm, rfl, hbefore⟩
  | given _ _ ih | default _ _ _ _ ih =>
    obtain ⟨row, hentries, hnames, hbound⟩ := ih hended
    rw [List.append_assoc] at hentries
    exact ⟨_, hentries, congrArg _ hnames, hbound⟩
  | raised => cases hended

theorem preserves
    (h : Fills (Interp.ofFuel host fuel).eval f frame before parameters rs e ended e') :
    e.Preserves (fun _ => False) e' := by
  induction h with
  | done => exact .refl _
  | given _ _ ih => exact Engine.preserves_withParameter.trans ih
  | default _ _ heval _ ih =>
    have hvalue := preserves_of_eval (fun _ => False.elim) (ends_ok_iff.2 heval)
    exact hvalue.trans (Engine.preserves_withParameter.trans ih)
  | raised _ _ heval => exact preserves_of_eval (fun _ => False.elim) (ends_error_iff.2 heval)

/-- The induction is on the row. An argument that is passed keeps its value while the parameters
after it are bound. -/
theorem passed
    (h : Fills (Interp.ofFuel host fuel).eval f frame before parameters rs e (.ok entries) e')
    {k : Nat} {r : Ref} {entry : String × Ref} (hk : rs[k]? = some r)
    (hentry : entries[before.length + k]? = some entry) (hr : r.index < e.heap.size) :
    e.heap.PassedAs r entry.2 e'.heap := by
  generalize hended : Except.ok entries = ended at h
  induction h generalizing k with
  | done =>
    cases hended
    rw [List.getElem?_eq_none (Nat.le_add_right _ _)] at hentry
    cases hentry
  | @given before p parameters r rs e e' ended hbefore hrest ih =>
    subst hended
    cases k with
    | zero =>
      cases hk
      obtain ⟨row, rfl, -⟩ := hrest.exists_row
      obtain rfl : (p, (e.heap.stored r).1) = entry := by simpa using hentry
      apply (Heap.PassedAs.stored e.heap r).mono
      rw [← Engine.withParameter_heap]
      exact hrest.preserves.scalars
    | succ k =>
      have hkept := (Engine.preserves_withParameter : e.Preserves _ (e.withParameter f frame p r))
      refine (ih hk ?_ (Nat.lt_of_lt_of_le hr hkept.scalars.size) rfl).of_kept hkept.scalars hr
      rw [List.length_append, List.length_singleton, Nat.add_assoc, Nat.add_comm 1 k]
      exact hentry
  | default | raised => cases hk

end Fills

end Filled

/-! ## Further arguments -/

/-- The names that so many further arguments are bound to. -/
def extraNames (count : Nat) : List String :=
  "0" :: "000" :: (List.range count).map fun k => Number.toText (k + 1 : Nat)

section Extras

variable {frame : FrameId} {e : Engine} {rs : List Ref}

theorem toText_ne_zeros (n : Nat) : Number.toText n ≠ "000" := by
  intro heq
  have hdigits : Nat.toDigits 10 n = ['0', '0', '0'] := by
    have hlist := congrArg String.toList heq
    rw [Number.toText, if_neg (Int.not_lt.2 (Int.natCast_nonneg n))] at hlist
    simpa using hlist
  exact absurd (Json.toDigits_eq_zero_cons hdigits).2 (by decide)

theorem exists_bindExtras (items : List Ref) (position : Nat) (he : frame.index < e.frames.size) :
    ∃ e', bindExtras frame position items e = .ok () e' ∧ e'.heap = e.heap ∧
      (∀ k s, items[k]? = some s →
        (e'.tableAt (.arguments frame)).find? (Number.toText (position + k : Nat)) = some s) ∧
      ∀ name, (∀ k < items.length, name ≠ Number.toText (position + k : Nat)) →
        (e'.tableAt (.arguments frame)).find? name =
          (e.tableAt (.arguments frame)).find? name := by
  induction items generalizing position e with
  | nil => exact ⟨e, rfl, rfl, nofun, fun _ _ => rfl⟩
  | cons r rest ih =>
    let name := Number.toText position
    have htable := Engine.tableAt_withArgument he name r
    have hfirst : bindArgument frame name r e = .ok () (e.withArgument frame name r) := rfl
    have hin : frame.index < (e.withArgument frame name r).frames.size := by
      rwa [Engine.frames_size_withArgument]
    obtain ⟨e', hrun, hheap, hpositions, hothers⟩ := ih (position + 1) hin
    refine ⟨e', ?_, hheap.trans (e.withArgument_heap name r), ?_, ?_⟩
    · unfold bindExtras
      rw [bind_of_ok hfirst]
      exact hrun
    · intro k s hs
      cases k with
      | zero =>
        cases hs
        have hlater : ∀ j < rest.length, name ≠ Number.toText (position + 1 + j : Nat) := by
          intro j _ heq
          have hsame := Number.toText_inj heq
          omega
        rw [Nat.add_zero, hothers name hlater, htable]
        exact Table.find?_insert_self _ _ _
      | succ k =>
        rw [← Nat.add_assoc, Nat.add_right_comm]
        exact hpositions k s hs
    · intro other hother
      have hlater : ∀ j < rest.length, other ≠ Number.toText (position + 1 + j : Nat) := by
        intro j hj
        rw [Nat.add_assoc, Nat.add_comm 1 j]
        exact hother (j + 1) (Nat.succ_lt_succ hj)
      rw [hothers other hlater, htable]
      exact Table.find?_insert_of_ne (hother 0 (Nat.succ_pos _)) _ _

theorem exists_passed (rs : List Ref) (e : Engine) :
    ∃ items e', storedAll rs e = .ok items e' ∧ e.OnlyAdds e' ∧
      List.Forall₂ (fun r s => r.index < e.heap.size → e.heap.PassedAs r s e'.heap) rs items := by
  induction rs generalizing e with
  | nil => exact ⟨[], e, rfl, .refl e, .nil⟩
  | cons r rest ih =>
    have hfirst : stored r e = .ok (e.heap.stored r).1 (e.withHeap (e.heap.stored r).2) := rfl
    have hextends := Heap.Extends.stored e.heap r
    obtain ⟨items, e', hrun, hadds, hpassed⟩ := ih (e.withHeap (e.heap.stored r).2)
    refine ⟨(e.heap.stored r).1 :: items, e', ?_,
      Engine.OnlyAdds.trans (.withHeap hextends) hadds, .cons ?_ (hpassed.imp ?_)⟩
    · unfold storedAll
      rw [bind_of_ok hfirst, bind_of_ok hrun]
      rfl
    · intro _
      exact (Heap.PassedAs.stored e.heap r).mono (.of_extends hadds.heap)
    · intro other s hother hin
      exact (hother (Nat.lt_of_lt_of_le hin hextends.size)).of_kept (.of_extends hextends) hin

/-- The further arguments, as they are bound: their number, the List of them, and each of them by
its position. -/
structure HasExtras (h : Heap) (frame : FrameId) (rs : List Ref) (count list : Ref)
    (items : List Ref) (e : Engine) : Prop where
  passed : List.Forall₂ (fun r s => r.index < h.size → h.PassedAs r s e.heap) rs items
  number : (e.tableAt (.arguments frame)).find? "0" = some count
  counted : e.heap.value count = .ofInt rs.length
  row : (e.tableAt (.arguments frame)).find? "000" = some list
  listed : e.heap.value list = .list items
  positions : ∀ k s, items[k]? = some s →
    (e.tableAt (.arguments frame)).find? (Number.toText (k + 1 : Nat)) = some s

theorem exists_extras (rs : List Ref) (he : frame.index < e.frames.size) :
    ∃ count list items e',
      (do
        let extras ← storedAll rs
        bindArgument frame "0" (← newInt extras.length)
        bindArgument frame "000" (← new (.list extras))
        bindExtras frame 1 extras) e = .ok () e' ∧
      e.heap.Extends e'.heap ∧ HasExtras e.heap frame rs count list items e' ∧
      ∀ name ∉ extraNames rs.length, (e'.tableAt (.arguments frame)).find? name =
        (e.tableAt (.arguments frame)).find? name := by
  obtain ⟨items, e₁, hstored, hadds, hpassed⟩ := exists_passed rs e
  have hlength : items.length = rs.length := hpassed.length_eq.symm
  have hframes : e₁.frames = e.frames := by rw [hadds.rest]
  have htables : e₁.tableAt (.arguments frame) = e.tableAt (.arguments frame) := by
    rw [hadds.rest]
    rfl
  let e₂ := e₁.withNewArgument frame "0" (.ofInt items.length)
  let e₃ := e₂.withNewArgument frame "000" (.list items)
  have he₁ : frame.index < e₁.frames.size := by rwa [hframes]
  have he₂ : frame.index < e₂.frames.size := by rwa [Engine.frames_size_withNewArgument]
  have he₃ : frame.index < e₃.frames.size := by rwa [Engine.frames_size_withNewArgument]
  obtain ⟨e', hrun, hheap, hpositions, hothers⟩ := exists_bindExtras items 1 he₃
  let count := (e₁.heap.new (.ofInt items.length)).1
  let list := (e₂.heap.new (.list items)).1
  have htable : e₃.tableAt (.arguments frame) =
      ((e.tableAt (.arguments frame)).insert "0" count).insert "000" list := by
    rw [Engine.tableAt_withNewArgument _ _ _ he₂, Engine.tableAt_withNewArgument _ _ _ he₁,
      htables]
  have hlast : e₃.heap.Extends e'.heap := hheap ▸ .refl _
  have hgrows : e₂.heap.Extends e'.heap := (e₂.extends_withNewArgument _ _).trans hlast
  have hgrows' : e₁.heap.Extends e'.heap := (e₁.extends_withNewArgument _ _).trans hgrows
  -- neither name is that of a position
  have hnumber : (e'.tableAt (.arguments frame)).find? "0" = some count := by
    rw [hothers "0", htable, Table.find?_insert_of_ne (by decide), Table.find?_insert_self]
    intro k _ heq
    have hzero : (0 : Int) = (1 + k : Nat) := Number.toText_inj heq
    omega
  have hrow : (e'.tableAt (.arguments frame)).find? "000" = some list := by
    rw [hothers "000", htable, Table.find?_insert_self]
    intro k _ heq
    exact toText_ne_zeros _ heq.symm
  refine ⟨count, list, items, e', ?_, hadds.heap.trans hgrows', ?_, ?_⟩
  · rw [bind_of_ok hstored]
    exact hrun
  · refine ⟨hpassed.imp ?_, hnumber, ?_, hrow, e₂.value_withNewArgument _ _ hlast, ?_⟩
    · intro r s hrs hr
      exact (hrs hr).mono (.of_extends hgrows')
    · rw [← hlength]
      exact e₁.value_withNewArgument _ _ hgrows
    · intro k s hs
      rw [Nat.add_comm k 1]
      exact hpositions k s hs
  · intro name hname
    obtain ⟨hfirst, hname⟩ := not_or.1 (mt List.mem_cons.2 hname)
    obtain ⟨hsecond, hname⟩ := not_or.1 (mt List.mem_cons.2 hname)
    rw [hothers name, htable, Table.find?_insert_of_ne hsecond, Table.find?_insert_of_ne hfirst]
    intro k hk heq
    apply hname
    rw [heq, Nat.add_comm, ← hlength]
    exact List.mem_map_of_mem (List.mem_range.2 hk)

end Extras

/-! ## Calls -/

section Calls

variable {f : Function} {frame : FrameId} {rs : List Ref} {e : Engine} {id : FunctionId}
  {receiver : Option Ref}

/-- What is bound when the body begins: each parameter once, in their order, and the further
arguments of a function that takes them. These win over a parameter that has the name of one. -/
structure Bound (f : Function) (frame : FrameId) (rs : List Ref) (h : Heap)
    (entries : List (String × Ref)) (e : Engine) : Prop where
  names : entries.map (·.1) = f.definition.parameters
  given : ∀ (k : Nat) (r : Ref) (entry : String × Ref), rs[k]? = some r →
    entries[k]? = some entry → r.index < h.size → h.PassedAs r entry.2 e.heap
  alone : f.definition.variadic = false → e.argumentsIn frame = entries
  kept : f.definition.variadic = true → ∀ entry ∈ entries,
    entry.1 ∉ extraNames (rs.length - f.definition.parameters.length) →
      (e.tableAt (.arguments frame)).find? entry.1 = some entry.2
  extras : f.definition.variadic = true → ∃ count list items,
    HasExtras h frame (rs.drop f.definition.parameters.length) count list items e

/-- All arguments of a call are bound, or the default of a parameter stops short. -/
theorem bindArguments_cases (host : Host) (fuel : Nat) (e : Engine) (id : FunctionId)
    (receiver : Option Ref) (hdistinct : f.definition.parameters.Nodup)
    (hdefaults : ∀ p ∈ f.definition.parameters.drop rs.length, ∃ x, f.defaults.find? p = some x) :
    (∃ stop e', Fills (Interp.ofFuel host fuel).eval f ⟨e.frames.size⟩ [] f.definition.parameters rs
        (e.opening id f receiver) (.error stop) e' ∧
      bindArguments (Interp.ofFuel host fuel).eval f ⟨e.frames.size⟩ rs (e.opening id f receiver) =
        .error stop e') ∨
    ∃ entries e₁ e', Fills (Interp.ofFuel host fuel).eval f ⟨e.frames.size⟩ []
        f.definition.parameters rs (e.opening id f receiver) (.ok entries) e₁ ∧
      bindArguments (Interp.ofFuel host fuel).eval f ⟨e.frames.size⟩ rs (e.opening id f receiver) =
        .ok () e' ∧
      Bound f ⟨e.frames.size⟩ rs e.heap entries e' := by
  have he : (⟨e.frames.size⟩ : FrameId).index < (e.opening id f receiver).frames.size := by
    simp [Engine.opening, Engine.invoke, Engine.enter, Engine.note]
  obtain ⟨ended, e₁, hfills, hends⟩ :=
    exists_fills he (e.argumentsIn_opening id f receiver) (by simpa using hdistinct) hdefaults
  unfold bindArguments
  cases ended with
  | error stop => exact .inl ⟨stop, e₁, hfills, bind_of_error (ends_error_iff.1 hends)⟩
  | ok entries =>
    rw [bind_of_ok (ends_ok_iff.1 hends)]
    obtain ⟨_, rfl, hnames, hentries⟩ := hfills.exists_row
    have hkept := hfills.preserves
    have hgiven : ∀ (k : Nat) (r : Ref) (entry : String × Ref), rs[k]? = some r →
        entries[k]? = some entry → r.index < e.heap.size →
          e.heap.PassedAs r entry.2 e₁.heap := by
      intro k r entry hr hentry hin
      exact hfills.passed hr (by simpa using hentry) hin
    cases hvariadic : f.definition.variadic with
    | false =>
      have hnot (htrue : f.definition.variadic = true) : False :=
        Bool.noConfusion (hvariadic.symm.trans htrue)
      exact .inr ⟨entries, e₁, e₁, hfills, rfl, hnames, hgiven, fun _ => hentries,
        fun htrue => (hnot htrue).elim, fun htrue => (hnot htrue).elim⟩
    | true =>
      have hnot (hfalse : f.definition.variadic = false) : False :=
        Bool.noConfusion (hvariadic.symm.trans hfalse)
      obtain ⟨count, list, items, e', hrun, hgrows, hextras, hothers⟩ :=
        exists_extras (rs.drop f.definition.parameters.length)
          (Nat.lt_of_lt_of_le he hkept.frames)
      rw [List.length_drop] at hothers
      -- a parameter loses its object only to a further argument of the same name
      refine .inr ⟨entries, e₁, e', hfills, hrun, hnames, ?_, fun hfalse => (hnot hfalse).elim, ?_,
        ?_⟩
      · intro k r entry hr hentry hin
        exact (hgiven k r entry hr hentry hin).mono (.of_extends hgrows)
      · intro _ entry hentry hname
        rw [hothers _ hname, Table.find?_eq_some_iff]
        rw [← hentries] at hentry
        exact hentry
      · intro _
        refine ⟨count, list, items, { hextras with passed := hextras.passed.imp ?_ }⟩
        intro r s hrs hr
        exact (hrs (Nat.lt_of_lt_of_le hr hkept.scalars.size)).of_kept hkept.scalars hr

/-- The count of the arguments decides, once there is room for the call and a receiver if one is
needed. -/
theorem checkCall_eq (hlast : f.DefaultsLast) (hdistinct : f.definition.parameters.Nodup)
    (hroom : e.callDepth < e.config.callDepth)
    (hreceiver : f.definition.dict = true → receiver.isSome = true) (count : Nat) :
    checkCall f count receiver.isSome e =
      if count < f.required.length then .error (.ofCause (.notEnoughArguments f.displayName)) e
      else if f.definition.parameters.length < count ∧ f.definition.variadic = false then
        .error (.ofCause (.tooManyArguments f.displayName)) e
      else .ok () e := by
  have hneeded : ¬(f.definition.dict = true ∧ receiver.isSome = false) := by
    rintro ⟨hdict, hnone⟩
    exact Bool.noConfusion (hnone.symm.trans (hreceiver hdict))
  unfold checkCall
  rw [bind_of_ok (get_eq e)]
  simp only [Bool.and_eq_true, decide_eq_true_eq, Bool.not_eq_true', if_neg (Nat.not_le.2 hroom),
    if_neg hneeded, hlast.requiredCount_eq hdistinct, Int.ofNat_lt]
  by_cases hfew : count < f.required.length
  · rw [if_pos hfew, if_pos hfew]
    rfl
  · rw [if_neg hfew, if_neg hfew]
    by_cases hmany : f.definition.parameters.length < count ∧ f.definition.variadic = false
    · rw [if_pos hmany, if_pos hmany]
      rfl
    · rw [if_neg hmany, if_neg hmany]
      rfl

/-- How a call with enough arguments, and not too many, ends. If a default stops short, so does the
call. If none does, the body runs once everything is bound. -/
inductive Receives (i : Interp) (id : FunctionId) (f : Function) (rs : List Ref)
    (receiver : Option Ref) (e : Engine) : Result Stop Engine Ref → Prop where
  | raised {stop : Stop} {e₁ : Engine}
      (hfills : Fills i.eval f ⟨e.frames.size⟩ [] f.definition.parameters rs
        (e.opening id f receiver) (.error stop) e₁) :
      Receives i id f rs receiver e (.error stop (e.leave e₁))
  | bound {entries : List (String × Ref)} {e₁ e₂ : Engine}
      (hfills : Fills i.eval f ⟨e.frames.size⟩ [] f.definition.parameters rs
        (e.opening id f receiver) (.ok entries) e₁)
      (hbind : bindArguments i.eval f ⟨e.frames.size⟩ rs (e.opening id f receiver) = .ok () e₂)
      (hbound : Bound f ⟨e.frames.size⟩ rs e.heap entries e₂) :
      Receives i id f rs receiver e
        ((afterwards (block i.exec ⟨f.script, some ⟨e.frames.size⟩⟩ f.definition.body) e.leave >>=
          resultOf) (e₂.noteCall ⟨e.frames.size⟩))

theorem receives_callDefined (hf : e.function? id = some f) (hlast : f.DefaultsLast)
    (hdistinct : f.definition.parameters.Nodup)
    (hcheck : checkCall f rs.length receiver.isSome e = .ok () e)
    (hcount : f.requiredCount ≤ rs.length) :
    Receives (.ofFuel host fuel) id f rs receiver e
      (callDefined (.ofFuel host fuel) id rs receiver e) := by
  have hdefaults : ∀ p ∈ f.definition.parameters.drop rs.length,
      ∃ x, f.defaults.find? p = some x := by
    intro p hp
    exact hlast.exists_default_of_mem_drop hcount hp
  rw [callDefined_of_checked hf receiver hcheck]
  rcases bindArguments_cases host fuel e id receiver hdistinct hdefaults with
    ⟨stop, e₁, hfills, hbind⟩ | ⟨entries, e₁, e₂, hfills, hbind, hbound⟩
  · rw [invocation_of_unbound hbind]
    exact .raised hfills
  · rw [invocation_of_bound hbind]
    exact .bound hfills hbind hbound

/-- Too few arguments are refused, and so are too many, unless the function takes any number. All
others are bound from left to right, and a parameter that gets none is bound to its default, which
there is: no function is made with defaults in other places (`Function.defaultsLast_make`,
`Function.defaultsLast_lambda`). -/
theorem callDefined_receives (hf : e.function? id = some f) (hlast : f.DefaultsLast)
    (hdistinct : f.definition.parameters.Nodup) (hroom : e.callDepth < e.config.callDepth)
    (hreceiver : f.definition.dict = true → receiver.isSome = true) :
    (rs.length < f.required.length →
      callDefined (.ofFuel host fuel) id rs receiver e =
        .error (.ofCause (.notEnoughArguments f.displayName)) e) ∧
    (f.definition.parameters.length < rs.length → f.definition.variadic = false →
      callDefined (.ofFuel host fuel) id rs receiver e =
        .error (.ofCause (.tooManyArguments f.displayName)) e) ∧
    (f.required.length ≤ rs.length →
      f.definition.variadic = true ∨ rs.length ≤ f.definition.parameters.length →
      Receives (.ofFuel host fuel) id f rs receiver e
        (callDefined (.ofFuel host fuel) id rs receiver e)) := by
  have hcheck := checkCall_eq hlast hdistinct hroom hreceiver rs.length
  refine ⟨?_, ?_, ?_⟩
  · intro hfew
    rw [if_pos hfew] at hcheck
    exact callDefined_of_refused hf receiver hcheck
  · intro hmany hfixed
    have hrequired : f.required.length ≤ f.definition.parameters.length :=
      List.length_filter_le _ _
    rw [if_neg (by omega), if_pos ⟨hmany, hfixed⟩] at hcheck
    exact callDefined_of_refused hf receiver hcheck
  · intro henough hfits
    rw [if_neg (Nat.not_lt.2 henough), if_neg] at hcheck
    · apply receives_callDefined hf hlast hdistinct hcheck
      rw [hlast.requiredCount_eq hdistinct]
      exact Int.ofNat_le.2 henough
    · rintro ⟨hmany, hfixed⟩
      rcases hfits with hvariadic | hfits
      · exact Bool.noConfusion (hfixed.symm.trans hvariadic)
      · exact absurd hmany (Nat.not_lt.2 hfits)

/-! ### Two definitions -/

-- nothing is asked of a function that is no lambda
theorem plain_declared (d : Procedure Stmt) (h : false = true) :
    Table.ofList d.defaults = .empty := absurd h Bool.false_ne_true

theorem free_declared (d : Procedure Stmt) (h : false = true) : d.dict = false :=
  absurd h Bool.false_ne_true

/-- A global function of this definition. -/
def declared (d : Procedure Stmt) : Function :=
  ⟨"F", .globals, d, .ofList d.defaults, none, none, false, false, plain_declared d,
    free_declared d⟩

/-- Three Numbers, and functions to call with them. -/
def declaring (fs : List Function) : Engine :=
  { (Session.blank .standard).withHeap
      ⟨#[.fresh (.number 10), .fresh (.number 20), .fresh (.number 30)]⟩ with
    functions := fs.toArray }

/-- The first parameter is the default of the second one. -/
def paired (variadic : Bool) : Procedure Stmt :=
  ⟨["x", "y"], [("y", .var ⟨some .arguments, "x"⟩)], [], variadic, false, false, false⟩

theorem callDefined_receives_paired :
    let plain := declared (paired false)
    let gathering := declared (paired true)
    let e := declaring [plain, gathering]
    (plain.DefaultsLast ∧ gathering.DefaultsLast ∧ plain.required = ["x"]) ∧
    callDefined (.ofFuel ⟨[]⟩ 2) ⟨0⟩ [] none e = .error (.ofCause (.notEnoughArguments "F")) e ∧
    callDefined (.ofFuel ⟨[]⟩ 2) ⟨0⟩ [⟨0⟩, ⟨1⟩, ⟨2⟩] none e =
      .error (.ofCause (.tooManyArguments "F")) e ∧
    Receives (.ofFuel ⟨[]⟩ 2) ⟨0⟩ plain [⟨0⟩] none e
      (callDefined (.ofFuel ⟨[]⟩ 2) ⟨0⟩ [⟨0⟩] none e) ∧
    Receives (.ofFuel ⟨[]⟩ 2) ⟨1⟩ gathering [⟨0⟩, ⟨1⟩, ⟨2⟩] none e
      (callDefined (.ofFuel ⟨[]⟩ 2) ⟨1⟩ [⟨0⟩, ⟨1⟩, ⟨2⟩] none e) := by
  intro plain gathering e
  have hlast (variadic : Bool) : (declared (paired variadic)).DefaultsLast := by
    have hmake : Function.make "F" .globals (paired variadic) none none =
        .ok (declared (paired variadic)) := rfl
    apply Function.defaultsLast_make hmake
    intro entry hentry
    obtain rfl := List.mem_singleton.1 hentry
    change "y" ∈ ["x", "y"]
    decide
  have hdistinct (variadic : Bool) :
      (declared (paired variadic)).definition.parameters.Nodup := by
    change ["x", "y"].Nodup
    decide
  have hroom : e.callDepth < e.config.callDepth := by decide
  have hplain (rs : List Ref) := @callDefined_receives ⟨[]⟩ 2 plain rs e ⟨0⟩ none rfl (hlast false)
    (hdistinct false) hroom nofun
  have hgathering (rs : List Ref) := @callDefined_receives ⟨[]⟩ 2 gathering rs e ⟨1⟩ none rfl
    (hlast true) (hdistinct true) hroom nofun
  refine ⟨⟨hlast false, hlast true, rfl⟩, ?_, ?_, ?_, ?_⟩
  · exact (hplain []).1 (by decide)
  · exact (hplain [⟨0⟩, ⟨1⟩, ⟨2⟩]).2.1 (by decide) rfl
  · exact (hplain [⟨0⟩]).2.2 (by decide) (.inr (by decide))
  · exact (hgathering [⟨0⟩, ⟨1⟩, ⟨2⟩]).2.2 (by decide) (.inl rfl)

/-- The parameter is named like the position of a further argument. -/
def numbered : Procedure Stmt := ⟨["1"], [], [], true, false, false, false⟩

theorem not_forall_parameters_bound :
    ¬∀ (host : Host) (fuel : Nat) (id : FunctionId) (f : Function) (rs : List Ref)
      (receiver : Option Ref) (e e' : Engine), e.function? id = some f → f.DefaultsLast →
      f.definition.parameters.Nodup → e.callDepth < e.config.callDepth →
      (f.definition.dict = true → receiver.isSome = true) →
      bindArguments (Interp.ofFuel host fuel).eval f ⟨e.frames.size⟩ rs
        (e.opening id f receiver) = .ok () e' →
      ∀ (k : Nat) (p : String) (r : Ref), f.definition.parameters[k]? = some p →
        rs[k]? = some r → r.index < e.heap.size →
          ∃ s, (e'.tableAt (.arguments ⟨e.frames.size⟩)).find? p = some s ∧
            e.heap.PassedAs r s e'.heap := by
  intro hall
  let f := declared numbered
  let e := declaring [f]
  have hdistinct : f.definition.parameters.Nodup := by decide
  have hdefaults : ∀ p ∈ f.definition.parameters.drop [(⟨0⟩ : Ref), ⟨1⟩].length,
      ∃ x, f.defaults.find? p = some x := nofun
  rcases bindArguments_cases ⟨[]⟩ 0 e ⟨0⟩ none hdistinct hdefaults with
    ⟨stop, e', hfills, -⟩ | ⟨entries, e₁, e', -, hbind, hbound⟩
  · cases hfills with
    | given _ hrest => cases hrest
  · obtain ⟨s, hfound, hpassed⟩ := hall ⟨[]⟩ 0 ⟨0⟩ f [⟨0⟩, ⟨1⟩] none e e' rfl ⟨nofun, rfl⟩
      hdistinct (by decide) nofun hbind 0 "1" ⟨0⟩ rfl rfl (by decide)
    obtain ⟨count, list, items, hextras⟩ := hbound.extras rfl
    obtain ⟨t, rest, hextra, -, rfl⟩ := List.forall₂_cons_left_iff.1 hextras.passed
    have hposition := hextras.positions 0 t rfl
    obtain rfl := Option.some.inj (hfound.symm.trans hposition)
    obtain ⟨-, -, hfirst⟩ := hpassed.copied rfl
    obtain ⟨-, -, hsecond⟩ := (hextra (by decide)).copied rfl
    have hsame : (10 : Int) = 20 := Value.number.inj (hfirst.symm.trans hsecond)
    exact absurd hsame (by decide)

end Calls

end Run

end VimL
