import VimL.Proofs.Preserving

/-!
# Loops over items

A loop goes through what its value holds when it starts. Whatever the body does, an item that is
shared is the same object when its round comes, and an item that is a scalar has the same value. So
each round begins with the variable bound to the next item of the first moment, and only the ways
out of a loop make the rounds fewer than the items.
-/

namespace VimL

/-- What a round is about: an object that is shared, or the value of a scalar. -/
inductive Item where
  | shared (r : Ref)
  | scalar (v : Value)

namespace Heap

def item (h : Heap) (r : Ref) : Item :=
  if (h.value r).isScalar then .scalar (h.value r) else .shared r

/-- The items of a List, the characters of a String as Strings, or the bytes of a Blob as
Numbers. -/
def items? (h : Heap) (r : Ref) : Option (List Item) :=
  match h.value r with
  | .list items => some (items.map h.item)
  | .string s => some (s.toList.map fun c => .scalar (.string (String.singleton c)))
  | .blob bytes => some (bytes.map fun b => .scalar (.number b.toNat))
  | _ => none

variable {h h' : Heap} {r : Ref}

theorem item_of_isScalar (hr : (h.value r).isScalar = true) : h.item r = .scalar (h.value r) :=
  if_pos hr

theorem item_of_not_isScalar (hr : (h.value r).isScalar = false) : h.item r = .shared r := by
  unfold item
  rw [hr]
  rfl

theorem KeepsScalars.item_eq (hh : h.KeepsScalars h') (hr : r.index < h.size) :
    h'.item r = h.item r := by
  cases hscalar : (h.value r).isScalar with
  | false => rw [item_of_not_isScalar hscalar, item_of_not_isScalar (hh.others r hscalar)]
  | true =>
    have hvalue := hh.values r hr hscalar
    rw [item_of_isScalar hscalar, item_of_isScalar (hvalue.symm ▸ hscalar), hvalue]

end Heap

namespace Engine

/-- The variable is bound to the item: to the object itself, or to a scalar of this value. -/
def Presents (e : Engine) (c : Context) (v : Variable) (item : Item) : Prop :=
  ∃ s, e.resolve c v.scope v.name = .ok (some s) ∧ e.heap.item s = item

variable {e e' : Engine} {c : Context} {v : Variable} {b : Binding} {r s : Ref}

theorem Stores.presents (h : e.Stores c v r b s e') : e'.Presents c v (e.heap.item r) := by
  refine ⟨s, h.resolves, ?_⟩
  cases hscalar : (e.heap.value r).isScalar with
  | false =>
    obtain ⟨rfl, hheap⟩ := h.shared hscalar
    rw [hheap]
  | true =>
    obtain ⟨-, hcell, -⟩ := h.copied hscalar
    have hvalue : e'.heap.value s = e.heap.value r := by
      rw [Heap.value, hcell]
      rfl
    rw [Heap.item_of_isScalar hscalar, Heap.item_of_isScalar (hvalue.symm ▸ hscalar), hvalue]

end Engine

/-! ## Rounds -/

/-- The loop goes on with the next round. -/
def Signal.goesOn : Signal → Bool
  | .normal | .loopContinue => true
  | _ => false

/-- How a loop over items comes to its end. -/
inductive LoopEnd where
  /-- There are no items left. -/
  | completed
  /-- A cancellation is pending before the next round. -/
  | cancelled
  /-- The variable cannot be bound to the next item. -/
  | unbound (stop : Stop)
  /-- The body ends the loop: by a break, a return or a finish, or because it stops short. -/
  | left (ended : Except Stop Signal)

/-- How the statement ends then. -/
def LoopEnd.ended : LoopEnd → Except Stop Signal
  | .completed | .left (.ok .loopBreak) => .ok .normal
  | .cancelled => .ok .finish
  | .unbound stop => .error stop
  | .left ended => ended

namespace Run

/-- The rounds of a loop: from each of the engines in the row, the body was executed once. -/
inductive Rounds (bindItem : Ref → Run Unit) (body : Run Signal) :
    List Ref → Engine → List Engine → LoopEnd → Engine → Prop where
  | completed (e : Engine) : Rounds bindItem body [] e [] .completed e
  | cancelled {e : Engine} {r : Ref} {rest : List Ref} (hpending : e.interrupted = true) :
      Rounds bindItem body (r :: rest) e [] .cancelled e
  | unbound {e e' : Engine} {r : Ref} {rest : List Ref} {stop : Stop}
      (hgoes : e.interrupted = false) (hbind : bindItem r e = .error stop e') :
      Rounds bindItem body (r :: rest) e [] (.unbound stop) e'
  | left {e start e' : Engine} {r : Ref} {rest : List Ref} {ended : Except Stop Signal}
      (hgoes : e.interrupted = false) (hbind : bindItem r e = .ok () start)
      (hbody : body.Ends start ended e')
      (hleft : ∀ signal, ended = .ok signal → signal.goesOn = false) :
      Rounds bindItem body (r :: rest) e [start] (.left ended) e'
  | round {e start next e' : Engine} {r : Ref} {rest : List Ref} {signal : Signal}
      {starts : List Engine} {last : LoopEnd}
      (hgoes : e.interrupted = false) (hbind : bindItem r e = .ok () start)
      (hbody : body.Ends start (.ok signal) next) (hsignal : signal.goesOn = true)
      (hrest : Rounds bindItem body rest next starts last e') :
      Rounds bindItem body (r :: rest) e (start :: starts) last e'

section Rounds

variable {i : Interp} {c : Context} {bindItem : Ref → Run Unit} {body : List Stmt}

theorem exists_rounds (items : List Ref) (e : Engine) :
    ∃ starts last e', Rounds bindItem (block i.exec c body) items e starts last e' ∧
      (forEach i c bindItem body items).Ends e last.ended e' := by
  induction items generalizing e with
  | nil => exact ⟨[], .completed, e, .completed e, rfl⟩
  | cons r rest ih =>
    have hpending : isInterrupted e = .ok e.interrupted e := rfl
    -- each way to leave a round is an end of the loop, and the other one is where `ih` goes on
    unfold forEach
    cases hgoes : e.interrupted with
    | true =>
      rw [hgoes] at hpending
      exact ⟨[], .cancelled, e, .cancelled hgoes, (ends_ok_iff.2 hpending).bind rfl⟩
    | false =>
      rw [hgoes] at hpending
      have hgo := ends_ok_iff.2 hpending
      cases hbind : bindItem r e with
      | error stop e' =>
        exact ⟨[], .unbound stop, e', .unbound hgoes hbind,
          hgo.bind (ends_error_iff.2 hbind).bind_error⟩
      | ok _ start =>
        have hbound := ends_ok_iff.2 hbind
        obtain ⟨ended, next, hbody⟩ := exists_ends (block i.exec c body) start
        cases ended with
        | error stop =>
          exact ⟨[start], .left (.error stop), next, .left hgoes hbind hbody nofun,
            hgo.bind (hbound.bind hbody.bind_error)⟩
        | ok signal =>
          cases hsignal : signal.goesOn with
          | true =>
            obtain ⟨starts, last, e', hrounds, hends⟩ := ih next
            refine ⟨start :: starts, last, e', .round hgoes hbind hbody hsignal hrounds,
              hgo.bind (hbound.bind (hbody.bind ?_))⟩
            cases signal <;> first | exact hends | cases hsignal
          | false =>
            refine ⟨[start], .left (.ok signal), next, .left hgoes hbind hbody ?_,
              hgo.bind (hbound.bind (hbody.bind ?_))⟩
            · rintro _ ⟨⟩
              exact hsignal
            · cases signal <;> first | rfl | cases hsignal

theorem Rounds.length_eq {m : Run Signal} {items : List Ref} {e e' : Engine}
    {starts : List Engine} (h : Rounds bindItem m items e starts .completed e') :
    starts.length = items.length := by
  generalize hlast : LoopEnd.completed = last at h
  induction h with
  | completed => rfl
  | round _ _ _ _ _ ih => exact congrArg Nat.succ (ih hlast)
  | _ => cases hlast

end Rounds

/-! ## What the rounds begin with -/

section Visits

variable {host : Host} {fuel : Nat} {c : Context} {v : Variable} {body : List Stmt} {e e' : Engine}
  {items : List Ref} {starts : List Engine} {last : LoopEnd}

theorem exists_stores {r : Ref} (he : e.HasContext c) (h : store c v r e = .ok () e') :
    ∃ b s, e.Stores c v r b s e' := by
  obtain ⟨hwritable, p, hplace, rfl⟩ := of_store_ok h
  refine ⟨_, _, Engine.stores_storing (he.hasPlace_of_writePlace hplace) (fun hscope => ?_) hplace r⟩
  have harguments := (Engine.scope_of_writePlace hplace).trans hscope
  have hwritable := Engine.isWritable_of_checkWritable hwritable hplace
  cases p with
  | arguments => cases hwritable
  | _ => cases harguments

theorem preserves_of_store {r : Ref} (h : store c v r e = .ok () e') :
    e.Preserves (fun _ => False) e' := by
  obtain ⟨-, p, -, rfl⟩ := of_store_ok h
  exact (Engine.Preserves.stored e r).trans
    ((Engine.Preserves.changeAny _ _ p).trans (.of_eq (.of_eq rfl rfl rfl) rfl rfl rfl))

/-- The induction is on the rounds. The heap of the first moment is kept apart from the one that a
round begins with, which the rounds before it have changed. -/
theorem Rounds.presents {h : Heap} (hrounds : Rounds (store c v)
      (block (Interp.ofFuel host fuel).exec c body) items e starts last e')
    (he : e.HasContext c) (hkept : h.KeepsScalars e.heap) (hitems : ∀ r ∈ items, r.index < h.size)
    {k : Nat} {start : Engine} (hstart : starts[k]? = some start) :
    ∃ r, items[k]? = some r ∧ start.Presents c v (h.item r) := by
  have hfirst {e start : Engine} {r : Ref} {rest : List Ref} (he : e.HasContext c)
      (hkept : h.KeepsScalars e.heap) (hr : r.index < h.size)
      (hbind : store c v r e = .ok () start) :
      ∃ s, (r :: rest)[0]? = some s ∧ start.Presents c v (h.item s) := by
    obtain ⟨b, s, hstores⟩ := exists_stores he hbind
    exact ⟨r, rfl, hkept.item_eq hr ▸ hstores.presents⟩
  induction hrounds generalizing k with
  | completed | cancelled | unbound => cases hstart
  | left _ hbind =>
    cases k with
    | zero =>
      cases hstart
      exact hfirst he hkept (hitems _ List.mem_cons_self) hbind
    | succ k => cases hstart
  | round _ hbind hbody _ _ ih =>
    cases k with
    | zero =>
      cases hstart
      exact hfirst he hkept (hitems _ List.mem_cons_self) hbind
    | succ k =>
      have hround := (preserves_of_store hbind).trans
        (preserves_of_block (fun _ => False.elim) hbody)
      exact ih (he.mono hround) (hkept.trans hround.scalars)
        (fun s hs => hitems s (List.mem_cons_of_mem _ hs)) hstart

end Visits

/-! ## What a loop goes through -/

/-- New objects with these values. -/
def newEach : List Value → Run (List Ref)
  | [] => pure []
  | v :: rest => do
    let r ← new v
    return r :: (← newEach rest)

theorem newTexts_eq (texts : List String) : Library.newTexts texts = newEach (texts.map .string) := by
  induction texts with
  | nil => rfl
  | cons s rest ih =>
    rw [Library.newTexts, ih]
    rfl

theorem newBytes_eq (bytes : List UInt8) :
    newBytes bytes = newEach (bytes.map fun b => .number b.toNat) := by
  induction bytes with
  | nil => rfl
  | cons b rest ih =>
    have hbyte : Value.ofInt b.toNat = .number b.toNat := by
      have hlt : b.toNat < 256 := b.toNat_lt
      refine congrArg Value.number (Number.wrap_of_inRange ?_)
      unfold Number.InRange Number.minimum Number.maximum
      omega
    rw [newBytes, ih, newInt, hbyte]
    rfl

theorem exists_newEach {α : Type} {f : α → Value} (hf : ∀ a, (f a).isScalar = true) (parts : List α)
    (e : Engine) : ∃ items e', newEach (parts.map f) e = .ok items e' ∧ e.OnlyAdds e' ∧
      (∀ r ∈ items, r.index < e'.heap.size) ∧
      items.map e'.heap.item = parts.map fun a => .scalar (f a) := by
  induction parts generalizing e with
  | nil => exact ⟨[], e, rfl, .refl e, nofun, rfl⟩
  | cons a rest ih =>
    set v := f a with hv
    obtain ⟨items, e', hrest, hadds, hexist, hitems⟩ := ih (e.withHeap (e.heap.new v).2)
    have hnew : new v e = .ok (e.heap.new v).1 (e.withHeap (e.heap.new v).2) := rfl
    have hlt : (e.heap.new v).1.index < (e.heap.new v).2.size := by
      rw [Heap.size_new]
      exact Nat.lt_succ_self _
    have hkept : (e.heap.new v).2.KeepsScalars e'.heap := .of_extends hadds.heap
    have hvalue : (e.heap.new v).2.value (e.heap.new v).1 = v := e.heap.value_new_self v
    have hitem : e'.heap.item (e.heap.new v).1 = .scalar v := by
      rw [hkept.item_eq hlt, Heap.item_of_isScalar (by rw [hvalue]; exact hf a), hvalue]
    refine ⟨(e.heap.new v).1 :: items, e', ?_,
      Engine.OnlyAdds.trans (.withHeap (.new e.heap v)) hadds,
      List.forall_mem_cons.2 ⟨Nat.lt_of_lt_of_le hlt hadds.heap.size, hexist⟩, ?_⟩
    · rw [List.map_cons, newEach, bind_of_ok hnew, bind_of_ok hrest]
      rfl
    · rw [List.map_cons, List.map_cons, hitem, hitems]

theorem exists_itemsOf {e : Engine} {r : Ref} {visited : List Item}
    (hvisited : e.heap.items? r = some visited)
    (hexist : ∀ s ∈ (e.heap.value r).children, s.index < e.heap.size) :
    ∃ items e', itemsOf r e = .ok items e' ∧ e.OnlyAdds e' ∧
      (∀ s ∈ items, s.index < e'.heap.size) ∧ items.map e'.heap.item = visited := by
  unfold Heap.items? at hvisited
  unfold itemsOf
  cases hr : e.heap.value r with
  | list items =>
    rw [hr] at hvisited hexist
    cases hvisited
    rw [bind_of_ok (value_of_eq hr)]
    exact ⟨items, e, rfl, .refl e, hexist, rfl⟩
  | string s =>
    rw [hr] at hvisited
    cases hvisited
    rw [bind_of_ok (value_of_eq hr)]
    dsimp only
    rw [newTexts_eq, List.map_map]
    exact exists_newEach (fun _ => rfl) s.toList e
  | blob bytes =>
    rw [hr] at hvisited
    cases hvisited
    rw [bind_of_ok (value_of_eq hr)]
    dsimp only
    rw [newBytes_eq]
    exact exists_newEach (fun _ => rfl) bytes e
  | _ =>
    rw [hr] at hvisited
    cases hvisited

/-- A loop over a List, a String or a Blob goes through the items that this holds when the loop
starts: each execution of the body begins with the variable bound to the next one of them. There is
one execution for each item, unless the loop is left, a cancellation is pending, or the variable
cannot be bound. -/
theorem forEach_visits {host : Host} {fuel : Nat} {c : Context} {v : Variable} {x : Expr}
    {body : List Stmt} {e e₁ : Engine} {r : Ref} {visited : List Item} (he : e.HasContext c)
    (heval : (Interp.ofFuel host fuel).eval c x e = .ok r e₁)
    (hvisited : e₁.heap.items? r = some visited)
    (hexist : ∀ s ∈ (e₁.heap.value r).children, s.index < e₁.heap.size) :
    ∃ (items : List Ref) (starts : List Engine) (last : LoopEnd) (e₂ e' : Engine),
      itemsOf r e₁ = .ok items e₂ ∧ items.length = visited.length ∧
      Rounds (store c v) (block (Interp.ofFuel host fuel).exec c body) items e₂ starts last e' ∧
      (execute (Interp.ofFuel host fuel) c (.forEach v x body)).Ends e last.ended e' ∧
      (∀ (k : Nat) (start : Engine), starts[k]? = some start →
        ∃ item, visited[k]? = some item ∧ start.Presents c v item) ∧
      (last = .completed → starts.length = visited.length) := by
  obtain ⟨items, e₂, hitems, hadds, hin, hsame⟩ := exists_itemsOf hvisited hexist
  obtain ⟨starts, last, e', hrounds, hends⟩ : ∃ starts last e',
      Rounds (store c v) (block (Interp.ofFuel host fuel).exec c body) items e₂ starts last e' ∧
        (forEach (Interp.ofFuel host fuel) c (store c v) body items).Ends e₂ last.ended e' :=
    exists_rounds items e₂
  have hlength : items.length = visited.length := by
    rw [← hsame, List.length_map]
  have hvalues : e.Preserves (fun _ => False) e₁ :=
    preserves_of_eval (fun _ => False.elim) (ends_ok_iff.2 heval)
  have hcontext : e₂.HasContext c := he.mono (hvalues.trans (.of_onlyAdds hadds))
  refine ⟨items, starts, last, e₂, e', hitems, hlength, hrounds, ?_, fun k start hstart => ?_, ?_⟩
  · exact (ends_ok_iff.2 heval).bind ((ends_ok_iff.2 hitems).bind hends)
  · obtain ⟨s, hs, hpresents⟩ := hrounds.presents hcontext (.refl e₂.heap) hin hstart
    refine ⟨e₂.heap.item s, ?_, hpresents⟩
    rw [← hsame, List.getElem?_map, hs]
    rfl
  · rintro rfl
    exact hrounds.length_eq.trans hlength

/-- A List that holds a Number and a List, which a global variable is bound to. -/
def looping : Engine :=
  { (Session.blank .standard).withHeap
      ⟨#[.fresh (.list [⟨1⟩, ⟨2⟩]), .fresh (.number 7), .fresh (.list [])]⟩ with
    globals := .ofList [("l", ⟨0⟩)] }

/-- The body makes the List longer, and then it takes the name of the loop for it. -/
def lengthening : List Stmt :=
  [.assign (.var ⟨none, "l"⟩) (.arithmetic .add) (.var ⟨none, "l"⟩),
    .assign (.var ⟨none, "x"⟩) .set (.var ⟨none, "l"⟩)]

theorem forEach_visits_lengthening :
    looping.HasContext .commandLine ∧
      looping.heap.items? ⟨0⟩ = some [.scalar (.number 7), .shared ⟨2⟩] ∧
      ∃ (starts : List Engine) (last : LoopEnd) (e' : Engine),
        (execute (Interp.ofFuel ⟨[]⟩ 3) .commandLine
          (.forEach ⟨none, "x"⟩ (.var ⟨none, "l"⟩) lengthening)).Ends looping last.ended e' ∧
        ∀ (k : Nat) (start : Engine), starts[k]? = some start →
          ∃ item, ([.scalar (.number 7), .shared ⟨2⟩] : List Item)[k]? = some item ∧
            start.Presents .commandLine ⟨none, "x"⟩ item := by
  have hcontext : looping.HasContext .commandLine := ⟨nofun, nofun⟩
  have hvisited : looping.heap.items? ⟨0⟩ = some [.scalar (.number 7), .shared ⟨2⟩] := rfl
  have heval : (Interp.ofFuel ⟨[]⟩ 3).eval .commandLine (.var ⟨none, "l"⟩) looping =
      .ok ⟨0⟩ looping := rfl
  have hexist : ∀ s ∈ (looping.heap.value ⟨0⟩).children, s.index < looping.heap.size := by decide
  obtain ⟨items, starts, last, e₂, e', -, -, -, hends, hpresents, -⟩ :=
    @forEach_visits ⟨[]⟩ 3 .commandLine ⟨none, "x"⟩ (.var ⟨none, "l"⟩) lengthening looping looping
      ⟨0⟩ _ hcontext heval hvisited hexist
  exact ⟨hcontext, hvisited, starts, last, e', hends, hpresents⟩

end Run

end VimL
