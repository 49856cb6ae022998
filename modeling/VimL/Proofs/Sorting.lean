import VimL.Proofs.Reach
import VimL.Proofs.StableSorts
import VimL.Proofs.Typing

/-!
# The sorting of lists

A List is sorted by a key of its items or by a function that compares two of them. Whatever a
function answers, and whatever it does besides, the items that the List had when it was handed over
come back into it, each as often as before. If the answers are those of an order, the items are
sorted by it. A key is read from items as they are, unless the List can be reached from one of them:
it is empty meanwhile.
-/

namespace VimL

open EStateM (Result)

/-! ## Texts of values -/

/-- The text of a value is made from what can be reached from it. -/
theorem Heap.textAt_congr {h h' : Heap} {r : Ref} (depth : Nat) (path : List Ref)
    (hsame : ∀ s, h.Reaches r s → h'.value s = h.value s) :
    h'.textAt depth path r = h.textAt depth path r := by
  have hself := hsame r .refl
  induction depth using Nat.strong_induction_on generalizing path r with
  | _ depth ih =>
    have hparts {d : Nat} (hd : d < depth) (inner : List Ref) {s : Ref}
        (hs : s ∈ (h.value r).parts) : h'.textAt d inner s = h.textAt d inner s := by
      have hsame' (t : Ref) (ht : h.Reaches s t) : h'.value t = h.value t :=
        hsame t (.head hs ht)
      exact ih d hd inner hsame' (hsame' s .refl)
    cases depth with
    | zero =>
      unfold textAt
      rw [hself]
    | succ depth =>
      unfold textAt
      rw [hself]
      cases hv : h.value r with
      | list items =>
        rw [hv] at hparts
        have hitems : items.map (h'.textAt depth (r :: path)) =
            items.map (h.textAt depth (r :: path)) :=
          List.map_congr_left fun s hs => hparts (Nat.lt_succ_self _) _ hs
        dsimp only
        rw [hitems]
      | dictionary entries =>
        rw [hv] at hparts
        dsimp only
        split
        · rfl
        · refine congrArg dictionaryText (List.map_congr_left fun entry hentry => Prod.ext rfl ?_)
          exact hparts (Nat.lt_succ_self _) _ (List.mem_map_of_mem hentry)
      | funcref f =>
        rw [hv] at hparts
        have hbound (inner : Nat) (hinner : inner < depth + 1) :
            f.arguments.map (h'.textAt inner path) = f.arguments.map (h.textAt inner path) :=
          List.map_congr_left fun s hs => hparts hinner _ (List.mem_append_left _ hs)
        have hreceiver (d : Ref) (hd : f.receiver = some d) :
            h'.textAt depth path d = h.textAt depth path d :=
          hparts (Nat.lt_succ_self _) _ (by simp [Value.parts, hd])
        dsimp only
        -- the receiver takes one step of the depth, and the arguments take two
        cases hd : f.receiver with
        | none =>
          cases depth with
          | zero => rfl
          | succ inner => simp only [hbound inner (by omega)]
        | some d =>
          cases depth with
          | zero => simp only [hreceiver d hd]
          | succ inner => simp only [hbound inner (by omega), hreceiver d hd]
      | _ => rfl

theorem Heap.plainText_congr {h h' : Heap} {r : Ref} (depth : Nat)
    (hsame : ∀ s, h.Reaches r s → h'.value s = h.value s) :
    h'.plainText depth r = h.plainText depth r := by
  unfold plainText
  rw [hsame r .refl, textAt_congr depth [] hsame]

namespace Library

/-! ## Rows that are sorted by runs -/

section Runs

variable {before : Ref → Ref → Run Bool} {items ls rs rows : List Ref} {reach : Engine → Prop}
  {agrees : (Ref → Ref → Bool) → Prop} {e : Engine}

variable (hbefore : ∀ e₁, reach e₁ → ∀ a ∈ items, ∀ b ∈ items,
    Run.Reaches (fun _ => True) e₁ (before a b) reach fun first _ => ∀ p, agrees p → first = p a b)

include hbefore

/-- Whatever a comparison tells, nothing gets lost. If it tells what an order does, the rows are
merged in this order. -/
theorem reaches_mergeBy (he : reach e) (hls : ls ⊆ items) (hrs : rs ⊆ items) :
    Run.Reaches (fun _ => True) e (mergeBy before ls rs) reach fun merged _ =>
      merged.Perm (ls ++ rs) ∧ ∀ p, agrees p → merged = ls.merge rs fun a b => !p b a := by
  fun_induction mergeBy before ls rs generalizing e with
  | case1 rs => exact .pure he ⟨.refl _, fun _ _ => (List.nil_merge rs).symm⟩
  | case2 ls => exact .pure he ⟨.of_eq (List.append_nil ls).symm, fun _ _ => by simp⟩
  | case3 l ls r rs ihright ihleft =>
    have hr := hrs List.mem_cons_self
    have hl := hls List.mem_cons_self
    refine (hbefore e he r hr l hl).bind (fun _ h => h) fun first e₁ he₁ hfirst => ?_
    cases first with
    | true =>
      refine (ihright he₁ hls (List.subset_of_cons_subset hrs)).bind (fun _ h => h)
        fun rest e₂ he₂ hrest => .pure he₂ ⟨?_, fun p hp => ?_⟩
      · exact (hrest.1.cons r).trans List.perm_middle.symm
      · rw [List.cons_merge_cons, ← hfirst p hp, hrest.2 p hp]
        rfl
    | false =>
      refine (ihleft he₁ (List.subset_of_cons_subset hls) hrs).bind (fun _ h => h)
        fun rest e₂ he₂ hrest => .pure he₂ ⟨hrest.1.cons l, fun p hp => ?_⟩
      rw [List.cons_merge_cons, ← hfirst p hp, hrest.2 p hp]
      rfl

/-- With enough fuel, a row is sorted if comparisons tell what an order does. -/
theorem reaches_sortBy {fuel : Nat} (he : reach e) (hrows : rows ⊆ items)
    (hfuel : rows.length ≤ fuel) :
    Run.Reaches (fun _ => True) e (sortBy before fuel rows) reach fun sorted _ =>
      sorted.Perm rows ∧ ∀ p, agrees p → OrdersWeakly p rows → StableSort p rows sorted := by
  induction fuel generalizing e rows with
  | zero => exact .pure he ⟨.refl _, fun _ _ _ => .of_length_le (by omega)⟩
  | succ fuel ih =>
    unfold sortBy
    by_cases hshort : rows.length ≤ 1
    · rw [if_pos hshort]
      exact .pure he ⟨.refl _, fun _ _ _ => .of_length_le hshort⟩
    · rw [if_neg hshort]
      have htake : (rows.take (rows.length / 2)).length ≤ fuel := by
        rw [List.length_take]
        omega
      have hdrop : (rows.drop (rows.length / 2)).length ≤ fuel := by
        rw [List.length_drop]
        omega
      have hfirst := List.take_subset (rows.length / 2) rows
      have hsecond := List.drop_subset (rows.length / 2) rows
      have hfirst' := List.Subset.trans hfirst hrows
      have hsecond' := List.Subset.trans hsecond hrows
      refine (ih he hfirst' htake).bind (fun _ h => h) fun left e₁ he₁ hleft => ?_
      refine (ih he₁ hsecond' hdrop).bind (fun _ h => h) fun right e₂ he₂ hright => ?_
      refine (reaches_mergeBy hbefore he₂ (List.Subset.trans hleft.1.subset hfirst')
        (List.Subset.trans hright.1.subset hsecond')).mono (fun _ h => h)
        fun sorted _ _ hmerged => ⟨?_, fun p hp hweak => ?_⟩
      · have hhalves := hmerged.1.trans (hleft.1.append hright.1)
        rwa [List.take_append_drop] at hhalves
      · rw [hmerged.2 p hp]
        exact .halves hweak (hleft.2 p hp (hweak.mono hfirst))
          (hright.2 p hp (hweak.mono hsecond))

end Runs

/-! ## Functions that compare -/

/-- What a function answers for two items, as a Number. -/
def compareBy (env : NativeEnv) (f : Funcref) (a b : Ref) : Run Int := do
  Run.number (← Run.callFuncref env.call f [a, b] none)

/-- Some comparisons of items, whatever comes of them, lead from one engine to another. -/
def Compared (env : NativeEnv) (f : Funcref) (items : List Ref) : Engine → Engine → Prop :=
  Relation.ReflTransGen fun e e' =>
    ∃ a ∈ items, ∃ b ∈ items, ∃ ended, (compareBy env f a b).Ends e ended e'

/-- Whenever a comparison of items answers, the items alone decide on the answer. -/
def Answers (env : NativeEnv) (f : Funcref) (items : List Ref) (e : Engine)
    (answer : Ref → Ref → Int) : Prop :=
  ∀ e₁, Compared env f items e e₁ → ∀ a ∈ items, ∀ b ∈ items, ∀ n e₂,
    compareBy env f a b e₁ = .ok n e₂ → n = answer a b

/-- The signs of the answers say which of two items is less in a total preorder. -/
structure IsOrder (answer : Ref → Ref → Int) (items : List Ref) : Prop where
  flip : ∀ a ∈ items, ∀ b ∈ items, answer a b < 0 ↔ 0 < answer b a
  trans : ∀ a ∈ items, ∀ b ∈ items, ∀ c ∈ items,
    answer a b ≤ 0 → answer b c ≤ 0 → answer a c ≤ 0

/-- The first item is less than the second one. -/
def isLess (answer : Ref → Ref → Int) (a b : Ref) : Bool := decide (answer a b < 0)

theorem IsOrder.ordersWeakly {answer : Ref → Ref → Int} {items : List Ref}
    (h : IsOrder answer items) : OrdersWeakly (isLess answer) items where
  asymm a ha b hb hab := by
    have hflip := (h.flip a ha b hb).1 (of_decide_eq_true hab)
    exact decide_eq_false (by omega)
  trans a ha b hb c hc hab hbc := by
    have hba : answer b a ≤ 0 := by
      have := mt (h.flip a ha b hb).2 (of_decide_eq_false hab)
      omega
    have hcb : answer c b ≤ 0 := by
      have := mt (h.flip b hb c hc).2 (of_decide_eq_false hbc)
      omega
    have hca := h.trans c hc b hb a ha hcb hba
    refine decide_eq_false fun hac => ?_
    have := (h.flip a ha c hc).1 hac
    omega

section SortByFunction

variable {env : NativeEnv} {f : Funcref} {items : List Ref} {list r : Ref} {e e' : Engine}

theorem comesBefore_eq (env : NativeEnv) (f : Funcref) (a b : Ref) :
    comesBefore env f a b =
      (compareBy env f a b >>= fun n => pure (decide (n < 0)) : Run Bool) := by
  unfold comesBefore compareBy
  rw [bind_assoc]

theorem reaches_comesBefore {e₁ : Engine} (he : Compared env f items e e₁) {a b : Ref}
    (ha : a ∈ items) (hb : b ∈ items) :
    Run.Reaches (fun _ => True) e₁ (comesBefore env f a b) (Compared env f items e)
      fun first _ => ∀ p, (∃ answer, Answers env f items e answer ∧ p = isLess answer) →
        first = p a b := by
  obtain ⟨ended, e₂, hended⟩ := Run.exists_ends (compareBy env f a b) e₁
  have hcompared : Compared env f items e e₂ := he.tail ⟨a, ha, b, hb, ended, hended⟩
  rw [comesBefore_eq]
  unfold Run.Reaches
  cases ended with
  | error stop =>
    rw [Run.bind_of_error (Run.ends_error_iff.1 hended)]
    exact ⟨hcompared, trivial⟩
  | ok n =>
    have hrun := Run.ends_ok_iff.1 hended
    rw [Run.bind_of_ok hrun]
    refine ⟨hcompared, ?_⟩
    rintro p ⟨answer, hanswers, rfl⟩
    rw [hanswers e₁ he a ha b hb n e₂ hrun]
    rfl

theorem reaches_compared (env : NativeEnv) (f : Funcref) (items : List Ref) (e : Engine) :
    Run.Reaches (fun _ => True) e (sortBy (comesBefore env f) items.length items)
      (Compared env f items e) fun sorted _ => sorted.Perm items ∧ ∀ answer,
        Answers env f items e answer → IsOrder answer items →
          StableSort (isLess answer) items sorted :=
  (reaches_sortBy (fun _ he _ ha _ hb => reaches_comesBefore he ha hb) .refl
    (List.Subset.refl items) (Nat.le_refl _)).mono (fun _ h => h)
    fun _ _ _ h => ⟨h.1, fun answer hanswers horder =>
      h.2 _ ⟨answer, hanswers, rfl⟩ horder.ordersWeakly⟩

theorem of_sortByFunction_ok (h : sortByFunction env list items f e = .ok r e') :
    r = list ∧ ∃ sorted e₁, Compared env f items e e₁ ∧
      e' = { e₁ with heap := e₁.heap.setValue list (.list sorted), handedOn := e'.handedOn } ∧
      sorted.Perm items ∧ ∀ answer, Answers env f items e answer → IsOrder answer items →
        StableSort (isLess answer) items sorted := by
  have hreaches := reaches_compared env f items e
  unfold sortByFunction at h
  obtain ⟨sorted, e₁, hsorted, hrest⟩ := Run.of_bind_ok h
  unfold Run.Reaches at hreaches
  rw [hsorted] at hreaches
  obtain ⟨hcompared, hperm, hstable⟩ := hreaches
  cases hrest
  exact ⟨rfl, sorted, e₁, hcompared, rfl, hperm, hstable⟩

theorem of_sortByFunction_error {stop : Stop}
    (h : sortByFunction env list items f e = .error stop e') : Compared env f items e e' := by
  have hreaches := reaches_compared env f items e
  unfold sortByFunction at h
  rcases Run.of_bind_error h with hfailed | ⟨sorted, e₁, hsorted, hrest⟩
  · exact hreaches.reach_of_ends (Run.ends_error_iff.2 hfailed)
  · cases hrest

end SortByFunction

/-! ## Keys -/

section SortByKey

variable {h h' : Heap} {depth : Nat} {items : List Ref} {list r : Ref} {e e' : Engine}
  {key : SortKey} {stop : Stop}

theorem SortKey.precedes_congr (key : SortKey)
    (hsame : ∀ r ∈ items, ∀ s, h.Reaches r s → h'.value s = h.value s) {a b : Ref} (ha : a ∈ items)
    (hb : b ∈ items) : key.precedes h' depth a b = key.precedes h depth a b := by
  have hvalue (r : Ref) (hr : r ∈ items) : h'.value r = h.value r := hsame r hr r .refl
  cases key with
  | text ignoreCase =>
    have htext (r : Ref) (hr : r ∈ items) :
        textKey h' depth ignoreCase r = textKey h depth ignoreCase r := by
      unfold textKey
      rw [Heap.plainText_congr depth (hsame r hr)]
    simp only [precedes, htext a ha, htext b hb]
  | numbersLast | number | float => simp only [precedes, hvalue a ha, hvalue b hb]

theorem SortKey.Reads.congr (hr : key.Reads h r) (hsame : h'.value r = h.value r) :
    key.Reads h' r := by
  cases key with
  | text | numbersLast => trivial
  | number | float =>
    simp only [Reads, hsame] at hr ⊢
    exact hr

/-- The List is empty while keys are read. No item notices unless it can see the List. -/
theorem exists_sortByKey (hreads : ∀ r ∈ items, key.Reads e.heap r)
    (hout : ∀ r ∈ items, ¬e.heap.Reaches r list) :
    ∃ sorted, StableSort (key.precedes e.heap e.config.renderDepth) items sorted ∧
      sortByKey list items key e = .ok list (e.withHeap (e.heap.setValue list (.list sorted))) := by
  have hsame (r : Ref) (hr : r ∈ items) (s : Ref) (hs : e.heap.Reaches r s) :
      (e.heap.setValue list (.list [])).value s = e.heap.value s := by
    refine Heap.value_setValue_of_ne _ _ ?_
    rintro rfl
    exact hout r hr hs
  obtain ⟨sorted, hsorted, hstable⟩ := key.exists_sortItems e.config.renderDepth
    fun r hr => (hreads r hr).congr (hsame r hr r .refl)
  refine ⟨sorted, hstable.congr fun a ha b hb => (key.precedes_congr hsame ha hb).symm, ?_⟩
  unfold sortByKey
  rw [Run.bind_of_ok (Run.get_eq e), hsorted]
  rfl

theorem of_sortByKey_error (h : sortByKey list items key e = .error stop e') : e' = e := by
  unfold sortByKey at h
  rw [Run.bind_of_ok (Run.get_eq e)] at h
  rcases Run.of_bind_error h with hkeys | ⟨sorted, e₁, -, hrest⟩
  · exact (Run.of_settle_error hkeys).2
  · cases hrest

end SortByKey

/-! ## The function -/

/-- The second argument is a function that compares, or it is the name of one. -/
inductive Comparator (env : NativeEnv) (e : Engine) (how : Ref) : Funcref → Prop where
  | held {f : Funcref} (hf : e.heap.value how = .funcref f) : Comparator env e how f
  | named {name : String} {h : Handler} (hkey : sortKeyOf? (e.heap.value how) = none)
      (hname : (e.heap.value how).toText = .ok name) (hfound : env.handler none name e = .ok h e) :
      Comparator env e how (.ofHandler h)

/-- The key that the second argument asks for. It may be left out. -/
def keyAsked? (e : Engine) : Option Ref → Option SortKey
  | none => some (.text false)
  | some how => sortKeyOf? (e.heap.value how)

section Modes

variable {env : NativeEnv} {items : List Ref} {list how r : Ref} {e e' : Engine} {f : Funcref}
  {key : SortKey}

/-- A List that is locked is refused. -/
theorem isLocked_eq_false_or (env : NativeEnv) (hitems : e.heap.value list = .list items)
    (how : Option Ref) :
    e.heap.isLocked list = false ∨ ∃ stop, sort env list how e = .error stop e := by
  cases hlocked : e.heap.isLocked list with
  | false => exact .inl rfl
  | true =>
    refine .inr ⟨.ofCause (.locked ("sort" ++ "() argument")), ?_⟩
    unfold sort
    rw [Run.bind_of_ok (Run.value_of_eq hitems)]
    exact Run.bind_of_error (Run.checkUnlocked_of_locked hlocked)

theorem sort_of_comparator (hitems : e.heap.value list = .list items)
    (hfree : e.heap.isLocked list = false) (hhow : Comparator env e how f) :
    sort env list (some how) e = sortByFunction env list items f e := by
  have hcheck : checkArgument list "sort" e = .ok () e := Run.checkUnlocked_of_free hfree
  unfold sort
  rw [Run.bind_of_ok (Run.value_of_eq hitems)]
  dsimp only
  rw [Run.bind_of_ok hcheck, Run.bind_of_ok (Run.value_of_eq rfl)]
  cases hhow with
  | held hf => rw [hf]
  | @named name h hkey hname hfound =>
    have hsettled : (Run.settle (e.heap.value how).toText : Run String) e = .ok name e := by
      rw [hname]
      rfl
    cases hv : e.heap.value how with
    | funcref =>
      rw [hv] at hname
      cases hname
    | _ =>
      rw [hv] at hkey hsettled
      dsimp only
      rw [hkey]
      dsimp only
      rw [Run.bind_of_ok hsettled, Run.bind_of_ok hfound]

theorem sort_of_key (hitems : e.heap.value list = .list items)
    (hfree : e.heap.isLocked list = false) {how : Option Ref} (hkey : keyAsked? e how = some key) :
    sort env list how e = sortByKey list items key e := by
  have hcheck : checkArgument list "sort" e = .ok () e := Run.checkUnlocked_of_free hfree
  unfold sort
  rw [Run.bind_of_ok (Run.value_of_eq hitems)]
  dsimp only
  rw [Run.bind_of_ok hcheck]
  cases how with
  | none =>
    cases hkey
    rfl
  | some how =>
    change sortKeyOf? (e.heap.value how) = some key at hkey
    dsimp only
    rw [Run.bind_of_ok (Run.value_of_eq rfl)]
    cases hv : e.heap.value how with
    | funcref =>
      rw [hv] at hkey
      cases hkey
    | _ =>
      rw [hv] at hkey
      dsimp only
      rw [hkey]

end Modes

/-- How a List is sorted. Whatever a function answers, if all comparisons come to their end, the
items that there were at first are put into the List, in the order of the answers if they have one;
if a comparison fails, there has been nothing else than comparisons. By a key, the items are sorted
stably if it can be read and if the List cannot be reached from an item; if it cannot be read,
nothing has changed. -/
structure Sorts (env : NativeEnv) (e : Engine) (list : Ref) (items : List Ref) : Prop where
  compared : ∀ {how f r e'}, Comparator env e how f → sort env list (some how) e = .ok r e' →
    r = list ∧ ∃ sorted e₁, Compared env f items e e₁ ∧
      e' = { e₁ with heap := e₁.heap.setValue list (.list sorted), handedOn := e'.handedOn } ∧
      e'.heap.value list = .list sorted ∧ sorted.Perm items ∧
      ∀ answer, Answers env f items e answer → IsOrder answer items →
        StableSort (isLess answer) items sorted
  failed : ∀ {how f stop e'}, Comparator env e how f →
    sort env list (some how) e = .error stop e' → Compared env f items e e'
  keyed : ∀ {how key}, keyAsked? e how = some key → e.heap.isLocked list = false →
    (∀ r ∈ items, key.Reads e.heap r) → (∀ r ∈ items, ¬e.heap.Reaches r list) →
    ∃ sorted, StableSort (key.precedes e.heap e.config.renderDepth) items sorted ∧
      sort env list how e = .ok list (e.withHeap (e.heap.setValue list (.list sorted)))
  unread : ∀ {how key stop e'}, keyAsked? e how = some key → sort env list how e = .error stop e' →
    e' = e

variable {host : Host} {fuel : Nat} {c : Context} {list r : Ref} {how : Option Ref}
  {items : List Ref} {e e' : Engine}

theorem keepsKinds_of_sort
    (h : sort ⟨host, c, (Interp.ofFuel host fuel).call c⟩ list how e = .ok r e') :
    e.heap.KeepsKinds e'.heap := by
  have hcalls : NativeEnv.CallsKeep ⟨host, c, (Interp.ofFuel host fuel).call c⟩
      (Invariant.typing.discipline host) := fun e h arguments receiver _ =>
    (Invariant.typing.obeys host fuel).call e c h arguments receiver ⟨False.elim, False.elim⟩
  have hreaches := Invariant.typing.reaches ((keeps_sort hcalls list how).allows e) trivial
  exact (hreaches.reach_of_ends (Run.ends_ok_iff.2 h)).2

theorem sorts_list (host : Host) (fuel : Nat) (c : Context)
    (hitems : e.heap.value list = .list items) :
    Sorts ⟨host, c, (Interp.ofFuel host fuel).call c⟩ e list items where
  compared hhow h := by
    rcases isLocked_eq_false_or _ hitems _ with hfree | ⟨stop, hrefused⟩
    · have hgrown := (keepsKinds_of_sort h).size
      have hcontainer : (e.heap.value list).isScalar = false := by
        rw [hitems]
        rfl
      rw [sort_of_comparator hitems hfree hhow] at h
      obtain ⟨rfl, sorted, e₁, hcompared, he', hperm, hsorted⟩ := of_sortByFunction_ok h
      have hheap := congrArg Engine.heap he'
      refine ⟨rfl, sorted, e₁, hcompared, he', ?_, hperm, hsorted⟩
      have hin := e.heap.lt_size_of_not_isScalar _ hcontainer
      rw [hheap, Heap.size_setValue] at hgrown
      rw [hheap]
      exact Heap.value_setValue_self _ _ (Nat.lt_of_lt_of_le hin hgrown)
    · rw [hrefused] at h
      cases h
  failed hhow h := by
    rcases isLocked_eq_false_or _ hitems _ with hfree | ⟨stop, hrefused⟩
    · rw [sort_of_comparator hitems hfree hhow] at h
      exact of_sortByFunction_error h
    · rw [hrefused] at h
      cases h
      exact .refl
  keyed hkey hfree hreads hout := by
    obtain ⟨sorted, hsorted, hrun⟩ := exists_sortByKey hreads hout
    exact ⟨sorted, hsorted, (sort_of_key hitems hfree hkey).trans hrun⟩
  unread hkey h := by
    rcases isLocked_eq_false_or _ hitems _ with hfree | ⟨stop, hrefused⟩
    · rw [sort_of_key hitems hfree hkey] at h
      exact of_sortByKey_error h
    · rw [hrefused] at h
      cases h
      rfl

/-- Two items are compared once, the second one with the first one. -/
theorem exists_sort_pair {env : NativeEnv} {f : Funcref} {how first second : Ref} {n : Int}
    {e₁ : Engine} (hitems : e.heap.value list = .list [first, second])
    (hfree : e.heap.isLocked list = false) (hhow : Comparator env e how f)
    (hanswer : compareBy env f second first e = .ok n e₁) :
    ∃ e', sort env list (some how) e = .ok list e' ∧ e'.heap =
      e₁.heap.setValue list (.list (if n < 0 then [second, first] else [first, second])) := by
  have hless : comesBefore env f second first e = .ok (decide (n < 0)) e₁ := by
    rw [comesBefore_eq, Run.bind_of_ok hanswer]
    rfl
  have hsorted : sortBy (comesBefore env f) 2 [first, second] e =
      .ok (if n < 0 then [second, first] else [first, second]) e₁ := by
    have hhalves : sortBy (comesBefore env f) 2 [first, second] =
        mergeBy (comesBefore env f) [first] [second] := by
      simp [sortBy]
    rw [hhalves]
    unfold mergeBy
    rw [Run.bind_of_ok hless]
    by_cases hn : n < 0
    · simp only [hn, decide_true, if_true]
      unfold mergeBy
      rfl
    · simp only [hn, decide_false, if_false]
      unfold mergeBy
      rfl
  have hrun := Run.bind_of_ok (f := fun sorted => do
    Run.handOn (without sorted (← Run.value list).parts)
    Run.setValue list (.list sorted)
    return list) hsorted
  exact ⟨_, (sort_of_comparator hitems hfree hhow).trans hrun, rfl⟩

end Library

/-- The sign of a number, as a script sees it. -/
def Value.sign : Value → Int
  | .number n => n.sign
  | .float x => if x < 0.0 then -1 else if 0.0 < x then 1 else 0
  | _ => 0

namespace Session

open Library

/-- A host with one function, which compares two objects without a look at the engine. -/
def comparing (answer : Ref → Ref → HostData) : Host :=
  ⟨[⟨"compare", ⟨2, some 2⟩, false, fun _ data =>
    match data with
    | [.script a, .script b] => ⟨false, some (answer a b)⟩
    | _ => ⟨false, none⟩⟩]⟩

/-- What functions of the host are called with. -/
def comparingEnv (answer : Ref → Ref → HostData) : NativeEnv :=
  ⟨comparing answer, .commandLine, (Interp.ofFuel (comparing answer) 1).call .commandLine⟩

/-- The function of the host. -/
def comparer : Funcref := .ofHandler (.host "compare")

/-- A list of the numbers 2 and 1, and the function. -/
def sortable : Engine :=
  (blank .standard).withHeap ⟨#[.fresh (.list [⟨1⟩, ⟨2⟩]), .fresh (.number 2), .fresh (.number 1),
    .fresh (.funcref comparer)]⟩

theorem sortable_items : sortable.heap.value ⟨0⟩ = .list [⟨1⟩, ⟨2⟩] := rfl

section Comparing

variable {answer : Ref → Ref → HostData} {a b r : Ref} {v : Value} {n : Int} {e e' : Engine}

/-- An answer of the host becomes a new object, and nothing else happens. -/
theorem callFuncref_comparer (hv : (answer a b).toValue = Run.new v) :
    Run.callFuncref (comparingEnv answer).call comparer [a, b] none e =
      .ok (e.heap.new v).1 (e.withHeap (e.heap.new v).2) := by
  have hcall : Run.callFuncref (comparingEnv answer).call comparer [a, b] none e =
      Run.within (.native "compare") (answer a b).toValue e := rfl
  rw [hcall, hv]
  rfl

theorem value_of_comparer (hv : (answer a b).toValue = Run.new v)
    (h : Run.callFuncref (comparingEnv answer).call comparer [a, b] none e = .ok r e') :
    e'.heap.value r = v := by
  rw [callFuncref_comparer hv] at h
  cases h
  exact Heap.value_new_self _ _

theorem compareBy_comparer (hv : (answer a b).toValue = Run.new v) (hn : v.toNumber = .ok n) :
    compareBy (comparingEnv answer) comparer a b e = .ok n (e.withHeap (e.heap.new v).2) := by
  have hvalue : Run.value (e.heap.new v).1 (e.withHeap (e.heap.new v).2) =
      .ok v (e.withHeap (e.heap.new v).2) := Run.value_of_eq (Heap.value_new_self _ _)
  unfold compareBy
  rw [Run.bind_of_ok (callFuncref_comparer hv)]
  unfold Run.number
  rw [Run.bind_of_ok hvalue, hn]
  rfl

end Comparing

/-- What the host answers if the item that is behind the other one is less. -/
def behind (a b : Ref) : HostData := .int (b.index - a.index)

theorem compareBy_behind (a b : Ref) (e : Engine) :
    compareBy (comparingEnv behind) comparer a b e = .ok (Number.wrap (b.index - a.index))
      (e.withHeap (e.heap.new (.ofInt (b.index - a.index))).2) :=
  compareBy_comparer rfl rfl

theorem isOrder_behind : IsOrder (fun a b => Number.wrap (b.index - a.index)) [⟨1⟩, ⟨2⟩] := by
  constructor <;> decide

theorem sorts_list_sortable :
    sortable.heap.value ⟨0⟩ = .list [⟨1⟩, ⟨2⟩] ∧
    (∃ sorted, StableSort ((SortKey.text false).precedes sortable.heap sortable.config.renderDepth)
        [⟨1⟩, ⟨2⟩] sorted ∧ sort (comparingEnv behind) ⟨0⟩ none sortable =
          .ok ⟨0⟩ (sortable.withHeap (sortable.heap.setValue ⟨0⟩ (.list sorted)))) ∧
    ∃ e' sorted, sort (comparingEnv behind) ⟨0⟩ (some ⟨3⟩) sortable = .ok ⟨0⟩ e' ∧
      e'.heap.value ⟨0⟩ = .list sorted ∧
      StableSort (isLess fun a b => Number.wrap (b.index - a.index)) [⟨1⟩, ⟨2⟩] sorted := by
  have hsorts : Sorts (comparingEnv behind) sortable ⟨0⟩ [⟨1⟩, ⟨2⟩] :=
    sorts_list _ 1 .commandLine sortable_items
  have hcomparator : Comparator (comparingEnv behind) sortable ⟨3⟩ comparer := .held rfl
  have hout : ∀ r ∈ [(⟨1⟩ : Ref), ⟨2⟩], ¬sortable.heap.Reaches r ⟨0⟩ := by
    have hscalars : ∀ r ∈ [(⟨1⟩ : Ref), ⟨2⟩], (sortable.heap.value r).parts = [] := by decide
    intro r hr hreaches
    rcases hreaches.cases_head with rfl | ⟨s, hs, -⟩
    · simp at hr
    · rw [hscalars r hr] at hs
      cases hs
  obtain ⟨e', hrun, -⟩ := exists_sort_pair sortable_items rfl hcomparator
    (compareBy_behind ⟨2⟩ ⟨1⟩ sortable)
  obtain ⟨-, sorted, -, -, -, hvalue, -, hstable⟩ := hsorts.compared hcomparator hrun
  refine ⟨rfl, hsorts.keyed rfl rfl (fun _ _ => trivial) hout, e', sorted, hrun, hvalue, ?_⟩
  refine hstable _ (fun e₁ _ a _ b _ n e₂ hn => ?_) isOrder_behind
  rw [compareBy_behind] at hn
  exact (Result.ok.inj hn).1.symm

/-- Half of the difference, if the item that is behind the other one is less. -/
def halves (a b : Ref) : Float :=
  if a.index < b.index then 0.5 else if b.index < a.index then -0.5 else 0.0

theorem isOrder_halves :
    IsOrder (fun a b => (Value.float (halves a b)).sign) [⟨1⟩, ⟨2⟩] := by
  constructor <;> decide +kernel

/-- A Float between -1 and 1 says nothing about two items, whatever its sign. -/
theorem not_forall_sorted :
    ¬∀ (host : Host) (fuel : Nat) (c : Context) (list how r : Ref) (items : List Ref) (f : Funcref)
      (e e' : Engine) (answer : Ref → Ref → Value), e.heap.value list = .list items →
      Comparator ⟨host, c, (Interp.ofFuel host fuel).call c⟩ e how f →
      (∀ e₁, Compared ⟨host, c, (Interp.ofFuel host fuel).call c⟩ f items e e₁ →
        ∀ a ∈ items, ∀ b ∈ items, ∀ s e₂,
          Run.callFuncref ((Interp.ofFuel host fuel).call c) f [a, b] none e₁ = .ok s e₂ →
          e₂.heap.value s = answer a b) →
      IsOrder (fun a b => (answer a b).sign) items →
      sort ⟨host, c, (Interp.ofFuel host fuel).call c⟩ list (some how) e = .ok r e' →
      ∃ sorted, e'.heap.value list = .list sorted ∧
        StableSort (isLess fun a b => (answer a b).sign) items sorted := by
  intro hall
  obtain ⟨e', hrun, hkept⟩ : ∃ e', sort (comparingEnv fun a b => .float (halves a b)) ⟨0⟩ (some ⟨3⟩)
      sortable = .ok ⟨0⟩ e' ∧ e'.heap.value ⟨0⟩ = .list [⟨1⟩, ⟨2⟩] := by
    have hcomparator : Comparator (comparingEnv fun a b => .float (halves a b)) sortable ⟨3⟩
        comparer := .held rfl
    have hzero : Number.ofFloat (halves ⟨2⟩ ⟨1⟩) = 0 := by decide +kernel
    obtain ⟨e', hrun, hheap⟩ := exists_sort_pair sortable_items rfl hcomparator
      (compareBy_comparer rfl (congrArg Except.ok hzero))
    refine ⟨e', hrun, ?_⟩
    rw [hheap]
    exact Heap.value_setValue_self _ _ (by decide)
  obtain ⟨sorted, hvalue, hsorted⟩ := hall _ 1 .commandLine ⟨0⟩ ⟨3⟩ ⟨0⟩ [⟨1⟩, ⟨2⟩] comparer sortable
    e'
    (fun a b => .float (halves a b)) rfl (.held rfl)
    (fun _ _ a _ b _ s e₂ hcall => value_of_comparer rfl hcall) isOrder_halves hrun
  obtain rfl := Value.list.inj (hkept.symm.trans hvalue)
  have hordered := (List.pairwise_cons.1 hsorted.ordered).1 ⟨2⟩ (by simp)
  revert hordered
  decide +kernel

end Session

end VimL
