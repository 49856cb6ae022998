import VimL.Library.Native
import VimL.Proofs.Runs.Library

/-!
# Runs of native functions that call back

References to functions, sorting by a function, and functions of the host.
-/

namespace VimL

/-- Calls of functions that exist keep to the discipline. -/
def NativeEnv.CallsKeep (env : NativeEnv) (D : Discipline env.host) : Prop :=
  ∀ (e : Engine) (h : Handler) (arguments : List Ref) (receiver : Option Ref),
    D.MayCall h e → Run.Allows D e (env.call h arguments receiver) fun _ _ => True

namespace Run

variable {host : Host} {D : Discipline host} {e : Engine}

theorem allows_checkAlive (e : Engine) (h : Handler) :
    Allows D e (checkAlive h) fun _ e' => e' = e ∧ h.Alive e := by
  unfold checkAlive
  cases h with
  | defined id name =>
    refine .get_bind ?_
    split
    · exact .raise
    · rename_i halive
      refine .pure ⟨rfl, fun f hf => ?_⟩
      simpa [hf] using halive
  | _ => exact .pure ⟨rfl, trivial⟩

/-- A reference is only followed to a function that was not taken out by command. -/
theorem allows_callFuncref {call : Handler → List Ref → Option Ref → Run Ref} {f : Funcref}
    (hf : D.strict → f.handler.Known host e)
    (hcall : ∀ e' arguments receiver, D.MayCall f.handler e' →
      Allows D e' (call f.handler arguments receiver) fun _ _ => True)
    (arguments : List Ref) (receiver : Option Ref) :
    Allows D e (callFuncref call f arguments receiver) fun _ _ => True := by
  unfold callFuncref
  refine (allows_checkAlive e f.handler).bind fun _ e' _ ⟨he', halive⟩ => ?_
  subst he'
  exact hcall e' _ _ ⟨hf, fun _ => halive⟩

end Run

/-- So many arguments are accepted. -/
def Arity.Accepts (a : Arity) (count : Nat) : Prop :=
  a.least ≤ count ∧ ∀ most, a.most = some most → count ≤ most

namespace Library

open Run

variable {env : NativeEnv} (e : Engine)

section References

variable {host : Host} {D : Discipline host}

instance (second third : Option Ref) : Keeps D (bindings second third) := by
  unfold bindings
  split
  · refine .bind fun v => ?_
    cases v <;> infer_instance
  · infer_instance

instance (r : Option Ref) : Keeps D (boundArguments r) := by
  unfold boundArguments
  cases r with
  | none => infer_instance
  | some r =>
    refine .bind fun v => ?_
    cases v <;> infer_instance

instance (r : Option Ref) (cause : Cause) [cause.Regular] : Keeps D (checkReceiver r cause) := by
  unfold checkReceiver
  cases r with
  | none => infer_instance
  | some r =>
    refine .bind fun v => ?_
    cases v <;> infer_instance

instance (c : Context) (path : String) : Keeps D (atPath? c path) := by
  unfold atPath?
  cases path.splitOn "." <;> infer_instance

end References

variable {D : Discipline env.host}

theorem allows_referenceTo (name : String) : Allows D e (referenceTo env name)
    fun f e' => D.strict → f.handler.Known env.host e' := by
  unfold referenceTo
  refine (allows_handler? e env.context _ _).bind fun found e' _ hfound => ?_
  cases found with
  | some h => exact .pure (hfound h rfl).known
  | none => exact .raise

instance (name : Ref) (second third : Option Ref) : Keeps D (function env name second third) := by
  refine ⟨fun e => ?_⟩
  unfold function
  refine Allows.keeps_bind fun (arguments, receiver) e₁ _ => Allows.keeps_bind fun extra e₂ _ => ?_
  refine Allows.keeps_bind fun _ e₃ _ => (allows_value e₃ name).bind fun v e₄ _ ⟨_, hv⟩ => ?_
  cases receiver with
  | none | some d =>
    dsimp only
    cases v with
    | funcref f => exact .pure_bind (allows_newSharing_funcref fun hstrict => hv hstrict f rfl)
    | _ =>
      exact Allows.keeps_bind fun s e₅ _ => (allows_referenceTo e₅ s).bind fun f e₆ _ hf =>
        allows_newSharing_funcref hf

section Calls

variable (hcall : env.CallsKeep D)

include hcall

theorem keeps_call (callee arguments : Ref) (receiver : Option Ref) :
    Keeps D (call env callee arguments receiver) := by
  refine ⟨fun e => ?_⟩
  unfold call
  refine Allows.keeps_bind fun v e₁ _ => ?_
  cases v with
  | list items =>
    refine Allows.keeps_bind fun _ e₂ _ => (allows_value e₂ callee).bind fun v e₃ _ ⟨_, hv⟩ => ?_
    dsimp only
    cases v with
    | funcref f =>
      refine .pure_bind (allows_callFuncref (fun hstrict => ?_) (hcall · _) _ _)
      exact hv hstrict f rfl
    | _ =>
      refine Allows.keeps_bind fun s e₄ _ =>
        (allows_handler e₄ env.context _ _).bind fun h e₅ _ hh => ?_
      exact .pure_bind (allows_callFuncref hh.known (hcall · _) _ _)
  | _ => exact .raise

end Calls

/-! ## Names -/

instance (text : String) : Keeps D (isDefined env text) := by
  have (scope : Option Scope) (name : String) : Keeps D (env.handler? scope name) :=
    .of_allows fun e => allows_handler? e env.context scope name
  unfold isDefined
  split <;> infer_instance

instance (r : Ref) : Keeps D (exist env r) := by
  refine ⟨fun e => ?_⟩
  unfold exist
  refine Allows.keeps_bind fun s e₁ _ => (Keeps.allows e₁).outcome_bind
    (fun found e₂ _ _ => Keeps.allows e₂) fun stop e₂ _ hstop => ?_
  cases stop with
  | error err => exact Keeps.allows e₂
  | _ => exact .throw hstop

instance (r : Ref) : Keeps D (islocked env r) := by
  unfold islocked
  refine .bind fun path => .bind fun found => ?_
  cases found <;> infer_instance

/-! ## Sorting -/

section Sorting

variable {host : Host} {D : Discipline host} {before : Ref → Ref → Run Bool}

theorem allows_mergeBy (hbefore : ∀ e', D.leads e e' → ∀ a b,
    Allows D e' (before a b) fun _ _ => True) (ls rs : List Ref) :
    Allows D e (mergeBy before ls rs) fun _ _ => True := by
  fun_induction mergeBy before ls rs generalizing e with
  | case1 | case2 => exact .pure trivial
  | case3 l ls r rs ihright ihleft =>
    refine (hbefore e (D.refl e) r l).bind fun first e₁ h _ => ?_
    have hlater : ∀ e', D.leads e₁ e' → ∀ a b, Allows D e' (before a b) fun _ _ => True :=
      fun e' h' => hbefore e' (D.trans h h')
    cases first with
    | true => exact (ihright e₁ hlater).bind fun _ _ _ _ => .pure trivial
    | false => exact (ihleft e₁ hlater).bind fun _ _ _ _ => .pure trivial

theorem allows_sortBy (hbefore : ∀ e', D.leads e e' → ∀ a b,
    Allows D e' (before a b) fun _ _ => True) (fuel : Nat) (items : List Ref) :
    Allows D e (sortBy before fuel items) fun _ _ => True := by
  induction fuel generalizing e items with
  | zero => exact .pure trivial
  | succ fuel ih =>
    unfold sortBy
    split
    · exact .pure trivial
    · refine (ih e hbefore _).bind fun left e₁ h₁ _ => ?_
      refine (ih e₁ (fun e' h => hbefore e' (D.trans h₁ h)) _).bind fun right e₂ h₂ _ => ?_
      exact allows_mergeBy e₂ (fun e' h => hbefore e' (D.trans (D.trans h₁ h₂) h)) left right

variable {α : Type}

instance {key : Ref → Except Stop α} [hkey : ∀ r, Except.Admitted D (key r)] (rs : List Ref) :
    Except.Admitted D (withKeys key rs) := by
  induction rs with
  | nil => unfold withKeys; infer_instance
  | cons r rest ih =>
    unfold withKeys
    cases hfirst : key r with
    | error stop => exact (hkey r).of_eq hfirst
    | ok k =>
      dsimp only
      cases hrest : withKeys key rest with
      | error stop => exact ih.of_eq hrest
      | ok keyed => infer_instance

instance (heap : Heap) (depth : Nat) (key : SortKey) (items : List Ref) :
    Except.Admitted D (sortItems heap depth key items) := by
  have (r : Ref) : Except.Admitted D (match heap.value r with
      | .number n => .ok (some n)
      | _ => .ok none) := by cases heap.value r <;> infer_instance
  unfold sortItems
  cases key <;> infer_instance

/-! ### Sorting permutes -/

theorem perm_insertionSort (less : α → α → Bool) (items : List α) :
    (insertionSort less items).Perm items := by
  have hinsert (sorted : List α) (i : Nat) (x : α) :
      (insertAt sorted i [x]).Perm (x :: sorted) := by
    unfold insertAt
    rw [List.append_assoc, List.singleton_append]
    exact List.perm_middle.trans (.of_eq (by rw [List.take_append_drop]))
  have hfold (place : List α → α → Nat) (rest sorted : List α) :
      (rest.foldl (fun sorted x => insertAt sorted (place sorted x) [x]) sorted).Perm
        (sorted ++ rest) := by
    induction rest generalizing sorted with
    | nil => simp
    | cons x rest ih =>
      refine (ih _).trans (((hinsert sorted _ x).append_right rest).trans ?_)
      exact List.perm_middle.symm
  have hrun : ((firstRun less items).1 ++ (firstRun less items).2).Perm items := by
    unfold firstRun
    split
    · dsimp only
      split
      · exact ((List.reverse_perm _).append_right _).trans (.of_eq (List.take_append_drop _ _))
      · exact .of_eq (List.take_append_drop _ _)
    · simp
  exact (hfold (fun sorted x => bisect less sorted.toArray x (sorted.length + 1) 0 sorted.length)
    _ _).trans hrun

theorem perm_sortKeyed (less : α → α → Bool) (keyed : List (α × Ref)) :
    (sortKeyed less keyed).Perm (keyed.map (·.2)) :=
  (List.mergeSort_perm _ _).map _

theorem perm_sortFloats (keyed : List (Float × Ref)) :
    (sortFloats keyed).Perm (keyed.map (·.2)) := by
  unfold sortFloats
  dsimp only
  split
  · exact (perm_insertionSort _ keyed).map _
  · exact perm_sortKeyed _ keyed

theorem snd_withKeys {key : Ref → Except Stop α} {items : List Ref} {keyed : List (α × Ref)}
    (h : withKeys key items = .ok keyed) : keyed.map (·.2) = items := by
  induction items generalizing keyed with
  | nil =>
    cases h
    rfl
  | cons r rest ih =>
    unfold withKeys at h
    cases hfirst : key r with
    | error stop => simp [hfirst] at h
    | ok k =>
      cases hrest : withKeys key rest with
      | error stop => simp [hfirst, hrest] at h
      | ok others =>
        simp only [hfirst, hrest] at h
        cases h
        exact congrArg (r :: ·) (ih hrest)

/-- Whatever the key is, the items stay the same, each as often as it was there. -/
theorem perm_sortItems {heap : Heap} {depth : Nat} {key : SortKey} {items sorted : List Ref}
    (h : sortItems heap depth key items = .ok sorted) : sorted.Perm items := by
  have hkeyed {β : Type} {keyOf : Ref → Except Stop β} {sort : List (β × Ref) → List Ref}
      (hsort : ∀ keyed, (sort keyed).Perm (keyed.map (·.2)))
      (h : (withKeys keyOf items).map sort = .ok sorted) : sorted.Perm items := by
    cases hkeys : withKeys keyOf items with
    | error stop =>
      rw [hkeys] at h
      cases h
    | ok keyed =>
      rw [hkeys] at h
      cases h
      exact (hsort keyed).trans (.of_eq (snd_withKeys hkeys))
  unfold sortItems at h
  cases key with
  | text | numbersLast | number => exact hkeyed (perm_sortKeyed _) h
  | float => exact hkeyed perm_sortFloats h

theorem count_without (items others : List Ref) (s : Ref) :
    (without items others).count s = items.count s - others.count s := by
  unfold without
  induction others generalizing items with
  | nil => simp
  | cons r rest ih =>
    rw [List.foldl_cons, ih, List.count_erase, List.count_cons]
    simp only [beq_iff_eq]
    omega

theorem since_sortByKey {e e' : Engine} {list : Ref} (hlocked : e.heap.isLocked list = false)
    {items : List Ref} (hitems : e'.heap.value list = .list items) (key : SortKey) :
    Since D e e' (sortByKey list items key) fun _ _ => True := by
  unfold sortByKey
  refine .get_bind (.settle_bind fun sorted hsorted => ?_)
  refine (Since.setValue_within (.of_written hlocked hitems) fun s => ?_).bind
    fun _ _ _ _ => .pure trivial
  rw [hitems]
  exact Nat.le_of_eq ((perm_sortItems hsorted).count_eq s)

end Sorting

section SortByFunction

variable (hcall : env.CallsKeep D)

include hcall

/-- The function may do to the List what it likes: it is not locked. Items that are no longer in the
List when they come back into it are handed on. -/
theorem since_sortByFunction {e e' : Engine} {list : Ref} (hlocked : e.heap.isLocked list = false)
    {items : List Ref} (hitems : e.heap.value list = .list items) {f : Funcref}
    (hf : D.strict → f.handler.Known env.host e') :
    Since D e e' (sortByFunction env list items f) fun _ _ => True := by
  have hbefore : ∀ e'', D.leads e' e'' → ∀ a b,
      Allows D e'' (comesBefore env f a b) fun _ _ => True := by
    intro e'' h a b
    unfold comesBefore
    have hknown (hstrict : D.strict) : f.handler.Known env.host e'' :=
      (hf hstrict).mono (D.grows h).functions
    exact (allows_callFuncref hknown (hcall · _) _ _).bind fun r e₃ _ _ => Keeps.allows e₃
  unfold sortByFunction
  refine (Since.of_allows (allows_sortBy e' hbefore _ _)).bind fun sorted e₃ h _ => .value_bind ?_
  refine (since_handOn _).bind fun _ e₄ _ ⟨hheap, _, hhanded⟩ => ?_
  have hadded (hlinear : D.linear) := hhanded [] (D.affords h hlinear)
  refine (Since.setValue (.of_checked hlocked hitems) hadded fun s => ?_).bind
    fun _ _ _ _ => .pure trivial
  rw [hheap, List.append_nil, count_without]
  simp only [Value.parts]
  omega

theorem keeps_sort (list : Ref) (how : Option Ref) : Keeps D (sort env list how) := by
  refine ⟨fun e => ?_⟩
  unfold sort
  refine .value_bind ?_
  cases hitems : e.heap.value list with
  | list items =>
    refine checkArgument_bind fun hlocked => ?_
    cases how with
    | none => exact since_sortByKey hlocked hitems _
    | some how =>
      refine Since.bind (.of_allows (allows_value e how)) fun v e₁ _ ⟨hsame, hv⟩ => ?_
      subst hsame
      split
      · exact since_sortByFunction hcall hlocked hitems fun hstrict => hv hstrict _ rfl
      · split
        · exact since_sortByKey hlocked hitems _
        · refine .settle_bind fun name _ => ?_
          refine Since.bind (.of_allows (allows_handler e₁ env.context none name))
            fun h e₂ _ hh => ?_
          exact since_sortByFunction hcall hlocked hitems hh.known
  | _ => exact .raise

end SortByFunction

/-! ## All native functions -/

/-- What a function of the host does is not checked. -/
theorem keeps_runHosted (hstrict : ¬D.strict) (f : HostFunction) (arguments : List Ref) :
    Keeps D (runHosted env f arguments) := by
  have hcancel : Keeps D requestCancel := keeps_modifyGet fun _ he => D.cancelled he
  unfold runHosted
  refine .bind fun e => ?_
  extract_lets data reply rest
  have hrest (u : Unit) : Keeps D (rest u) := by
    dsimp only [rest]
    cases reply.result with
    | some d => exact d.keeps_toValue (D.admits_internal nofun fun h => absurd h hstrict)
    | none => exact keeps_internal nofun fun h => absurd h hstrict
  split
  · exact .bind hrest
  · exact hrest ()

theorem allows_checkCount {host : Host} {D : Discipline host} (name : String) (arity : Arity)
    (count : Nat) :
    Allows D e (Library.checkCount name arity count) fun _ e' => e' = e ∧ arity.Accepts count := by
  unfold Library.checkCount
  dsimp only
  split
  · exact .raise_bind
  · split
    · exact .raise
    · rename_i hleast hmost
      refine .pure ⟨rfl, Nat.le_of_not_lt hleast, fun most hm => ?_⟩
      rw [hm] at hmost
      simpa using hmost

theorem exists_cons_cons {α : Type} {xs : List α} (h : 2 ≤ xs.length) :
    ∃ x y more, xs = x :: y :: more := by
  obtain ⟨x, rest, rfl⟩ := List.exists_cons_of_length_pos (Nat.lt_of_succ_lt h)
  obtain ⟨y, more, rfl⟩ := List.exists_cons_of_length_pos (Nat.lt_of_succ_lt_succ h)
  exact ⟨x, y, more, rfl⟩

/-- With an accepted number of arguments, every function of the library has its case. -/
theorem allows_runBuiltin {e : Engine} (hcall : env.CallsKeep D) {b : Builtin}
    {arguments : List Ref} (hmeets : (Handler.builtin b).Meets D.toDemands e arguments)
    (harity : b.arity.Accepts arguments.length) :
    Allows D e (runBuiltin env b arguments) fun _ _ => True := by
  have hsort (list : Ref) (how : Option Ref) := keeps_sort hcall list how
  have hcalls (callee items : Ref) (receiver : Option Ref) := keeps_call hcall callee items receiver
  obtain ⟨hleast, hmost⟩ := harity
  unfold runBuiltin
  -- functions of one shape: as many arguments as they need at least, and as many at most
  cases b with
  | getreg => exact Since.keeps
  | setreg =>
    obtain ⟨r, s, rfl⟩ := List.length_eq_two.1 (Nat.le_antisymm (hmost 2 rfl) hleast)
    exact allows_setreg s fun h => hmeets.letters h rfl r rfl
  | extend =>
    obtain ⟨target, source, more, rfl⟩ := exists_cons_cons hleast
    have hmode : more = more[0]?.toList := by
      match more with
      | [] | [_] => rfl
      | _ :: _ :: rest =>
        have hle : rest.length + 4 ≤ 3 := hmost 3 rfl
        omega
    refine allows_extend fun h => hmeets.spares h rfl target source more[0]? ?_
    rw [← hmode]
  | add | hasKey | repeated | setenv =>
    obtain ⟨r, s, rfl⟩ := List.length_eq_two.1 (Nat.le_antisymm (hmost 2 rfl) hleast)
    exact Since.keeps
  | insert | remove | get | call | count | index =>
    obtain ⟨r, s, more, rfl⟩ := exists_cons_cons hleast
    exact Since.keeps
  | deepcopy | sort | join | str2nr | range | split | function | funcref =>
    obtain ⟨r, more, rfl⟩ := List.exists_cons_of_length_pos hleast
    exact Since.keeps
  | _ =>
    obtain ⟨r, rfl⟩ := List.length_eq_one_iff.1 (Nat.le_antisymm (hmost 1 rfl) hleast)
    exact Since.keeps

end Library

end VimL
