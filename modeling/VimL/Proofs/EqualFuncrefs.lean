import VimL.Proofs.Equality
import VimL.Proofs.Interchange
import VimL.Proofs.Registry

/-!
# Calls of equal function references

Function references are equal if they show one name, have one receiver, and are bound to equal
arguments. A call goes by more than that. It goes by the function itself: the names of functions
that are listed lead back to them, but a function that was replaced goes on showing its name. And it
goes by the objects among the arguments. Where equality speaks for these, calls end alike.
-/

namespace VimL

/-! ## What a name that is shown leads to -/

/-- What is in front of the first underscore, and what comes after it. -/
theorem eq_of_append_underscore {word word' rest rest' : List Char} (hword : '_' ∉ word)
    (hword' : '_' ∉ word') (h : word ++ '_' :: rest = word' ++ '_' :: rest') :
    word = word' ∧ rest = rest' := by
  have hfirst {w : List Char} (hw : '_' ∉ w) (r : List Char) :
      (w ++ '_' :: r).takeWhile (· ≠ '_') = w := by
    rw [List.takeWhile_append_of_pos fun c hc => decide_eq_true (ne_of_mem_of_not_mem hc hw)]
    simp
  have hwords : word = word' := by rw [← hfirst hword rest, h, hfirst hword' rest']
  subst hwords
  exact ⟨rfl, (List.cons.inj (List.append_cancel_left h)).2⟩

namespace Function

variable {f g : Function} {table table' : FunctionTable} {name name' : String} {id : ScriptId}

theorem BelongsIn.displayName_globals (h : f.BelongsIn .globals name) : f.displayName = name := by
  unfold displayName
  rw [(h.globals rfl).1]
  exact h.name_eq

theorem BelongsIn.displayName_script (h : f.BelongsIn (.script id) name) :
    f.displayName = "<SNR>" ++ Number.toText (Engine.scriptNumber id) ++ "_" ++ name := by
  obtain ⟨hscope, hscript⟩ := h.script id rfl
  unfold displayName
  rw [hscope, hscript, h.name_eq]

/-- Among tables of one kind, the name that a function shows leads to its table and its entry. -/
theorem BelongsIn.eq_of_displayName (hf : f.BelongsIn table name) (hg : g.BelongsIn table' name')
    (hscope : table.scope = table'.scope) (hname : f.displayName = g.displayName) :
    table = table' ∧ name = name' := by
  cases table with
  | globals =>
    cases table' with
    | globals =>
      rw [hf.displayName_globals, hg.displayName_globals] at hname
      exact ⟨rfl, hname⟩
    | script => cases hscope
  | script id =>
    cases table' with
    | globals => cases hscope
    | script id' =>
      have hplain (k : ScriptId) : '_' ∉ (Number.toText (Engine.scriptNumber k)).toList := by
        intro hmem
        rcases Number.mem_toText hmem with heq | hdigit
        · cases heq
        · cases hdigit
      rw [hf.displayName_script, hg.displayName_script] at hname
      -- the number ends at the first underscore, so it is the same, and so is what comes after it
      have hchars := congrArg String.toList hname
      simp only [String.toList_append, List.append_assoc] at hchars
      obtain ⟨hnumber, hrest⟩ :=
        eq_of_append_underscore (hplain id) (hplain id') (List.append_cancel_left hchars)
      have hindex : id.index = id'.index := by
        have heq := Number.toText_inj (String.toList_inj.1 hnumber)
        simp only [Engine.scriptNumber] at heq
        omega
      cases id
      cases id'
      cases hindex
      exact ⟨rfl, String.toList_inj.1 hrest⟩

end Function

/-- References to two functions that are listed in tables of one kind show different names. -/
theorem Engine.Registered.id_eq_of_name {e : Engine} (he : e.Registered)
    {table table' : FunctionTable} {name name' : String} {id id' : FunctionId}
    (hid : (e.functionsAt table).find? name = some id)
    (hid' : (e.functionsAt table').find? name' = some id') (hscope : table.scope = table'.scope)
    (hname : (e.handlerOf id).name = (e.handlerOf id').name) : id = id' := by
  obtain ⟨f, hf, hbelongs⟩ := he table name id hid
  obtain ⟨g, hg, hbelongs'⟩ := he table' name' id' hid'
  have hshown : f.displayName = g.displayName := by
    simpa [handlerOf, Handler.name, hf, hg] using hname
  obtain ⟨rfl, rfl⟩ := hbelongs.eq_of_displayName hbelongs' hscope hshown
  exact Option.some.inj (hid.symm.trans hid')

theorem Builtin.ofName?_name (b : Builtin) : ofName? b.name = some b := by
  cases b <;> rfl

theorem Builtin.name_injective : Function.Injective Builtin.name := fun b b' h =>
  Option.some.inj ((ofName?_name b).symm.trans (h ▸ ofName?_name b'))

/-- The handlers are those of one function, provided that they show one name. Those of the library
and of the host are told apart by their names, and so are the functions of scripts that are listed
in tables of one kind; a function of a script is the same one in any case. -/
inductive Engine.SameFunction (e : Engine) : Handler → Handler → Prop where
  | builtin (b b' : Builtin) : e.SameFunction (.builtin b) (.builtin b')
  | host (name name' : String) : e.SameFunction (.host name) (.host name')
  | defined (id : FunctionId) (name name' : String) :
    e.SameFunction (.defined id name) (.defined id name')
  | listed {table table' : FunctionTable} {name name' : String} {id id' : FunctionId}
      (hid : (e.functionsAt table).find? name = some id)
      (hid' : (e.functionsAt table').find? name' = some id') (hscope : table.scope = table'.scope) :
    e.SameFunction (e.handlerOf id) (e.handlerOf id')

theorem Engine.SameFunction.eq_of_name {e : Engine} (he : e.Registered) {a b : Handler}
    (h : e.SameFunction a b) (hname : a.name = b.name) : a = b := by
  cases h with
  | builtin => rw [Builtin.name_injective hname]
  | host => exact congrArg Handler.host hname
  | defined id => exact congrArg (Handler.defined id) hname
  | listed hid hid' hscope => rw [he.id_eq_of_name hid hid' hscope hname]

/-- Equality with another value means that this is the value: it is a Number, or a String whose case
is not ignored. Floats may be equal and differ in the sign of zero. -/
def Value.IsExact (ignoreCase : Bool) : Value → Prop
  | .number _ => True
  | .string _ => ignoreCase = false
  | _ => False

theorem Value.isExact_of_kind {v : Value} (h : v.kind = .number ∨ v.kind = .string) :
    v.IsExact false := by
  cases v with
  | number => trivial
  | string => rfl
  | _ => rcases h with h | h <;> cases h

namespace Heap

/-- A comparison speaks for what two functions are bound to: it is one object, or two scalars, both
locked or both free, of which equality leaves nothing open. -/
inductive Vouches (h : Heap) (ignoreCase : Bool) (r : Ref) : Ref → Prop where
  | same : h.Vouches ignoreCase r r
  | scalar {s : Ref} (hr : r.index < h.size) (hs : s.index < h.size)
      (hscalar : (h.value r).isScalar = true) (hlocked : h.isLocked s = h.isLocked r)
      (hexact : (h.value r).IsExact ignoreCase ∨ h.value s = h.value r) : h.Vouches ignoreCase r s

variable {h : Heap} {ignoreCase : Bool} {r s x y : Ref} {f g : Funcref}

theorem value_eq_of_equal (hexact : (h.value r).IsExact ignoreCase)
    (hequal : h.equal ignoreCase r s = true) : h.value s = h.value r := by
  obtain ⟨R, hR, hrs⟩ := equal_eq_true_iff.1 hequal
  have hagrees := hR r s hrs
  unfold Agrees at hagrees
  cases hr : h.value r with
  | number m =>
    rw [hr] at hagrees
    cases hs : h.value s with
    | number n =>
      rw [hs] at hagrees
      exact congrArg Value.number hagrees.symm
    | _ => rw [hs] at hagrees; cases hagrees
  | string a =>
    rw [hr] at hagrees hexact
    cases hs : h.value s with
    | string b =>
      have hcase : ignoreCase = false := hexact
      simp only [hs, hcase, Bool.false_eq_true, if_false] at hagrees
      exact congrArg Value.string hagrees.symm
    | _ => rw [hs] at hagrees; cases hagrees
  | _ => rw [hr] at hexact; cases hexact

theorem Vouches.matches (hrs : h.Vouches ignoreCase r s)
    (hequal : r = s ∨ h.equal ignoreCase r s = true) : h.Matches r s := by
  cases hrs with
  | same => exact .same
  | scalar hr hs hscalar hlocked hexact =>
    rcases hequal with rfl | hequal
    · exact .same
    · exact .scalar hr hs hscalar (hexact.elim (value_eq_of_equal · hequal) id) hlocked

/-- What the equality of two function references is about. -/
theorem funcrefs_of_equal (hx : h.value x = .funcref f) (hy : h.value y = .funcref g)
    (hequal : h.equal ignoreCase x y = true) :
    f.name = g.name ∧ f.receiver = g.receiver ∧
      List.Forall₂ (fun r s => r = s ∨ h.equal ignoreCase r s = true) f.arguments g.arguments := by
  obtain ⟨R, hR, hxy⟩ := equal_eq_true_iff.1 hequal
  have hagrees := hR x y hxy
  simp only [Agrees, hx, hy] at hagrees
  rcases hagrees with rfl | ⟨hname, hreceiver, harguments⟩
  · obtain rfl := Value.funcref.inj (hx.symm.trans hy)
    exact ⟨rfl, rfl, List.forall₂_same.2 fun r _ => .inl rfl⟩
  · exact ⟨hname, hreceiver,
      harguments.imp fun r s hrs => .inr (equal_eq_true_iff.2 ⟨R, hR, hrs⟩)⟩

end Heap

namespace Run

variable {host : Host} {i : Interp} {c : Context} {e : Engine} {x y : Ref} {f g : Funcref}
  {ignoreCase : Bool}

theorem equal_of_compare (hx : e.heap.value x = .funcref f) (hy : e.heap.value y = .funcref g)
    (hequal : compare .equal ignoreCase x y e = .ok true e) :
    e.heap.equal ignoreCase x y = true := by
  have hrun : compare .equal ignoreCase x y e =
      settle (e.heap.equalConverted ignoreCase x y) e := rfl
  have hconverted : e.heap.equalConverted ignoreCase x y = .ok (e.heap.equal ignoreCase x y) := by
    simp [Heap.equalConverted, hx, hy, Value.kind]
  rw [hrun, hconverted] at hequal
  exact Except.ok.inj (of_settle_ok hequal).1

/-- Calls of one function, on one receiver and with arguments that match, end alike. -/
theorem callFuncref_alike (hhandler : f.handler = g.handler)
    (hreceiver : f.receiver = g.receiver)
    (hbound : List.Forall₂ e.heap.Matches f.arguments g.arguments)
    (hhost : ∀ name hosted, f.handler = .host name → host.function? name = some hosted →
      hosted.copies = false → f.arguments = g.arguments)
    (arguments : List Ref) (receiver : Option Ref) :
    EndsAlike e (callFuncref (callHandler host i c) f arguments receiver)
      (callFuncref (callHandler host i c) g arguments receiver) := by
  have hall : List.Forall₂ e.heap.Matches (f.arguments ++ arguments) (g.arguments ++ arguments) :=
    List.rel_append hbound (List.forall₂_same.2 fun r _ => .same)
  unfold callFuncref
  rw [← hhandler, ← hreceiver]
  by_cases halive : f.handler.Alive e
  · have hcalls (h : Run Ref) : (checkAlive f.handler >>= fun _ => h) e = h e :=
      bind_of_ok (checkAlive_of_alive halive)
    refine (callHandler_alike f.handler (f.receiver.or receiver) hall ?_).congr (hcalls _) (hcalls _)
    intro name hosted hname hfound hcopies
    rw [hhost name hosted hname hfound hcopies]
  · obtain ⟨id, name, -, hfails⟩ := checkAlive_of_deleted halive
    exact .inl (by rw [bind_of_error hfails, bind_of_error hfails])

/-- Equality can speak for calls of the two references. They are to one function, and a comparison
vouches for what they are bound to; a function of the host that is handed the objects themselves has
to be bound to the same ones. Or both functions were deleted. -/
inductive Comparable (host : Host) (e : Engine) (ignoreCase : Bool) (f g : Funcref) : Prop where
  | alike (function : e.SameFunction f.handler g.handler)
      (bound : ∀ p ∈ f.arguments.zip g.arguments, e.heap.Vouches ignoreCase p.1 p.2)
      (hosted : ∀ name hosted, f.handler = .host name → host.function? name = some hosted →
        hosted.copies = false → f.arguments = g.arguments)
  | deleted (hf : ¬f.handler.Alive e) (hg : ¬g.handler.Alive e)

/-- A reference whose function was deleted fails, and the error gives the name that it shows. -/
theorem callFuncref_fails (call : Handler → List Ref → Option Ref → Run Ref)
    (hf : ¬f.handler.Alive e) (arguments : List Ref) (receiver : Option Ref) :
    callFuncref call f arguments receiver e = .error (.ofCause (.deletedFunction f.name)) e := by
  obtain ⟨id, name, hhandler, hfails⟩ := callFuncref_of_deleted call arguments receiver hf
  rw [hfails]
  simp [Funcref.name, Handler.name, hhandler]

end Run

variable (host : Host) (e : Engine) in
/-- Two references that `==` takes for equal are called with the same arguments, and equality can
speak for their calls. Both calls end in one way and leave one state behind; what they give back is
one object or one of two scalars that no call tells apart. If it is a function of a script, both run
its body, or both fail because it was deleted. -/
def Engine.CallsAlike : Prop :=
  ∀ (i : Interp) (c : Context) (x y : Ref) (f g : Funcref) (ignoreCase : Bool),
    e.heap.value x = .funcref f → e.heap.value y = .funcref g →
    Run.compare .equal ignoreCase x y e = .ok true e → Run.Comparable host e ignoreCase f g →
    ∀ (arguments : List Ref) (receiver : Option Ref),
      Run.EndsAlike e (Run.callFuncref (Run.callHandler host i c) f arguments receiver)
        (Run.callFuncref (Run.callHandler host i c) g arguments receiver) ∧
      ∀ id name, f.handler = .defined id name →
        (f.handler.Alive e ∧ ∀ k ∈ [f, g],
          Run.callFuncref (Run.callHandler host i c) k arguments receiver e =
            Run.callDefined i id (k.arguments ++ arguments) (k.receiver.or receiver) e) ∨
        (¬f.handler.Alive e ∧ ∀ k ∈ [f, g],
          Run.callFuncref (Run.callHandler host i c) k arguments receiver e =
            .error (.ofCause (.deletedFunction name)) e)

theorem Engine.Registered.callsAlike {e : Engine} (he : e.Registered) (host : Host) :
    e.CallsAlike host := by
  intro i c x y f g ignoreCase hx hy hequal hcomparable arguments receiver
  obtain ⟨hname, hreceiver, harguments⟩ :=
    Heap.funcrefs_of_equal hx hy (Run.equal_of_compare hx hy hequal)
  cases hcomparable with
  | alike hfunction hvouched hhosted =>
    have hhandler : f.handler = g.handler := hfunction.eq_of_name he hname
    have hbound : List.Forall₂ e.heap.Matches f.arguments g.arguments := by
      rw [List.forall₂_iff_zip] at harguments ⊢
      exact ⟨harguments.1, fun hp => (hvouched _ hp).matches (harguments.2 hp)⟩
    refine ⟨Run.callFuncref_alike hhandler hreceiver hbound hhosted arguments receiver, ?_⟩
    intro id name hdefined
    have hboth : ∀ k ∈ [f, g], k.handler = f.handler := by
      intro k hk
      rcases List.mem_pair.1 hk with rfl | rfl
      · rfl
      · exact hhandler.symm
    by_cases halive : f.handler.Alive e
    · refine .inl ⟨halive, fun k hk => ?_⟩
      rw [Run.callFuncref_of_alive _ _ _ (by rwa [hboth k hk]), hboth k hk, hdefined]
      rfl
    · refine .inr ⟨halive, fun k hk => ?_⟩
      rw [Run.callFuncref_fails _ (by rwa [hboth k hk])]
      simp [Funcref.name, Handler.name, hboth k hk, hdefined]
  | deleted hf hg =>
    have hfails : ∀ k ∈ [f, g],
        Run.callFuncref (Run.callHandler host i c) k arguments receiver e =
          .error (.ofCause (.deletedFunction f.name)) e := by
      intro k hk
      rcases List.mem_pair.1 hk with rfl | rfl
      · exact Run.callFuncref_fails _ hf arguments receiver
      · rw [Run.callFuncref_fails _ hg, hname]
    refine ⟨.inl ?_, fun id name hdefined => .inr ⟨hf, fun k hk => ?_⟩⟩
    · rw [hfails f (by simp), hfails g (by simp)]
    · rw [hfails k hk]
      simp [Funcref.name, Handler.name, hdefined]

namespace Session

variable {host : Host} {e : Engine}

/-- Whatever a session asks for, calls of references that are equal end alike, between its runs and
in every step of them. -/
theorem perform_callsAlike (he : Arrives host e) (fuel : Nat) (r : Request) :
    e.CallsAlike host ∧ (r.perform (.ofFuel host fuel) e).2.CallsAlike host ∧
    ∀ hit : Task → Engine → Bool, (∀ task e₁, e₁.CallsAlike host → hit task e₁ = false) →
      r.perform (.watching host hit fuel) e = r.perform (.ofFuel host fuel) e := by
  obtain ⟨hended, -⟩ := keepsFunctions_perform he.registered host fuel r
  refine ⟨he.registered.callsAlike host, hended.callsAlike host, fun hit hhit => ?_⟩
  exact perform_watching_registering he fuel r fun task e₁ he₁ _ => hhit task e₁ (he₁.callsAlike host)

/-- The function references in these places, if `==` takes them for equal. -/
def equalFuncrefs? (e : Engine) (x y : Ref) : Option (Funcref × Funcref) :=
  match e.heap.value x, e.heap.value y with
  | .funcref f, .funcref g =>
    if (e.heap.equalConverted false x y).toOption = some true then some (f, g) else none
  | _, _ => none

theorem of_equalFuncrefs? {x y : Ref} {f g : Funcref} (h : equalFuncrefs? e x y = some (f, g)) :
    e.heap.value x = .funcref f ∧ e.heap.value y = .funcref g ∧
      Run.compare .equal false x y e = .ok true e := by
  unfold equalFuncrefs? at h
  split at h
  · rename_i hx hy
    obtain ⟨hequal, hpair⟩ := Option.ite_none_right_eq_some.1 h
    cases hpair
    refine ⟨hx, hy, ?_⟩
    have hrun : Run.compare .equal false x y e =
        Run.settle (e.heap.equalConverted false x y) e := rfl
    rw [hrun]
    cases hconverted : e.heap.equalConverted false x y with
    | error cause =>
      rw [hconverted] at hequal
      cases hequal
    | ok same =>
      rw [hconverted] at hequal
      cases hequal
      rfl
  · cases h

/-- Two global variables get references to the function that the register names. -/
def referring (before between : List Stmt) (bound : List Expr) : Request :=
  let reference : Expr := .call none "function" (.register "a" :: bound)
  .run .commandLine (before ++ .assign (.var ⟨some .globals, "First"⟩) .set reference ::
    between ++ [.assign (.var ⟨some .globals, "Second"⟩) .set reference])

/-- A function that gives back its argument, and two references to it, each of them bound to a
String of its own. -/
def echoing : Engine :=
  ((referring [.function none "Own" ⟨["x"], [], [.giveBack (some (.var ⟨some .arguments, "x"⟩))],
    false, false, false, false⟩] [] [.list [.register "a"]]).perform
      (.ofFuel ⟨[]⟩ 6) (holding "Own")).2

def ownBoundTo (r : Ref) : Funcref := ⟨.defined ⟨0⟩ "Own", [r], none, false⟩

/-- What a call with further arguments does now. -/
def calledNow (f : Funcref) (arguments : List Ref) : Run Ref :=
  Run.callFuncref (Run.callHandler ⟨[]⟩ (.ofFuel ⟨[]⟩ 4) .commandLine) f arguments none

theorem perform_callsAlike_echoing : Arrives ⟨[]⟩ echoing ∧
    Run.compare .equal false ⟨9⟩ ⟨14⟩ echoing = .ok true echoing ∧
    Run.Comparable ⟨[]⟩ echoing false (ownBoundTo ⟨7⟩) (ownBoundTo ⟨12⟩) ∧
    Run.EndsAlike echoing (calledNow (ownBoundTo ⟨7⟩) []) (calledNow (ownBoundTo ⟨12⟩) []) ∧
    ∀ k ∈ [ownBoundTo ⟨7⟩, ownBoundTo ⟨12⟩], calledNow k [] echoing =
      Run.callDefined (.ofFuel ⟨[]⟩ 4) ⟨0⟩ k.arguments none echoing := by
  have harrives : Arrives ⟨[]⟩ echoing := .perform (arrives_holding ⟨[]⟩ "Own") 6 _
  have hcalls := (perform_callsAlike harrives 4 deleting).1
  have hfound : equalFuncrefs? echoing ⟨9⟩ ⟨14⟩ = some (ownBoundTo ⟨7⟩, ownBoundTo ⟨12⟩) := by
    decide +kernel
  have hlisted : (echoing.functionsAt .globals).find? "Own" = some ⟨0⟩ := by decide +kernel
  have hhandler : echoing.handlerOf ⟨0⟩ = .defined ⟨0⟩ "Own" := by decide +kernel
  have hkept : (echoing.function? ⟨0⟩).any (·.deleted) = false := by decide +kernel
  have hsize : 12 < echoing.heap.size := by decide +kernel
  have hkind : (echoing.heap.value ⟨7⟩).kind = .string := by decide +kernel
  have hlocked : echoing.heap.isLocked ⟨12⟩ = echoing.heap.isLocked ⟨7⟩ := by decide +kernel
  -- the engine is not to be evaluated any more
  generalize echoing = e at *
  obtain ⟨hx, hy, hequal⟩ := of_equalFuncrefs? hfound
  have hcomparable : Run.Comparable ⟨[]⟩ e false (ownBoundTo ⟨7⟩) (ownBoundTo ⟨12⟩) := by
    refine .alike ?_ (fun p hp => ?_) nofun
    · have hsame := Engine.SameFunction.listed hlisted hlisted rfl
      rwa [hhandler] at hsame
    · obtain rfl := List.mem_singleton.1 hp
      exact .scalar (Nat.lt_trans (by decide) hsize) hsize
        (Value.isScalar_of_optionKind (.inr hkind)) hlocked
        (.inl (Value.isExact_of_kind (.inr hkind)))
  have halive : (Handler.defined ⟨0⟩ "Own").Alive e := by
    intro f hf
    simpa [hf] using hkept
  obtain ⟨hends, hbody⟩ := hcalls (.ofFuel ⟨[]⟩ 4) .commandLine ⟨9⟩ ⟨14⟩ _ _ false hx hy hequal
    hcomparable [] none
  refine ⟨harrives, hequal, hcomparable, hends, fun k hk => ?_⟩
  rcases hbody ⟨0⟩ "Own" rfl with ⟨-, hruns⟩ | ⟨hdeleted, -⟩
  · rcases List.mem_pair.1 hk with rfl | rfl <;> exact hruns _ hk
  · exact absurd halive hdeleted

/-! ## What a comparison does not see -/

/-- The function is replaced between the references, by one that gives back a List in a List. -/
def replaced : Engine :=
  ((referring [.function none "Own" emptyProcedure] [.function none "Own"
    ⟨[], [], [.giveBack (some (.list [.list []]))], false, false, false, true⟩] []).perform
      (.ofFuel ⟨[]⟩ 6) (holding "Own")).2

/-- Both references are bound to a List, each to one of its own. -/
def boundApart : Engine :=
  ((referring [] [] [.list [.list []]]).perform (.ofFuel ⟨[]⟩ 6) (holding "add")).2

/-- What is seen of the end of a call and of its result, if it gives one. -/
def seenOf (see : Engine → Value → Nat) : EStateM.Result Stop Engine Ref → Option Nat
  | .ok r e => some (see e (e.heap.value r))
  | .error _ _ => none

theorem seenOf_eq_of_endsAlike (see : Engine → Value → Nat) {m m' : Run Ref}
    (h : Run.EndsAlike e m m') : seenOf see (m e) = seenOf see (m' e) := by
  rcases h with heq | ⟨r, s, e', hr, hs, hrs⟩
  · rw [heq]
  · rw [hr, hs, seenOf, seenOf, hrs.value_eq]

/-- Equality does not see that a function was replaced, or deleted and defined anew, under its name;
nor does it see which Lists a function is bound to. -/
theorem not_forall_callsAlike :
    (¬∀ (host : Host) (e : Engine), Arrives host e → ∀ x y f g, e.heap.value x = .funcref f →
      e.heap.value y = .funcref g → Run.compare .equal false x y e = .ok true e →
        ∀ i c arguments receiver, Run.EndsAlike e
          (Run.callFuncref (Run.callHandler host i c) f arguments receiver)
          (Run.callFuncref (Run.callHandler host i c) g arguments receiver)) ∧
    ¬∀ (host : Host) (e : Engine), Arrives host e → ∀ x y f g, e.heap.value x = .funcref f →
      e.heap.value y = .funcref g → Run.compare .equal false x y e = .ok true e →
        f.handler = g.handler → ∀ i c arguments receiver, Run.EndsAlike e
          (Run.callFuncref (Run.callHandler host i c) f arguments receiver)
          (Run.callFuncref (Run.callHandler host i c) g arguments receiver) := by
  constructor
  · intro hclaim
    have harrives : Arrives ⟨[]⟩ replaced := .perform (arrives_holding ⟨[]⟩ "Own") 6 _
    obtain ⟨hx, hy, hequal⟩ := of_equalFuncrefs? (show equalFuncrefs? replaced ⟨6⟩ ⟨8⟩ =
      some (⟨.defined ⟨0⟩ "Own", [], none, false⟩, ⟨.defined ⟨1⟩ "Own", [], none, false⟩) by
        decide +kernel)
    have hends := hclaim ⟨[]⟩ replaced harrives ⟨6⟩ ⟨8⟩ _ _ hx hy hequal (.ofFuel ⟨[]⟩ 4)
      .commandLine [] none
    have hdiffer : seenOf (fun _ v => v.children.length)
          (calledNow ⟨.defined ⟨0⟩ "Own", [], none, false⟩ [] replaced) ≠
        seenOf (fun _ v => v.children.length)
          (calledNow ⟨.defined ⟨1⟩ "Own", [], none, false⟩ [] replaced) := by decide +kernel
    exact hdiffer (seenOf_eq_of_endsAlike _ hends)
  · intro hclaim
    have harrives : Arrives ⟨[]⟩ boundApart := .perform (arrives_holding ⟨[]⟩ "add") 6 _
    obtain ⟨hx, hy, hequal⟩ := of_equalFuncrefs? (show equalFuncrefs? boundApart ⟨8⟩ ⟨12⟩ =
      some (⟨.builtin .add, [⟨6⟩], none, false⟩, ⟨.builtin .add, [⟨10⟩], none, false⟩) by
        decide +kernel)
    have hends := hclaim ⟨[]⟩ boundApart harrives ⟨8⟩ ⟨12⟩ _ _ hx hy hequal rfl (.ofFuel ⟨[]⟩ 4)
      .commandLine [⟨0⟩] none
    have hdiffer : seenOf (fun e _ => (e.heap.value ⟨6⟩).children.length)
          (calledNow ⟨.builtin .add, [⟨6⟩], none, false⟩ [⟨0⟩] boundApart) ≠
        seenOf (fun e _ => (e.heap.value ⟨6⟩).children.length)
          (calledNow ⟨.builtin .add, [⟨10⟩], none, false⟩ [⟨0⟩] boundApart) := by decide +kernel
    exact hdiffer (seenOf_eq_of_endsAlike _ hends)

end Session

end VimL
