import VimL.Proofs.Registry

/-!
# Functions that are named by a text

A text may stand for a function in four places. What `function` and `call` are given is taken apart
into a scope and a name. What `sort` is given, and what a call expression calls, is a name as it
stands, even if it begins like a scope. So the four places agree on a text without a scope. On a
text with one they agree only if none of them finds a function.
-/

namespace VimL

/-- Where a text stands for a function: in a call of one of these three native functions, or as the
value that a call expression calls. -/
inductive TextPlace where
  | function
  | call
  | sort
  | callee

/-- A function that has to exist. -/
def required (cause : Cause) : Except Stop (Option Handler) → Except Stop Handler
  | .ok (some h) => .ok h
  | .ok none => .error (.ofCause cause)
  | .error stop => .error stop

namespace TextPlace

/-- The scope and the name that the text is taken for. -/
def parts : TextPlace → String → Option Scope × String
  | .function, text | .call, text => Scope.split text
  | .sort, text | .callee, text => (none, text)

/-- What is raised if there is no such function. -/
def unknown : TextPlace → String → Cause
  | .function, text => .unknownFunctionName text
  | _, text => .unknownFunction text

/-- The function that the text stands for. -/
def resolve (place : TextPlace) (host : Host) (c : Context) (e : Engine) (text : String) :
    Except Stop Handler :=
  required (place.unknown text)
    (e.handlerNamed? host.native? c (place.parts text).1 (place.parts text).2)

/-- Whoever has the text in this place goes on with this function, or fails like this. Nothing is
changed before. -/
def Takes (place : TextPlace) (host : Host) (c : Context) (e : Engine) (text : String)
    (found : Except Stop Handler) : Prop :=
  match place with
  | .function => ∀ call r, e.heap.value r = .string text →
    Library.runBuiltin ⟨host, c, call⟩ .function [r] e =
      (Run.settle found >>= fun h => Run.newSharing (.funcref (.ofHandler h))) e
  | .call => ∀ call r arguments items, e.heap.value r = .string text →
    e.heap.value arguments = .list items →
      Library.runBuiltin ⟨host, c, call⟩ .call [r, arguments] e =
        (Run.settle found >>= fun h => Run.callFuncref call (.ofHandler h) items none) e
  | .sort => ∀ call r list items, e.heap.value r = .string text →
    e.heap.value list = .list items → e.heap.isLocked list = false →
      Library.runBuiltin ⟨host, c, call⟩ .sort [list, r] e =
        (Run.settle found >>= fun h =>
          Library.sortByFunction ⟨host, c, call⟩ list items (.ofHandler h)) e
  | .callee => ∀ (i : Interp) callee arguments r receiver e₀, e.heap.value r = .string text →
    Run.evalCallee i c callee e₀ = .ok (r, receiver) e →
      Run.evalCallValue host i c callee arguments e₀ =
        (Run.settle found >>= fun h => Run.evalAll i c arguments >>= fun rs =>
          Run.callFuncref (i.call c) (.ofHandler h) rs receiver) e

end TextPlace

/-- A scope that is split off stands in front of the name. -/
theorem Scope.scopeText_split (text : String) :
    scopeText (split text).1 ++ (split text).2 = text := by
  unfold split
  split
  · rename_i letter next rest htext
    split
    · rename_i scope hscope
      have hletter : scope.letter = letter := by
        have := List.find?_some hscope
        simpa using this
      subst hletter
      apply String.toList_injective
      simp [scopeText, prefixText, htext]
    · simp [scopeText]
  · simp [scopeText]

variable {host : Host} {c : Context} {e : Engine} {text : String}

namespace Run

/-- A name that is looked up and has to be that of a function. -/
theorem handler?_required {α : Type} {cause : Cause} {m : Option Handler → Run α}
    {k : Handler → Run α} (hsome : ∀ h, m (some h) = k h) (hnone : m none = raise cause)
    (host : Host) (c : Context) (e : Engine) (scope : Option Scope) (name : String) :
    (handler? host.native? c scope name >>= m) e =
      (settle (required cause (e.handlerNamed? host.native? c scope name)) >>= k) e := by
  rw [bind_congr_at (handler?_eq host.native? c scope name e)]
  cases e.handlerNamed? host.native? c scope name with
  | error stop => rfl
  | ok found =>
    cases found with
    | none => exact congrFun hnone e
    | some h => exact congrFun (hsome h) e

theorem handler_eq (host : Host) (c : Context) (e : Engine) (scope : Option Scope)
    (name : String) : handler host.native? c scope name e =
      settle (required (.unknownFunction (scopeText scope ++ name))
        (e.handlerNamed? host.native? c scope name)) e := by
  unfold handler
  refine (handler?_required (fun _ => rfl) rfl host c e scope name).trans ?_
  rw [bind_pure]

end Run

namespace TextPlace

/-! ## What is done with a text -/

variable (host : Host) (c : Context) (e : Engine) (text : String)

/-- The whole text is a name. -/
theorem handler_whole : Run.handler host.native? c none text e =
    Run.settle (required (.unknownFunction text) (e.handlerNamed? host.native? c none text)) e := by
  rw [Run.handler_eq, show scopeText none ++ text = text from String.empty_append]

/-- A scope is split off the text. -/
theorem handler_split :
    Run.handler host.native? c (Scope.split text).1 (Scope.split text).2 e =
      Run.settle (call.resolve host c e text) e := by
  rw [Run.handler_eq, Scope.scopeText_split]
  rfl

theorem takes_function : function.Takes host c e text (function.resolve host c e text) := by
  intro call r hr
  have hname : Run.value r e = .ok (.string text) e := Run.value_of_eq hr
  have hbindings : Library.bindings none none e = .ok (none, none) e := rfl
  have hbound : Library.boundArguments none e = .ok [] e := rfl
  have hreceiver : Library.checkReceiver none .badReceiver e = .ok () e := rfl
  have hreference : Library.referenceTo ⟨host, c, call⟩ text e =
      (Run.settle (function.resolve host c e text) >>= fun h => pure (Funcref.ofHandler h)) e :=
    Run.handler?_required (fun _ => rfl) rfl host c e _ _
  change Library.function ⟨host, c, call⟩ r none none e = _
  unfold Library.function
  rw [Run.bind_of_ok hbindings]
  dsimp only
  rw [Run.bind_of_ok hbound, Run.bind_of_ok hreceiver, Run.bind_of_ok hname]
  refine (Run.bind_congr_at hreference _).trans ?_
  cases function.resolve host c e text <;> rfl

theorem takes_call : call.Takes host c e text (call.resolve host c e text) := by
  intro call r arguments items hr hitems
  have hname : Run.value r e = .ok (.string text) e := Run.value_of_eq hr
  have hlist : Run.value arguments e = .ok (.list items) e := Run.value_of_eq hitems
  have hreceiver : Library.checkReceiver none .dictionaryRequired e = .ok () e := rfl
  change Library.call ⟨host, c, call⟩ r arguments none e = _
  unfold Library.call
  rw [Run.bind_of_ok hlist]
  dsimp only
  rw [Run.bind_of_ok hreceiver, Run.bind_of_ok hname]
  refine (Run.bind_congr_at (handler_split host c e text) _).trans ?_
  cases TextPlace.call.resolve host c e text <;> rfl

theorem takes_sort (hmode : Library.sortKeyOf? (.string text) = none) :
    sort.Takes host c e text (sort.resolve host c e text) := by
  intro call r list items hr hitems hfree
  have hname : Run.value r e = .ok (.string text) e := Run.value_of_eq hr
  have hlist : Run.value list e = .ok (.list items) e := Run.value_of_eq hitems
  have hcheck : Library.checkArgument list "sort" e = .ok () e := Run.checkUnlocked_of_free hfree
  change Library.sort ⟨host, c, call⟩ list (some r) e = _
  unfold Library.sort
  rw [Run.bind_of_ok hlist]
  dsimp only
  rw [Run.bind_of_ok hcheck, Run.bind_of_ok hname]
  dsimp only
  rw [hmode]
  exact Run.bind_congr_at (handler_whole host c e text) _

theorem takes_callee : callee.Takes host c e text (callee.resolve host c e text) := by
  intro i callee arguments r receiver e₀ hr hcallee
  have hname : Run.value r e = .ok (.string text) e := Run.value_of_eq hr
  have hfuncref : Run.funcrefOf host c r e =
      (Run.settle (TextPlace.callee.resolve host c e text) >>= fun h =>
        pure (Funcref.ofHandler h)) e := by
    unfold Run.funcrefOf
    rw [Run.bind_of_ok hname]
    exact Run.bind_congr_at (handler_whole host c e text) _
  unfold Run.evalCallValue
  rw [Run.bind_of_ok hcallee]
  refine (Run.bind_congr_at hfuncref _).trans ?_
  cases TextPlace.callee.resolve host c e text <;> rfl

theorem takes_resolve (place : TextPlace) (hmode : Library.sortKeyOf? (.string text) = none) :
    place.Takes host c e text (place.resolve host c e text) := by
  cases place with
  | function => exact takes_function host c e text
  | call => exact takes_call host c e text
  | sort => exact takes_sort host c e text hmode
  | callee => exact takes_callee host c e text

end TextPlace

/-! ## Where all places agree -/

namespace Scope

/-- A scope is split off together with its colon, or the text stays as it is. -/
theorem split_cases (text : String) :
    split text = (none, text) ∨ (split text).1.isSome = true ∧ ':' ∈ text.toList := by
  unfold split
  split
  · rename_i htext
    split
    · exact .inr ⟨rfl, by simp [htext]⟩
    · exact .inl rfl
  · exact .inl rfl

end Scope

theorem Host.ne_defined_of_native? {h : Handler} (hnative : host.native? text = some h)
    (id : FunctionId) (name : String) : h ≠ .defined id name := by
  rintro rfl
  unfold Host.native? at hnative
  split at hnative
  · cases hnative
  · obtain ⟨b, -, hb⟩ := Option.map_eq_some_iff.1 hnative
    cases hb

theorem Engine.of_handlerNamed?_error {natives : String → Option Handler} {scope : Option Scope}
    {name : String} {stop : Stop} (h : e.handlerNamed? natives c scope name = .error stop) :
    c.script = none ∧ scope = some .script ∧ stop = .ofCause (.noScriptForFunction name) := by
  unfold handlerNamed? at h
  split at h
  · cases h
  split at h
  · cases h
  rename_i hlookup
  obtain rfl := Except.error.inj h
  unfold definedFunction? at hlookup
  split at hlookup
  · cases hlookup
  · split at hlookup
    · cases hlookup
    · rename_i hscript
      exact ⟨hscript, rfl, (Except.error.inj hlookup).symm⟩
  · split at hlookup <;> cases hlookup
  · cases hlookup

/-- What is found in a certain scope is found in a table. -/
theorem Engine.exists_handlerOf {natives : String → Option Handler} {scope : Option Scope}
    {name : String} {h : Handler} (hscope : scope.isSome = true)
    (hfound : e.handlerNamed? natives c scope name = .ok (some h)) : ∃ id, e.handlerOf id = h := by
  obtain ⟨own, rfl⟩ := Option.isSome_iff_exists.1 hscope
  have hfirst : (if (some own).isNone then natives name else none) = none := rfl
  unfold handlerNamed? at hfound
  rw [hfirst] at hfound
  cases hlookup : e.definedFunction? c (some own) name with
  | error stop => simp [hlookup] at hfound
  | ok found =>
    rw [hlookup] at hfound
    obtain ⟨id, -, hid⟩ := Option.map_eq_some_iff.1 (Except.ok.inj hfound)
    exact ⟨id, hid⟩

namespace TextPlace

variable {place : TextPlace}

theorem resolve_eq_ok_iff {h : Handler} : place.resolve host c e text = .ok h ↔
    e.handlerNamed? host.native? c (place.parts text).1 (place.parts text).2 = .ok (some h) := by
  unfold resolve
  cases e.handlerNamed? host.native? c (place.parts text).1 (place.parts text).2 with
  | error stop => simp [required]
  | ok found => cases found <;> simp [required]

theorem exists_error_of_forall_ne (hnone : ∀ h, place.resolve host c e text ≠ .ok h) :
    ∃ stop, place.resolve host c e text = .error stop := by
  cases hresolve : place.resolve host c e text with
  | error stop => exact ⟨stop, rfl⟩
  | ok h => exact absurd hresolve (hnone h)

/-- A function is not found because there is none, or because a function of a script is asked for
where there is no script. -/
theorem of_resolve_error {stop : Stop} (h : place.resolve host c e text = .error stop) :
    stop = .ofCause (place.unknown text) ∨
      c.script = none ∧ (place.parts text).1 = some .script ∧
        stop = .ofCause (.noScriptForFunction (place.parts text).2) := by
  unfold resolve at h
  cases hnamed : e.handlerNamed? host.native? c (place.parts text).1 (place.parts text).2 with
  | ok found =>
    rw [hnamed] at h
    cases found with
    | none => exact .inl (Except.error.inj h).symm
    | some found => cases h
  | error other =>
    rw [hnamed] at h
    obtain rfl := Except.error.inj h
    exact .inr (Engine.of_handlerNamed?_error hnamed)

end TextPlace

namespace Engine

variable (host c e text) in
/-- The text stands for one function wherever it stands, or for none. -/
def Agrees : Prop :=
  (∃ h, ∀ place : TextPlace, place.resolve host c e text = .ok h) ∨
    ∀ place : TextPlace, ∃ stop, place.resolve host c e text = .error stop

/-- Without a scope, there is nothing to take apart. -/
theorem agrees_of_plain (hplain : Scope.split text = (none, text)) : e.Agrees host c text := by
  have hparts (place : TextPlace) : place.parts text = (none, text) := by
    cases place with
    | function | call => exact hplain
    | sort | callee => rfl
  by_cases hfound : ∃ h, e.handlerNamed? host.native? c none text = .ok (some h)
  · obtain ⟨h, hh⟩ := hfound
    refine .inl ⟨h, fun place => TextPlace.resolve_eq_ok_iff.2 ?_⟩
    rwa [hparts]
  · refine .inr fun place => TextPlace.exists_error_of_forall_ne fun h hok => hfound ⟨h, ?_⟩
    rw [TextPlace.resolve_eq_ok_iff, hparts] at hok
    exact hok

/-- No table lists a name with a colon. -/
theorem Registered.handlerNamed?_of_colon (he : e.Registered) (host : Host) (c : Context)
    (hcolon : ':' ∈ text.toList) :
    e.handlerNamed? host.native? c none text = .ok (host.native? text) := by
  have hnone : e.definedFunction? c none text = .ok none := by
    cases hlookup : e.definedFunction? c none text with
    | error stop =>
      unfold definedFunction? at hlookup
      dsimp only at hlookup
      split at hlookup <;> cases hlookup
    | ok found =>
      cases found with
      | none => rfl
      | some id =>
        obtain ⟨f, -, hbelongs, -⟩ := he.exists_found hlookup
        exact absurd hcolon hbelongs.plain
  have hfirst : (if (none : Option Scope).isNone then host.native? text else none) =
      host.native? text := rfl
  unfold handlerNamed?
  rw [hfirst, hnone]
  cases host.native? text <;> rfl

/-- With a scope, the places find functions in tables on the one hand, and native ones on the
other. -/
theorem Registered.agrees_iff_of_scoped (he : e.Registered) (host : Host) (c : Context)
    (hscope : (Scope.split text).1.isSome = true) (hcolon : ':' ∈ text.toList) :
    e.Agrees host c text ↔ host.native? text = none ∧
      ∀ h, TextPlace.function.resolve host c e text ≠ .ok h := by
  have hwhole (h : Handler) {place : TextPlace} (hparts : place.parts text = (none, text)) :
      place.resolve host c e text = .ok h ↔ host.native? text = some h := by
    rw [TextPlace.resolve_eq_ok_iff, hparts, he.handlerNamed?_of_colon host c hcolon]
    simp only [Except.ok.injEq]
  have hsplit (h : Handler) : TextPlace.call.resolve host c e text = .ok h ↔
      TextPlace.function.resolve host c e text = .ok h := by
    rw [TextPlace.resolve_eq_ok_iff, TextPlace.resolve_eq_ok_iff]
    rfl
  constructor
  · rintro (⟨h, hall⟩ | hnone)
    · have hnative : host.native? text = some h := (hwhole h rfl).1 (hall .callee)
      obtain ⟨id, hid⟩ := exists_handlerOf hscope (TextPlace.resolve_eq_ok_iff.1 (hall .function))
      exact absurd hid.symm (Host.ne_defined_of_native? hnative id _)
    · refine ⟨?_, fun h hok => ?_⟩
      · rw [Option.eq_none_iff_forall_ne_some]
        intro h hnative
        obtain ⟨stop, hstop⟩ := hnone .callee
        cases ((hwhole h rfl).2 hnative).symm.trans hstop
      · obtain ⟨stop, hstop⟩ := hnone .function
        cases hok.symm.trans hstop
  · rintro ⟨hnative, hnone⟩
    refine .inr fun place => TextPlace.exists_error_of_forall_ne fun h hok => ?_
    cases place with
    | function => exact hnone h hok
    | call => exact hnone h ((hsplit h).1 hok)
    | sort | callee => cases hnative.symm.trans ((hwhole h rfl).1 hok)

/-- What a text stands for, in each of the places where it may stand for a function. -/
structure ResolvesTexts (host : Host) (e : Engine) : Prop where
  takes : ∀ c text, Library.sortKeyOf? (.string text) = none → ∀ place : TextPlace,
    place.Takes host c e text (place.resolve host c e text)
  fails : ∀ c text (place : TextPlace) stop, place.resolve host c e text = .error stop →
    stop = .ofCause (place.unknown text) ∨
      c.script = none ∧ (place.parts text).1 = some .script ∧
        stop = .ofCause (.noScriptForFunction (place.parts text).2)
  whole : ∀ c text (place : TextPlace), (Scope.split text).1 ≠ none →
    place.parts text = (none, text) →
      place.resolve host c e text = required (place.unknown text) (.ok (host.native? text))
  agrees : ∀ c text, e.Agrees host c text ↔ (Scope.split text).1 = none ∨
    host.native? text = none ∧ ∀ h, TextPlace.function.resolve host c e text ≠ .ok h

theorem Registered.resolvesTexts (he : e.Registered) (host : Host) : e.ResolvesTexts host where
  takes c text hmode place := place.takes_resolve host c e text hmode
  fails c text place stop h := TextPlace.of_resolve_error h
  whole c text place hscope hparts := by
    obtain ⟨-, hcolon⟩ := (Scope.split_cases text).resolve_left fun hplain =>
      hscope (congrArg Prod.fst hplain)
    unfold TextPlace.resolve
    rw [hparts, he.handlerNamed?_of_colon host c hcolon]
  agrees c text := by
    rcases Scope.split_cases text with hplain | ⟨hscope, hcolon⟩
    · exact iff_of_true (agrees_of_plain hplain) (.inl (congrArg Prod.fst hplain))
    · rw [he.agrees_iff_of_scoped host c hscope hcolon]
      exact (or_iff_right (Option.isSome_iff_ne_none.1 hscope)).symm

end Engine

/-! ## Sessions -/

namespace Session

/-- Whatever a session asks for, the four places agree on a text without a scope. On a text with
one, `sort` and call expressions only find native functions, and the other two places only
functions in tables. So it is between the runs of the session and in every step of them. -/
theorem perform_resolvesTexts (he : Arrives host e) (fuel : Nat) (r : Request) :
    e.ResolvesTexts host ∧ (r.perform (.ofFuel host fuel) e).2.ResolvesTexts host ∧
    ∀ hit : Task → Engine → Bool, (∀ task e₁, e₁.ResolvesTexts host → hit task e₁ = false) →
      r.perform (.watching host hit fuel) e = r.perform (.ofFuel host fuel) e := by
  obtain ⟨hended, -⟩ := keepsFunctions_perform he.registered host fuel r
  exact ⟨he.registered.resolvesTexts host, hended.resolvesTexts host, fun _ hhit =>
    perform_watching_registering he fuel r fun task e₁ he₁ _ =>
      hhit task e₁ (he₁.resolvesTexts host)⟩

theorem perform_resolvesTexts_owning :
    Arrives ⟨[]⟩ (owning "Own") ∧ ∃ h, ∀ place : TextPlace,
      place.resolve ⟨[]⟩ .commandLine (owning "Own") "Own" = .ok h := by
  have harrives : Arrives ⟨[]⟩ (owning "Own") := arrives_owning "Own"
  obtain ⟨hresolves, -, -⟩ := perform_resolvesTexts harrives 4 deleting
  refine ⟨harrives, ((hresolves.agrees .commandLine "Own").2 (.inl rfl)).resolve_right ?_⟩
  intro hnone
  obtain ⟨stop, hstop⟩ := hnone .function
  have hfound : TextPlace.function.resolve ⟨[]⟩ .commandLine (owning "Own") "Own" =
      .ok (.defined ⟨0⟩ "Own") := rfl
  cases hfound.symm.trans hstop

/-- The host has made a text that gives a scope and the name of the function. -/
def scopeNaming : Engine :=
  match Run.newSharing (.string "g:Own") (owning "Own") with
  | .ok _ e => e
  | .error _ e => e

/-- `function` finds the function of the scope, and a call expression does not. -/
theorem not_forall_takes :
    ¬∀ (host : Host) (e : Engine), Arrives host e → ∀ c text,
      Library.sortKeyOf? (.string text) = none →
        (∃ h, ∀ place : TextPlace, place.Takes host c e text (.ok h)) ∨
          ∀ place : TextPlace, ∃ stop, place.Takes host c e text (.error stop) := by
  intro hclaim
  let r : Ref := ⟨(owning "Own").heap.size⟩
  have hnew : (Run.newSharing (.string "g:Own")).Ends (owning "Own") (.ok r) scopeNaming := rfl
  have harrives : Arrives ⟨[]⟩ scopeNaming := .constant (arrives_owning "Own") hnew
  rcases hclaim ⟨[]⟩ scopeNaming harrives .commandLine "g:Own" rfl with ⟨h, htakes⟩ | hfails
  · let i : Interp := { Interp.ofFuel ⟨[]⟩ 1 with call := fun _ _ _ _ => pure r }
    have hcallee := htakes .callee i (.const r) [] r none scopeNaming rfl rfl
    have hunknown : Run.evalCallValue ⟨[]⟩ i .commandLine (.const r) [] scopeNaming =
        .error (.ofCause (.unknownFunction "g:Own")) scopeNaming := rfl
    rw [hunknown] at hcallee
    by_cases halive : h.Alive scopeNaming
    · have hcalls :=
        Run.callFuncref_of_alive (i.call .commandLine) (f := .ofHandler h) [] none halive
      cases hcallee.trans hcalls
    · obtain ⟨_, name, -, hdeleted⟩ :=
        Run.callFuncref_of_deleted (i.call .commandLine) (f := .ofHandler h) [] none halive
      cases hcallee.trans hdeleted
  · obtain ⟨stop, htakes⟩ := hfails .function
    cases htakes (fun _ _ _ => pure r) r rfl

end Session

end VimL
