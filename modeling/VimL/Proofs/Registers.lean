import VimL.Proofs.FailedAssignments

/-!
# Registers

A register is read as an expression and by a function, and it is written by an assignment and by
another function. The two ways to write do the same to a register that both of them take, but only
the assignment refuses names that no register has. The two ways to read look at the same register
unless its name has capital letters. As long as no call writes a register of another name, a run
leaves all names alone that no register has.
-/

namespace VimL

/-- Names of registers are in small letters. -/
theorem lower_of_isRegisterName {name : String} (h : isRegisterName name = true) :
    Text.lower name = name := by
  unfold isRegisterName at h
  split at h
  · rename_i c hc
    have hletter : (c == '"' || c.isAlphanum) = true := by
      have hkinds : c.isAlphanum = ((c.isUpper || c.isLower) || c.isDigit) := rfl
      simp only [hkinds, Bool.or_eq_true] at h ⊢
      tauto
    have hsame := Run.of_forall_ascii (P := fun c => (c == '"' || c.isDigit || c.isLower) = true →
      Text.lowerFrom [] [c] = [c]) (by decide) hletter h
    rw [Text.lower, hc, hsame, ← hc, String.ofList_toList]
  · cases h

/-- What is a String exists, and so it is kept. -/
theorem Heap.Extends.value_eq_string {h h' : Heap} (hh : h.Extends h') {r : Ref} {text : String}
    (hr : h.value r = .string text) : h'.value r = .string text := by
  have hin : r.index < h.size := by
    by_contra hout
    simp [value, cell_of_size_le h r (Nat.le_of_not_lt hout), default, Cell.fresh] at hr
  unfold value
  rw [hh.cell r hin]
  exact hr

namespace Engine

/-- The text of a register; one that was never written is empty. -/
def registerText (e : Engine) (name : String) : String := (e.registers.find? name).getD ""

/-- The registers after a text was written. A name in capitals appends to the register of the small
letters. -/
def writtenRegisters (e : Engine) (name text : String) : Table String :=
  let before := if Text.isAllCapital name.toList then e.registerText (Text.lower name) else ""
  e.registers.insert (Text.lower name) (before ++ text)

variable (host : Host) (e : Engine) in
/-- What the two ways to read a register and the two ways to write it do. The reference stands for
its name. -/
structure UsesRegister (name : String) (r : Ref) : Prop where
  expression : ∀ i c, Run.evaluate host i c (.register name) e =
    Run.newText (e.registerText name) e
  getreg : ∀ i c receiver, Run.callHandler host i c (.builtin .getreg) [r] receiver e =
    Run.newText (e.registerText (Text.lower name)) e
  reads : ∀ i c receiver, Run.evaluate host i c (.register name) e =
      Run.callHandler host i c (.builtin .getreg) [r] receiver e ↔
    e.registerText name = e.registerText (Text.lower name)
  assign : isWritableRegister name = true → ∀ i c x right e₁ text,
    i.eval c x e = .ok right e₁ → e₁.heap.value right = .string text →
      ∃ e', Run.execute i c (.assign (.register name) .set x) e = .ok .normal e' ∧
        e'.registers = e₁.writtenRegisters name text
  refused : isWritableRegister name = false → ∀ i c op x,
    Run.execute i c (.assign (.register name) op x) e = .error (.ofCause (.badRegister name)) e
  setreg : ∀ i c content receiver text, e.heap.value content = .string text →
    ∃ zero e', Run.callHandler host i c (.builtin .setreg) [r, content] receiver e = .ok zero e' ∧
      e'.registers = e.writtenRegisters name text

end Engine

namespace Run

open Engine

variable {host : Host} {e : Engine} {name : String} {r : Ref}

theorem newText_inj {text text' : String} : newText text e = newText text' e ↔ text = text' := by
  refine ⟨fun h => ?_, fun h => h ▸ rfl⟩
  have hheaps : (e.heap.new (.string text)).2 = (e.heap.new (.string text')).2 :=
    congrArg Engine.heap (EStateM.Result.ok.inj h).2
  have hvalue := e.heap.value_new_self (.string text)
  rw [hheaps] at hvalue
  exact Value.string.inj (hvalue.symm.trans (e.heap.value_new_self (.string text')))

theorem text_of_eq (h : e.heap.value r = .string name) : text r e = .ok name e := by
  unfold text
  rw [bind_of_ok (value_of_eq h)]
  rfl

theorem registerName_of_ne (h : name ≠ "") : Library.registerName name = name := by
  simp [Library.registerName, h]

theorem callHandler_getreg (i : Interp) (c : Context) (receiver : Option Ref)
    (hr : e.heap.value r = .string name) :
    callHandler host i c (.builtin .getreg) [r] receiver e =
      newText (e.registerText (Library.registerName (Text.lower name))) e := by
  have hread : Library.getreg (some r) (e.enter (.native "getreg")) =
      newText (e.registerText (Library.registerName (Text.lower name)))
        (e.enter (.native "getreg")) := by
    have hname : text r (e.enter (.native "getreg")) = .ok name (e.enter (.native "getreg")) :=
      text_of_eq hr
    exact bind_of_ok hname
  have hrun : callHandler host i c (.builtin .getreg) [r] receiver e =
      afterwards (Library.getreg (some r)) e.leave (e.enter (.native "getreg")) := rfl
  rw [hrun]
  unfold afterwards
  rw [hread]
  rfl

theorem linesOf_of_eq {text : String} (h : e.heap.value r = .string text) :
    Library.linesOf r e = .ok text e := by
  unfold Library.linesOf
  rw [bind_of_ok (value_of_eq h)]
  rfl

theorem setreg_eq {content : Ref} {text : String} (hname : name ≠ "")
    (hr : e.heap.value r = .string name) (hcontent : e.heap.value content = .string text) :
    Library.setreg r content e =
      newInt 0 { e with registers := e.writtenRegisters name text } := by
  unfold Library.setreg
  rw [bind_of_ok (text_of_eq hr), bind_of_ok (linesOf_of_eq hcontent)]
  simp only [registerName_of_ne hname]
  unfold writtenRegisters
  split <;> rfl

theorem exists_callHandler_setreg {content : Ref} {text : String} (hname : name ≠ "")
    (hr : e.heap.value r = .string name) (hcontent : e.heap.value content = .string text)
    (i : Interp) (c : Context) (receiver : Option Ref) :
    ∃ zero e', callHandler host i c (.builtin .setreg) [r, content] receiver e = .ok zero e' ∧
      e'.registers = e.writtenRegisters name text := by
  have hwrite : Library.setreg r content (e.enter (.native "setreg")) = _ :=
    setreg_eq hname hr hcontent
  have hrun : callHandler host i c (.builtin .setreg) [r, content] receiver e =
      afterwards (Library.setreg r content) e.leave (e.enter (.native "setreg")) := rfl
  rw [hrun]
  unfold afterwards
  rw [hwrite]
  exact ⟨_, _, rfl, rfl⟩

variable {eval : Expr → Run Ref} {x : Expr}

theorem assignRegister_of_not_writable (h : isWritableRegister name = false)
    (op : AssignOperator) :
    assignRegister eval name op x e = .error (.ofCause (.badRegister name)) e := by
  unfold assignRegister
  rw [h]
  rfl

theorem exists_assignRegister (h : isWritableRegister name = true) {right : Ref} {e₁ : Engine}
    {text : String} (hright : eval x e = .ok right e₁)
    (htext : e₁.heap.value right = .string text) :
    ∃ e', assignRegister eval name .set x e = .ok () e' ∧
      e'.registers = e₁.writtenRegisters name text := by
  -- the old text is read in any case, and only a capital letter puts the new one behind it
  let before := e₁.registerText (Text.lower name)
  let e₂ := e₁.withHeap (e₁.heap.new (.string before)).2
  have hcurrent : e₂.heap.value (e₁.heap.new (.string before)).1 = .string before :=
    e₁.heap.value_new_self (.string before)
  have htext₂ : e₂.heap.value right = .string text := (Heap.Extends.new _ _).value_eq_string htext
  have hread : (newText before : Run Ref) e₁ = .ok (e₁.heap.new (.string before)).1 e₂ := rfl
  have hregister : register (Text.lower name) e₁ = .ok before e₁ := rfl
  unfold assignRegister
  dsimp only
  rw [if_neg (by simp [h]), if_neg (by decide), bind_of_ok hright, bind_of_ok hregister,
    bind_of_ok hread]
  cases hcapital : Text.isAllCapital name.toList with
  | false =>
    have hwritten : e₁.writtenRegisters name text = e₁.registers.insert (Text.lower name) text := by
      simp [writtenRegisters, hcapital]
    rw [hwritten, if_neg (by simp)]
    have hset : combine .set (some (e₁.heap.new (.string before)).1) right ("@" ++ name) e₂ =
      .ok right e₂ := rfl
    rw [bind_of_ok hset, bind_of_ok (text_of_eq htext₂)]
    exact ⟨_, rfl, rfl⟩
  | true =>
    have hwritten : e₁.writtenRegisters name text =
        e₁.registers.insert (Text.lower name) (before ++ text) := by
      simp [writtenRegisters, hcapital, before]
    rw [hwritten, if_pos ⟨rfl, rfl⟩]
    let e₃ := e₂.withHeap (e₂.heap.new (.string (before ++ text))).2
    have hconcat : combine .concat (some (e₁.heap.new (.string before)).1) right ("@" ++ name) e₂ =
        .ok (e₂.heap.new (.string (before ++ text))).1 e₃ := by
      unfold combine concat
      dsimp only
      rw [bind_of_ok (text_of_eq hcurrent), bind_of_ok (text_of_eq htext₂)]
      rfl
    have hboth : e₃.heap.value (e₂.heap.new (.string (before ++ text))).1 =
      .string (before ++ text) := e₂.heap.value_new_self _
    rw [bind_of_ok hconcat, bind_of_ok (text_of_eq hboth)]
    exact ⟨_, rfl, rfl⟩

theorem lower_ne_empty {c : Char} (hname : name.toList = [c]) : Text.lower name ≠ "" := by
  have hletter : Text.lowerFrom [] [c] ≠ [] := by
    unfold Text.lowerFrom Text.lowerChar
    dsimp only
    split <;> split <;> simp
  intro hempty
  rw [Text.lower, hname] at hempty
  exact hletter (String.ofList_eq_empty_iff.1 hempty)

theorem usesRegister (host : Host) {c : Char} (hname : name.toList = [c])
    (hr : e.heap.value r = .string name) : e.UsesRegister host name r where
  expression _ _ := rfl
  getreg i c receiver := by
    rw [callHandler_getreg i c receiver hr, registerName_of_ne (lower_ne_empty hname)]
  reads i c receiver := by
    rw [callHandler_getreg i c receiver hr, registerName_of_ne (lower_ne_empty hname)]
    exact newText_inj
  assign hwritable i c x right e₁ text hright htext := by
    obtain ⟨e', hassign, hregisters⟩ := exists_assignRegister hwritable hright htext
    exact ⟨e', bind_of_ok (f := fun _ => pure Signal.normal) hassign, hregisters⟩
  refused hrefused i c op x :=
    bind_of_error (f := fun _ => pure Signal.normal) (assignRegister_of_not_writable hrefused op)
  setreg i c content receiver text hcontent := by
    have hne : name ≠ "" := by
      rintro rfl
      cases hname
    exact exists_callHandler_setreg hne hr hcontent i c receiver

end Run

/-! ## Runs -/

/-- This call writes a register of another name than a register has. -/
def strays : Task → Engine → Bool
  | .call _ (.builtin .setreg) (r :: _) _, e =>
    match (e.heap.value r).toText with
    | .ok name => !isRegisterName (Text.lower (Library.registerName name))
    | .error _ => false
  | _, _ => false

theorem letters_of_not_strays {c : Context} {h : Handler} {arguments : List Ref}
    {receiver : Option Ref} {e : Engine}
    (hstrays : strays (.call c h arguments receiver) e = false) : h.Letters e arguments := by
  rintro rfl r hr name hname
  cases arguments with
  | nil => cases hr
  | cons first more =>
    obtain rfl := Option.mem_some_iff.1 hr
    unfold strays at hstrays
    dsimp only at hstrays
    rw [hname] at hstrays
    simpa using hstrays

namespace Engine

variable {e e' e'' : Engine}

/-- Names that no register has stand for the same texts, or for none. -/
def AgreesElsewhere (e e' : Engine) : Prop :=
  ∀ name, isRegisterName name = false → e'.registers.find? name = e.registers.find? name

/-- Names that no register has are left alone. -/
structure LettersRegisters (e e' : Engine) : Prop where
  grows : e.Grows e'
  others : e.AgreesElsewhere e'

theorem AgreesElsewhere.of_eq (hregisters : e'.registers = e.registers) :
    e.AgreesElsewhere e' := fun _ _ => by rw [hregisters]

theorem AgreesElsewhere.trans (h : e.AgreesElsewhere e') (h' : e'.AgreesElsewhere e'') :
    e.AgreesElsewhere e'' := fun name hname => (h' name hname).trans (h name hname)

namespace LettersRegisters

theorem of_eq (hgrows : e.Grows e') (hregisters : e'.registers = e.registers) :
    e.LettersRegisters e' := ⟨hgrows, .of_eq hregisters⟩

theorem trans (h : e.LettersRegisters e') (h' : e'.LettersRegisters e'') :
    e.LettersRegisters e'' := ⟨h.grows.trans h'.grows, h.others.trans h'.others⟩

theorem of_edit {d : Demands} (hd : d.lettered) (hedit : e.Edit d e') : e.LettersRegisters e' := by
  refine ⟨hedit.grows, fun other hother => ?_⟩
  cases hedit with
  | register name text hname =>
    refine Table.find?_insert_of_ne ?_ _ _
    rintro rfl
    simp [hname hd] at hother
  | bind p | unbind p => cases p <;> rfl
  | declare table | withdraw table => cases table <;> rfl
  | _ => rfl

theorem enter (e : Engine) (entry : CallEntry) : e.LettersRegisters (e.enter entry) := by
  cases entry <;> exact .of_eq (.of_eq rfl rfl rfl) rfl

theorem leave {entry : CallEntry} (h : (e.enter entry).LettersRegisters e') :
    e.LettersRegisters (e.leave e') :=
  (enter e entry).trans (h.trans (.of_eq (.of_eq rfl rfl rfl) rfl))

theorem restoreVim {err : ScriptError} {exception throwpoint : Ref}
    (h : (e.catching err exception throwpoint).LettersRegisters e') :
    e.LettersRegisters (e.restoreVim e') := by
  have hshow : e.LettersRegisters (e.catching err exception throwpoint) :=
    .of_eq (.of_eq rfl rfl rfl) rfl
  exact hshow.trans (h.trans (.of_eq (.of_eq rfl rfl rfl) rfl))

theorem leaveFinal {event : Event} (htry : (e.record event).LettersRegisters e')
    (hfinal : e'.enterFinal.LettersRegisters e'') (c : Context) (body : List Stmt) :
    e.LettersRegisters (e'.leaveFinal c body e'') := by
  have hbegan : e.LettersRegisters (e.record event) := .of_eq (grows_record e event) rfl
  exact hbegan.trans (htry.trans ⟨hfinal.grows.leaveFinal c body, hfinal.others⟩)

end LettersRegisters

end Engine

/-! ## The discipline -/

namespace Discipline

variable {host : Host} {base : Engine}

/-- Runs that write registers of no other name, from engines that agree with the base on those. -/
def lettering (host : Host) (base : Engine) : Discipline host where
  strict := False
  named := False
  listed := False
  minded := False
  lettered := True
  sparing := False
  fits _ := True
  runs _ := True
  fresh _ := True
  placed := False
  linear := False
  holds := base.AgreesElsewhere
  leads := Engine.LettersRegisters
  admits _ := True
  sound _ := False.elim
  wellFormed _ := False.elim
  function _ _ := trivial
  unnamed _ := False.elim
  unentered _ := False.elim
  newFrame _ := trivial
  registry _ := False.elim
  refl e := .of_eq (.refl e) rfl
  trans h h' := h.trans h'
  holds_of_leads he h := he.trans h.others
  grows h := h.grows
  affords _ := False.elim
  edit _ h := .of_edit trivial h
  create _ h _ _ := h.trans (.of_eq (.of_eq rfl rfl rfl) rfl)
  write _ h _ _ _ := h.trans (.of_eq (.of_eq rfl rfl rfl) rfl)
  began _ _ _ _ := .of_eq (Engine.grows_record _ _) rfl
  cancelled _ := .of_eq (Engine.grows_requestCancel _) rfl
  holds_catching he _ := he.trans (.of_eq rfl)
  caught _ h := h.restoreVim
  holds_enterFinal he := he.trans (.of_eq rfl)
  final _ _ htry hfinal := htry.leaveFinal hfinal _ _
  admits_error _ _ := trivial
  admits_mark _ _ _ := trivial
  admits_finished := trivial
  admits_internal _ _ := trivial

theorem opens_lettering (entry : CallEntry) :
    (lettering host base).Opens (lettering host base) entry :=
  .same (fun he => he.trans (Engine.LettersRegisters.enter _ entry).others) fun h => h.leave

end Discipline

open Discipline

/-- A run that stops before a call strays leaves all other names alone. -/
theorem Interp.obeys_lettering (host : Host) (base : Engine) (fuel : Nat) :
    (watching host strays fuel).Obeys (lettering host base) .any :=
  obeys_watching_of_meets (fun _ => Trees.coversExpr_any id (fun _ => trivial) _)
    (fun _ => Trees.coversStmt_any id (fun _ => trivial) id _ (fun _ => trivial) fun _ _ => trivial)
    (fun _ => Trees.callable_any _) (fun _ => trivial) opens_lettering trivial False.elim
    (fun _ _ _ _ _ hfree => ⟨fun _ => letters_of_not_strays hfree, False.elim⟩) False.elim
    (fun _ _ _ _ _ => trivial) fuel

/-! ## Sessions -/

namespace Session

/-- In every engine the two ways to write do the same with each name that both take, which is small
letters in the end, and the two ways to read see the same exactly if the register holds what that of
the small letters holds. A run in which no call strays leaves all names alone that no register
has. -/
theorem perform_lettersRegisters (host : Host) (e : Engine) (fuel : Nat) (r : Request) :
    (∀ name c shown, name.toList = [c] → e.heap.value shown = .string name →
      e.UsesRegister host name shown) ∧
    (∀ name, isWritableRegister name = true → isRegisterName (Text.lower name) = true) ∧
    (∀ name, isRegisterName name = true → Text.lower name = name) ∧
    ((r.perform (.watching host strays fuel) e).1.outcome ≠ .error .alarm →
      ∀ name, isRegisterName name = false →
        (r.perform (.ofFuel host fuel) e).2.registers.find? name = e.registers.find? name) := by
  refine ⟨fun name c shown => Run.usesRegister host, fun name => Run.isRegisterName_lower,
    fun name => lower_of_isRegisterName, fun hstrays name hname => ?_⟩
  have hstart : (r.start e).registers = e.registers := by cases r <;> rfl
  obtain ⟨e₁, _, _, hleads, hended, -⟩ :=
    Request.leads_perform (Interp.obeys_lettering host (r.start e) fuel) r.judged_any
      (Engine.AgreesElsewhere.of_eq rfl)
  rw [← Request.perform_eq_of_upTo (Interp.upTo_watching host strays fuel) hstrays, hended,
    ← hstart]
  exact hleads.others name hname

/-- The register names another one, which takes its text, and then doubles its own. -/
def doubling : Request :=
  .run .commandLine [.evaluate (.call none "setreg" [.register "a", .register "a"]),
    .assign (.register "A") .set (.register "a")]

/-- The name of a register has been made. -/
def naming (name : String) : Engine :=
  (holding "x").withHeap ((holding "x").heap.new (.string name)).2

def nameOf (name : String) : Ref := ((holding "x").heap.new (.string name)).1

theorem value_nameOf (name : String) : (naming name).heap.value (nameOf name) = .string name :=
  Heap.value_new_self _ _

theorem arrives_naming (name : String) : Arrives ⟨[]⟩ (naming name) := by
  have hnew : (Run.newSharing (.string name)).Ends (holding "x") (.ok (nameOf name))
      (naming name) := Run.ends_ok_iff.2 rfl
  exact .constant (arrives_holding ⟨[]⟩ "x") hnew

theorem perform_lettersRegisters_doubling :
    "A".toList = ['A'] ∧ (naming "A").heap.value (nameOf "A") = .string "A" ∧
    isWritableRegister "A" = true ∧
    (doubling.perform (.watching ⟨[]⟩ strays 6) (naming "A")).1.outcome ≠ .error .alarm ∧
    isRegisterName "%" = false ∧ (naming "A").UsesRegister ⟨[]⟩ "A" (nameOf "A") ∧
    Text.lower (Text.lower "A") = Text.lower "A" ∧
    (doubling.perform (.ofFuel ⟨[]⟩ 6) (naming "A")).2.registers.find? "%" =
      (naming "A").registers.find? "%" := by
  obtain ⟨huses, hwritable, hsmall, hothers⟩ :=
    perform_lettersRegisters ⟨[]⟩ (naming "A") 6 doubling
  have hends : (doubling.perform (.watching ⟨[]⟩ strays 6) (naming "A")).1.outcome.isOk = true := by
    decide +kernel
  have hwatched : (doubling.perform (.watching ⟨[]⟩ strays 6) (naming "A")).1.outcome ≠
      .error .alarm := by
    intro halarm
    rw [halarm] at hends
    cases hends
  have hcapital : isWritableRegister "A" = true := by decide
  have hpercent : isRegisterName "%" = false := by decide
  exact ⟨rfl, value_nameOf "A", hcapital, hwatched, hpercent,
    huses "A" 'A' (nameOf "A") rfl (value_nameOf "A"), hsmall _ (hwritable "A" hcapital),
    hothers hwatched "%" hpercent⟩

/-- The two ways to read a register do not always see the same, and what the assignment refuses is
not always refused by the function. -/
theorem not_forall_alike :
    (¬∀ (e : Engine) (name : String) (c : Char) (r : Ref), Arrives ⟨[]⟩ e → name.toList = [c] →
      e.heap.value r = .string name → ∀ i c receiver, Run.evaluate ⟨[]⟩ i c (.register name) e =
        Run.callHandler ⟨[]⟩ i c (.builtin .getreg) [r] receiver e) ∧
    ¬∀ (e : Engine) (name : String) (c : Char) (r content : Ref) (text : String),
      Arrives ⟨[]⟩ e → name.toList = [c] → e.heap.value r = .string name →
      e.heap.value content = .string text →
      ∀ i c x receiver, i.eval c x e = .ok content e → ∀ stop e',
        Run.execute i c (.assign (.register name) .set x) e = .error stop e' →
        ∃ stop' e'', Run.callHandler ⟨[]⟩ i c (.builtin .setreg) [r, content] receiver e =
          .error stop' e'' := by
  constructor
  · intro hreads
    have hcapital := Run.usesRegister (e := naming "A") ⟨[]⟩ (c := 'A') rfl (value_nameOf "A")
    have hsame := (hcapital.reads .spent .commandLine none).1
      (hreads _ "A" 'A' _ (arrives_naming "A") rfl (value_nameOf "A") ..)
    revert hsame
    decide +kernel
  · intro hwrites
    have hpercent := Run.usesRegister (e := naming "%") ⟨[]⟩ (c := '%') rfl (value_nameOf "%")
    have hrefused := hpercent.refused (by decide) (.ofFuel ⟨[]⟩ 1) .commandLine .set
      (.const (nameOf "%"))
    obtain ⟨_, _, hfails⟩ := hwrites _ "%" '%' _ _ _ (arrives_naming "%") rfl (value_nameOf "%")
      (value_nameOf "%") (.ofFuel ⟨[]⟩ 1) .commandLine (.const (nameOf "%")) none rfl _ _ hrefused
    obtain ⟨_, _, hsucceeds, -⟩ := hpercent.setreg (.ofFuel ⟨[]⟩ 1) .commandLine (nameOf "%") none
      "%" (value_nameOf "%")
    rw [hsucceeds] at hfails
    cases hfails

end Session

end VimL
