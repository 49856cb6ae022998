import VimL.Proofs.Runs.Calls

/-!
# Runs of expressions and statements

If the interpreter for the parts of a tree keeps to a discipline, so does the tree.
-/

namespace VimL

variable {host : Host} {D : Discipline host} {T : Trees}

namespace Run

variable {i : Interp} (c : Context)

/-! ## Expressions -/

section Expressions

theorem keeps_evalAll {xs : List Expr} (hxs : ∀ x ∈ xs, Keeps D (i.eval c x)) :
    Keeps D (evalAll i c xs) := by
  induction xs with
  | nil => unfold evalAll; infer_instance
  | cons x rest ih =>
    have := hxs x List.mem_cons_self
    have := ih fun y hy => hxs y (List.mem_cons_of_mem _ hy)
    unfold evalAll
    infer_instance

theorem gathers_evalItems {xs : List Expr} (hxs : ∀ x ∈ xs, Keeps D (i.eval c x)) :
    Gathers D (evalItems i c xs) := by
  induction xs with
  | nil => unfold evalItems; infer_instance
  | cons x rest ih =>
    have := hxs x List.mem_cons_self
    have := ih fun y hy => hxs y (List.mem_cons_of_mem _ hy)
    unfold evalItems
    exact gathers_after fun r => inferInstance

/-- The values so far are not copied again, so that they keep their room. -/
theorem since_evalEntries {xs : List (Expr × Expr)}
    (hxs : ∀ entry ∈ xs, Keeps D (i.eval c entry.1) ∧ Keeps D (i.eval c entry.2)) {e e' : Engine}
    {entries : Table Ref} (h : D.linear → e.Affords e' entries.values) :
    Since D e e' (evalEntries i c entries xs) fun t e'' => D.linear → e.Affords e'' t.values := by
  induction xs generalizing e' entries with
  | nil => exact .pure h
  | cons entry rest ih =>
    obtain ⟨hkey, hvalue⟩ := hxs entry List.mem_cons_self
    unfold evalEntries
    refine .affords_bind h fun k e₁ _ h => .affords_bind h fun name e₂ _ h => ?_
    refine .affords_bind h fun v e₃ _ h => ?_
    refine (Since.of_allows (Gathers.allows e₃)).bind fun r e₄ _ hr => ?_
    refine ih (fun y hy => hxs y (List.mem_cons_of_mem _ hy)) fun hlinear => ?_
    refine ((h hlinear).trans (hr hlinear)).mono fun s => ?_
    rw [List.count_append]
    exact entries.count_values_insert name r s

theorem gathers_evalEntries {xs : List (Expr × Expr)}
    (hxs : ∀ entry ∈ xs, Keeps D (i.eval c entry.1) ∧ Keeps D (i.eval c entry.2)) :
    Gathers D (evalEntries i c .empty xs) :=
  ⟨fun e => since_evalEntries c hxs fun _ => .refl e⟩

theorem keeps_evalRange {container : Expr} {first last : Option Expr}
    [Keeps D (i.eval c container)] (hfirst : ∀ x ∈ first, Keeps D (i.eval c x))
    (hlast : ∀ x ∈ last, Keeps D (i.eval c x)) :
    Keeps D (evalRange i c container first last) := by
  have hfirst := keeps_bound hfirst
  have hlast := keeps_bound hlast
  unfold evalRange
  infer_instance

theorem keeps_evalCallee {callee : Expr} (h : ∀ x ∈ callee.calleeParts, Keeps D (i.eval c x)) :
    Keeps D (evalCallee i c callee) := by
  unfold evalCallee
  cases callee with
  | index container key =>
    have := h container (by simp [Expr.calleeParts])
    have := h key (by simp [Expr.calleeParts])
    refine .bind fun r => .bind fun k => .bind fun f => .bind fun v => ?_
    cases v <;> infer_instance
  | _ =>
    have := h _ (List.mem_singleton.2 rfl)
    infer_instance

theorem allows_funcrefOf (e : Engine) (r : Ref) : Allows D e (funcrefOf host c r)
    fun f e' => D.strict → f.handler.Known host e' := by
  unfold funcrefOf
  refine (allows_value e r).bind fun v e₁ _ hv => ?_
  cases v with
  | funcref f => exact .pure fun hstrict => hv.2 hstrict f rfl
  | string name => exact (allows_handler e₁ c none name).bind fun h e₂ _ hh => .pure hh.known
  | _ => exact .get_bind .raise

theorem keeps_newLambda (parameters : List String) {body : Expr}
    (hfits : ∀ name c, D.fits (.lambda name parameters body c)) :
    Keeps D (newLambda c parameters body) := by
  have hnumber : Keeps D (modifyGet fun e =>
      (e.lambdas + 1, { e with lambdas := e.lambdas + 1 }) : Run Nat) :=
    keeps_modifyGet fun e he => D.edit he (.count e.numberedFunctions (e.lambdas + 1))
  refine ⟨fun e => ?_⟩
  unfold newLambda
  refine Allows.keeps_bind fun n e₁ _ => ?_
  refine (allows_newFunction e₁ (hfits _ c) rfl (.inl rfl)).bind fun id e₂ _ ⟨hid, _⟩ => ?_
  exact (allows_newFuncref (h := .defined id _) fun _ => hid).mono fun _ _ _ _ => trivial

section Calls

variable {c} (hi : i.ObeysIn D T c)

include hi

theorem allows_callValue {e : Engine} {f : Funcref} (hf : D.strict → f.handler.Known host e)
    (arguments : List Ref) (receiver : Option Ref) :
    Allows D e (callFuncref (i.call c) f arguments receiver) fun _ _ => True :=
  allows_callFuncref hf (hi.call · _) arguments receiver

theorem keeps_evalCall (scope : Option Scope) (name : String) {arguments : List Expr}
    (harguments : ∀ x ∈ arguments, Keeps D (i.eval c x)) :
    Keeps D (evalCall host i c scope name arguments) := by
  have := keeps_evalAll c harguments
  refine ⟨fun e => ?_⟩
  unfold evalCall
  refine Allows.keeps_bind fun rs e₁ _ =>
    (allows_handler? e₁ c scope name).bind fun found e₂ _ hh => ?_
  cases found with
  | some h => exact hi.call e₂ h rs none (hh h rfl)
  | none =>
    refine Allows.keeps_bind fun found e₃ _ => ?_
    cases found with
    | none => exact .raise
    | some r =>
      refine (allows_value e₃ r).bind fun v e₄ _ hv => ?_
      cases v with
      | funcref f => exact allows_callValue hi (fun hstrict => hv.2 hstrict f rfl) rs none
      | _ => exact .raise

theorem keeps_evalCallValue {callee : Expr} {arguments : List Expr}
    (hcallee : ∀ x ∈ callee.calleeParts, Keeps D (i.eval c x))
    (harguments : ∀ x ∈ arguments, Keeps D (i.eval c x)) :
    Keeps D (evalCallValue host i c callee arguments) := by
  have := keeps_evalCallee c hcallee
  have := keeps_evalAll c harguments
  refine ⟨fun e => ?_⟩
  unfold evalCallValue
  refine Allows.keeps_bind fun (r, receiver) e₁ _ =>
    (allows_funcrefOf c e₁ r).bind fun f e₂ _ hf => ?_
  refine Allows.keeps_bind fun rs e₃ h => allows_callValue hi (fun hstrict => ?_) rs receiver
  exact (hf hstrict).mono (D.grows h).functions

theorem keeps_evaluateIn {x : Expr} (hx : T.CoversExpr D x) : Keeps D (evaluate host i c x) := by
  have heval (y : Expr) (hy : y ∈ x.parts) : Keeps D (i.eval c y) := hi.eval y (hx.parts y hy)
  unfold evaluate
  cases x with
  | list items =>
    have : Gathers D (evalItems i c items) := gathers_evalItems c heval
    infer_instance
  | dict entries =>
    have hentry (entry : Expr × Expr) (hin : entry ∈ entries) :
        Keeps D (i.eval c entry.1) ∧ Keeps D (i.eval c entry.2) := by
      refine ⟨heval _ (List.mem_flatMap.2 ⟨entry, hin, ?_⟩),
        heval _ (List.mem_flatMap.2 ⟨entry, hin, ?_⟩)⟩
      · exact List.mem_cons_self
      · exact List.mem_cons_of_mem _ List.mem_cons_self
    have := gathers_evalEntries c hentry
    infer_instance
  | index container key =>
    have := heval container (by simp [Expr.parts])
    have := heval key (by simp [Expr.parts])
    unfold evalElement
    infer_instance
  | slice container first last =>
    have := heval container (by simp [Expr.parts])
    refine keeps_evalRange c (fun x hin => heval x ?_) fun x hin => heval x ?_
    · simp [Expr.parts, Option.mem_def.1 hin]
    · simp [Expr.parts, Option.mem_def.1 hin]
  | binary op left right =>
    have := heval left (by simp [Expr.parts])
    have := heval right (by simp [Expr.parts])
    have hbinary (a b : Ref) (hand : op ≠ .and) (hor : op ≠ .or) : Keeps D (binary op a b) :=
      keeps_binary a b hx.operator hand hor
    cases op with
    | and => unfold evalAnd; infer_instance
    | or => unfold evalOr; infer_instance
    | _ =>
      have := fun a b => hbinary a b (by simp) (by simp)
      unfold evalBinary
      infer_instance
  | unary op operand =>
    have := heval operand (by simp [Expr.parts])
    exact .bind fun r => keeps_unary r hx.operator
  | ternary condition yes no =>
    have := heval condition (by simp [Expr.parts])
    have := heval yes (by simp [Expr.parts])
    have := heval no (by simp [Expr.parts])
    infer_instance
  | call scope name arguments => exact keeps_evalCall hi scope name heval
  | callValue callee arguments =>
    refine keeps_evalCallValue hi (fun x hin => heval x ?_) fun x hin => heval x ?_
    · exact List.mem_append_left _ hin
    · exact List.mem_append_right _ hin
  | lambda parameters body => exact keeps_newLambda c parameters (hx.lambda rfl)
  | _ => infer_instance

end Calls

theorem keeps_evaluate (hi : i.Obeys D T) {x : Expr} (hx : T.CoversExpr D x) :
    Keeps D (evaluate host i c x) :=
  keeps_evaluateIn (hi.obeysIn c) hx

end Expressions

/-! ## Statements -/

section Statements

instance (effect : Effect) : Keeps D (emit effect) := keeps_modify fun _ => .emit effect

theorem keeps_echo {values : List Expr} (hvalues : ∀ x ∈ values, Keeps D (i.eval c x)) :
    Keeps D (echo i c values) := by
  have := keeps_evalAll c hvalues
  unfold echo
  infer_instance

instance (bytes : List UInt8) : Keeps D (newBytes bytes) := by
  induction bytes with
  | nil => unfold newBytes; infer_instance
  | cons b rest ih => unfold newBytes; infer_instance

instance (r : Ref) : Keeps D (itemsOf r) := by
  unfold itemsOf
  refine .bind fun v => ?_
  cases v <;> infer_instance

instance [D.Runs c] (targets : List Variable) (items : List Ref) :
    Keeps D (storeAll c targets items) := by
  induction targets generalizing items with
  | nil => unfold storeAll; infer_instance
  | cons v rest ih =>
    unfold storeAll
    cases items <;> infer_instance

instance [D.Runs c] (targets : List Variable) (r : Ref) : Keeps D (unpack c targets r) := by
  unfold unpack
  refine .bind fun v => ?_
  cases v <;> infer_instance

end Statements

/-! ## Blocks -/

section Blocks

variable {good : Signal → Prop}

theorem allows_branch {cases : List (Expr × List Stmt)} {otherwise : List Stmt}
    (hconditions : ∀ branch ∈ cases, Keeps D (i.eval c branch.1))
    (hbodies : ∀ branch ∈ cases, ∀ e, Allows D e (block i.exec c branch.2) fun a _ => good a)
    (hotherwise : ∀ e, Allows D e (block i.exec c otherwise) fun a _ => good a) (e : Engine) :
    Allows D e (branch i c otherwise cases) fun a _ => good a := by
  induction cases generalizing e with
  | nil => exact hotherwise e
  | cons clause rest ih =>
    have := hconditions clause List.mem_cons_self
    have hbody := hbodies clause List.mem_cons_self
    have hrest := ih (fun b hb => hconditions b (List.mem_cons_of_mem _ hb))
      fun b hb => hbodies b (List.mem_cons_of_mem _ hb)
    unfold branch
    refine Allows.keeps_bind fun r e₁ _ => Allows.keeps_bind fun holds e₂ _ => ?_
    split
    · exact hbody e₂
    · exact hrest e₂

section Loops

variable {z : Zone} {body : List Stmt}
  (hbody : ∀ e, Allows D e (block i.exec c body) fun a _ => D.placed → a.Fits z.loop)

include hbody

/-- A loop takes the breaks and continues of its body. -/
theorem allows_whileLoop {condition : Expr} [Keeps D (i.eval c condition)]
    (hexhausted : D.admits .exhausted) (fuel : Nat) (e : Engine) :
    Allows D e (whileLoop i c condition body fuel) fun a _ => D.placed → a.Fits z := by
  induction fuel generalizing e with
  | zero => exact .throw hexhausted
  | succ fuel ih =>
    unfold whileLoop
    refine Allows.keeps_bind fun pending e₁ _ => ?_
    split
    · exact .pure fun _ => trivial
    refine Allows.keeps_bind fun r e₂ _ => Allows.keeps_bind fun holds e₃ _ => ?_
    split
    · refine (hbody e₃).bind fun signal e₄ _ hsignal => ?_
      cases signal with
      | normal | loopContinue => exact ih e₄
      | loopBreak => exact .pure fun _ => trivial
      | _ => exact .pure fun hplaced => (hsignal hplaced).leaveLoop nofun nofun
    · exact .pure fun _ => trivial

theorem allows_forEach {bindItem : Ref → Run Unit} [∀ r, Keeps D (bindItem r)] (items : List Ref)
    (e : Engine) :
    Allows D e (forEach i c bindItem body items) fun a _ => D.placed → a.Fits z := by
  induction items generalizing e with
  | nil => exact .pure fun _ => trivial
  | cons r rest ih =>
    unfold forEach
    refine Allows.keeps_bind fun pending e₁ _ => ?_
    split
    · exact .pure fun _ => trivial
    refine Allows.keeps_bind fun _ e₂ _ => (hbody e₂).bind fun signal e₃ _ hsignal => ?_
    cases signal with
    | normal | loopContinue => exact ih e₃
    | loopBreak => exact .pure fun _ => trivial
    | _ => exact .pure fun hplaced => (hsignal hplaced).leaveLoop nofun nofun

end Loops

/-! ## Functions -/

section Functions

variable {definition : Procedure Stmt} [hc : D.Runs c]
  (hfits : ∀ {name scope script closure f},
    Function.make name scope { definition with dict := true } script closure = .ok f → D.fits f)

include hfits

theorem gathers_newNumbered : Gathers D (newNumbered c definition) := by
  have hnumber : Keeps D (modifyGet fun e => (e.numberedFunctions + 1,
      { e with numberedFunctions := e.numberedFunctions + 1 }) : Run Nat) :=
    keeps_modifyGet fun e he => D.edit he (.count (e.numberedFunctions + 1) e.lambdas)
  unfold newNumbered
  refine gathers_after fun n => ⟨fun e => ?_⟩
  refine Since.settle_bind fun f hf => ?_
  have halive := (Function.declared_of_make hf).2.2.2.2.2
  have hcloses := Function.closesOver_of_make hf hc.runs
  refine Since.bind (allows_newFunction e (hfits hf) halive hcloses) fun id e₁ hleads ⟨hid, _⟩ => ?_
  refine .new (fun _ g hg => ?_) fun hlinear => D.affords hleads hlinear
  cases hg
  exact hid

theorem keeps_defineEntry {container key : Expr} [Keeps D (i.eval c container)]
    [Keeps D (i.eval c key)] : Keeps D (defineEntry i c container key definition) := by
  have := gathers_newNumbered c hfits
  refine ⟨fun e => ?_⟩
  unfold defineEntry
  refine Allows.keeps_bind fun d e₁ _ => .value_bind ?_
  cases e₁.heap.value d with
  | dictionary entries =>
    refine Allows.keeps_bind fun k e₂ _ => Allows.keeps_bind fun name e₃ _ => ?_
    refine Since.entry?_bind fun current hseen _ => ?_
    dsimp only
    split
    · exact .raise_bind
    refine .checkUnlocked_bind fun hlocked => ?_
    have hset (hfree : ∀ item, current = some item → e₃.heap.isLocked item = false) :
        Since D e₃ e₃ (do setEntry d name (← newNumbered c definition)) fun _ _ => True := by
      refine .gather_bind fun r _ _ hr => (since_setEntry (fun now hnow => ?_) hr).mono
        fun _ _ _ _ => trivial
      refine .insert_of_free hlocked hnow (fun own item hown hitem => hfree item ?_) r
      rw [← hseen own hown, hitem]
    cases current with
    | none => exact .pure_bind (hset nofun)
    | some r =>
      refine .checkUnlocked_bind fun hfree => hset fun item hitem => ?_
      rwa [← Option.some.inj hitem]
  | _ => exact .raise

/-- Only an entry is a target of a well-formed tree. -/
theorem keeps_defineInDictionary {target : Expr}
    (htarget : ∀ x ∈ target.targetParts, Keeps D (i.eval c x))
    (hentry : D.strict → ∃ container key, target = .index container key) :
    Keeps D (defineInDictionary i c target definition) := by
  have hnone (hother : ∀ container key, target ≠ .index container key) :
      Keeps D (internal .noEntryTarget : Run Unit) := by
    refine keeps_internal (by simp) fun hstrict => ?_
    obtain ⟨container, key, heq⟩ := hentry hstrict
    exact absurd heq (hother container key)
  unfold defineInDictionary
  cases target with
  | index container key =>
    have := htarget container (by simp [Expr.targetParts])
    have := htarget key (by simp [Expr.targetParts])
    exact keeps_defineEntry c hfits
  | slice container first last =>
    have := htarget container (by simp [Expr.targetParts])
    refine .bind fun r => .bind fun v => ?_
    cases v with
    | dictionary => exact hnone (by simp)
    | _ => infer_instance
  | _ => exact hnone (by simp)

end Functions

theorem allows_giveBack {value : Option Expr} (hvalue : ∀ x ∈ value, Keeps D (i.eval c x))
    {z : Zone} (hz : D.placed → z.inFunction = true) (hc : D.placed → c.StandsIn z) (e : Engine) :
    Allows D e (giveBack i c value) fun a _ => D.placed → a.Fits z := by
  unfold giveBack
  by_cases hnone : c.frame.isNone = true
  · rw [if_pos hnone]
    refine .throw_bind (D.admits_error (fun hplaced => ?_) rfl)
    have hsome := hc hplaced (hz hplaced)
    simp [Option.isNone_iff_eq_none.1 hnone] at hsome
  · rw [if_neg hnone]
    refine .pure_bind ?_
    cases value with
    | none => exact Allows.keeps_bind fun _ _ _ => .pure hz
    | some x =>
      have := hvalue x rfl
      exact Allows.keeps_bind fun _ _ _ => .pure hz

/-! ## Exceptions -/

theorem allows_throwText {value : Expr} [Keeps D (i.eval c value)]
    (hthrown : ∀ text, D.admits (.error (.ofCause (.thrown text)))) (e : Engine) :
    Allows D e (throwText i c value) fun a _ => good a := by
  unfold throwText
  refine Allows.keeps_bind fun r e₁ _ => Allows.keeps_bind fun s e₂ _ => ?_
  split
  · exact .raise_bind
  · exact .throw (hthrown s)

/-- The block is one of those that were written. -/
theorem allows_catchFor? (e : Engine) (exception : String) (catches : List (String × List Stmt)) :
    Allows D e (catchFor? exception catches)
      fun found _ => ∀ body, found = some body → ∃ wanted, (wanted, body) ∈ catches := by
  induction catches generalizing e with
  | nil => exact .pure nofun
  | cons clause rest ih =>
    obtain ⟨wanted, body⟩ := clause
    unfold catchFor?
    refine Allows.keeps_bind fun found e₁ _ => ?_
    split
    · refine .pure fun caught h => ⟨wanted, ?_⟩
      exact Option.some.inj h ▸ List.mem_cons_self
    · refine (ih e₁).mono fun found _ _ hfound caught h => ?_
      obtain ⟨other, hother⟩ := hfound caught h
      exact ⟨other, List.mem_cons_of_mem _ hother⟩

theorem allows_newText (e : Engine) (text : String) :
    Allows D e (newText text) fun r e' =>
      r = (e.heap.new (.string text)).1 ∧ e' = e.withHeap (e.heap.new (.string text)).2 := by
  intro he hleads
  have hnew := Gathers.allows (m := newText text) e he hleads
  exact ⟨hnew.1, rfl, rfl⟩

/-- The variables of the exception are put back as they were before they were made. -/
theorem allows_catchBlock (err : ScriptError) {body : List Stmt}
    (hblock : ∀ e, Allows D e (block i.exec c body) fun a _ => good a) (e : Engine) :
    Allows D e (catchBlock i c err body) fun a _ => good a := by
  unfold catchBlock
  refine .get_bind ((allows_newText e _).bind fun exception e₁ _ ⟨hexception, he₁⟩ => ?_)
  refine (allows_newText e₁ _).bind fun throwpoint e₂ _ ⟨hthrowpoint, he₂⟩ => ?_
  intro hholds _
  -- the two texts of the exception are new objects, no variables
  have hback (e' : Engine) : e.restoreVim e' = e₂.restoreVim e' := by
    rw [he₂, he₁]
    rfl
  have htells : e₂.Tells err exception throwpoint := by
    rw [hexception, hthrowpoint, he₂, he₁]
    exact e.tells_new err
  have hinner := hblock (e₂.catching err exception throwpoint)
    (D.holds_catching hholds htells) (D.refl _)
  refine Reaches.bracket rfl hinner (fun _ h => h) (fun e' h => ?_) fun _ _ h => h
  rw [hback]
  exact D.caught hholds h

/-- A failure that goes on was admitted. -/
theorem allows_attempt {body : List Stmt} {catches : List (String × List Stmt)}
    (hbody : ∀ e, Allows D e (block i.exec c body) fun a _ => good a)
    (hcatches : ∀ clause ∈ catches, ∀ e, Allows D e (block i.exec c clause.2) fun a _ => good a)
    (e : Engine) : Allows D e (attempt i c body catches) fun ended _ =>
      (∀ a, ended = .ok a → good a) ∧ ∀ stop, ended = .error stop → D.admits stop := by
  unfold attempt
  have hstops {stop : Stop} (hstop : D.admits stop) (e' : Engine) :
      Allows D e' (pure (.error stop : Except Stop Signal)) fun ended _ =>
        (∀ a, ended = .ok a → good a) ∧ ∀ other, ended = .error other → D.admits other := by
    refine .pure ⟨nofun, fun other h => ?_⟩
    exact Except.error.inj h ▸ hstop
  refine (hbody e).outcome_bind (fun signal e₁ _ hsignal => ?_) fun stop e₁ _ hstop => ?_
  · refine .pure ⟨fun a h => ?_, nofun⟩
    exact Except.ok.inj h ▸ hsignal
  · cases stop with
    | error err =>
      refine Allows.outcome ((allows_catchFor? e₁ _ catches).bind fun found e₂ _ hfound => ?_)
      cases found with
      | none => exact .throw hstop
      | some caught =>
        obtain ⟨wanted, hin⟩ := hfound caught rfl
        exact allows_catchBlock c err (hcatches _ hin) e₂
    | _ => exact hstops hstop e₁

/-- The final block ends what began with the statement, so it is not judged alone. -/
theorem allows_tryCatch {e : Engine} {body : List Stmt} {catches : List (String × List Stmt)}
    {final : Option (List Stmt)} (hpending : e.interrupted = false)
    (hbody : ∀ e, Allows D e (block i.exec c body) fun a _ => good a)
    (hcatches : ∀ clause ∈ catches, ∀ e, Allows D e (block i.exec c clause.2) fun a _ => good a)
    (hfinal : ∀ b ∈ final, ∀ e, Allows D e (block i.exec c b) fun a _ => good a) :
    Allows D e (do
      record (.began c (.tryCatch body catches final))
      tryCatch i c body catches final) fun a _ => good a := by
  intro he _
  let start := e.record (.began c (.tryCatch body catches final))
  have hbegan : D.leads e start := D.began he c _ hpending
  have hstart : D.holds start := D.holds_of_leads he hbegan
  have hattempt := allows_attempt c hbody hcatches start hstart (D.refl start)
  refine Reaches.bind (e := start) hattempt (fun _ h => D.trans hbegan h)
    fun ended e₁ htry hended => ?_
  -- the end of the other parts is handed on unless the final block ends in its own way
  have hsettle (e' : Engine) (h : D.leads e e') :
      Reaches D.admits e' (settle ended) (D.leads e) fun a _ => good a :=
    .settle h hended.1 hended.2
  split
  · exact hsettle e₁ (D.trans hbegan htry)
  · exact hsettle e₁ (D.trans hbegan htry)
  · exact hsettle e₁ (D.trans hbegan htry)
  · rename_i final _ _
    have hinner := hfinal final rfl e₁.enterFinal
      (D.holds_enterFinal (D.holds_of_leads hstart htry)) (D.refl _)
    have hblock : Reaches D.admits e₁ (finalBlock i c final) (D.leads e) fun a _ => good a :=
      .bracket rfl hinner (fun _ h => h) (fun _ h => D.final he hpending htry h) fun _ _ h => h
    refine hblock.bind (fun _ h => h) fun signal e₂ h hsignal => ?_
    cases signal with
    | normal => exact hsettle e₂ h
    | _ => exact .pure h hsignal

end Blocks

/-! ## All statements -/

section Execute

variable {e : Engine} {z : Zone}

theorem allows_proceeding {m : Run Unit} (hm : Allows D e m fun _ _ => True) :
    Allows D e (proceeding m) fun a _ => D.placed → a.Fits z := by
  unfold proceeding
  exact hm.bind fun _ _ _ _ => .pure fun _ => trivial

theorem keeps_discard {m : Run Ref} [Keeps D m] : Keeps D (discard m) :=
  inferInstanceAs (Keeps D (m >>= fun _ => pure PUnit.unit))

theorem keeps_toEach {f : Expr → Run Unit} {targets : List Expr}
    (hf : ∀ x ∈ targets, Keeps D (f x)) : Keeps D (toEach f targets) := by
  induction targets with
  | nil => unfold toEach; infer_instance
  | cons x rest ih =>
    have := hf x List.mem_cons_self
    have := ih fun y hy => hf y (List.mem_cons_of_mem _ hy)
    unfold toEach
    infer_instance

/-- Locks are taken away from one target after the other. -/
theorem allows_unlockEach {s : Stmt} (hs : s.unlocks = true) (hbegan : .began c s ∈ e.history)
    (depth : Int) {targets : List Expr} (htargets : ∀ x ∈ targets, Keeps D (i.eval c x)) :
    Allows D e (toEach (unlock (i.eval c) depth) targets) fun _ _ => True := by
  induction targets generalizing e with
  | nil => exact .pure trivial
  | cons x rest ih =>
    have := htargets x List.mem_cons_self
    unfold toEach
    refine (allows_unlock c hs hbegan depth x).bind fun _ e₁ h _ => ?_
    exact ih ((D.grows h).history.subset hbegan) fun y hy => htargets y (List.mem_cons_of_mem _ hy)

variable {c} (hi : i.ObeysIn D T c)

include hi

/-- Every statement but a try statement. -/
theorem allows_executeIn {s : Stmt} (hs : T.CoversStmt D z s) (hc : D.placed → c.StandsIn z)
    (hruns : s.binds = true ∨ s.definition?.isSome = true → D.runs c)
    (hbegan : .began c s ∈ e.history)
    (htry : ∀ body catches final, s ≠ .tryCatch body catches final) :
    Allows D e (execute i c s) fun a _ => D.placed → a.Fits z := by
  have heval (x : Expr) (hx : x ∈ s.parts) : Keeps D (i.eval c x) := hi.eval x (hs.parts x hx)
  have hblock (b : List Stmt) (hb : b ∈ s.blocks) (hinner : D.placed → c.StandsIn (s.inner z))
      (e : Engine) := allows_blockIn hi (hs.blocks b hb) hinner e
  unfold execute
  -- what is left is what each statement does itself with its parts and its blocks
  cases s with
  | assign target op x =>
    have : D.Runs c := ⟨hruns (.inl rfl)⟩
    have := heval x (List.mem_append_right _ (List.mem_singleton.2 rfl))
    have := keeps_assign (D := D) c op (e := x) fun y hy => heval y (List.mem_append_left _ hy)
    exact allows_proceeding Since.keeps
  | unlet targets force =>
    have : D.Runs c := ⟨hruns (.inl rfl)⟩
    have hunlet (x : Expr) (hx : x ∈ targets) : Keeps D (unlet (i.eval c) c force x) :=
      keeps_unlet c force fun y hy => heval y (List.mem_flatMap.2 ⟨x, hx, hy⟩)
    have := keeps_toEach hunlet
    exact allows_proceeding Since.keeps
  | lock targets depth =>
    have hlock (x : Expr) (hx : x ∈ targets) : Keeps D (lock (i.eval c) c depth x) := by
      have := heval x hx
      infer_instance
    have := keeps_toEach hlock
    exact allows_proceeding Since.keeps
  | unlock targets depth => exact allows_proceeding (allows_unlockEach c rfl hbegan depth heval)
  | echo values =>
    have : Keeps D (echo i c values) := keeps_echo c heval
    exact allows_proceeding Since.keeps
  | evaluate x =>
    have := heval x (List.mem_singleton.2 rfl)
    have := keeps_discard (D := D) (m := i.eval c x)
    exact allows_proceeding Since.keeps
  | branch cases otherwise =>
    refine allows_branch c (fun b hb => heval b.1 (List.mem_map_of_mem hb))
      (fun b hb => hblock b.2 (List.mem_cons_of_mem _ (List.mem_map_of_mem hb)) hc)
      (hblock otherwise List.mem_cons_self hc) e
  | whileLoop condition body =>
    have := heval condition (List.mem_singleton.2 rfl)
    exact allows_whileLoop c (hblock body (List.mem_singleton.2 rfl) hc) (hs.rounds rfl) i.fuel e
  | forEach target x body =>
    have : D.Runs c := ⟨hruns (.inl rfl)⟩
    have := heval x (List.mem_singleton.2 rfl)
    refine Allows.keeps_bind fun r e₁ _ => Allows.keeps_bind fun items e₂ _ => ?_
    exact allows_forEach c (hblock body (List.mem_singleton.2 rfl) hc) items e₂
  | forUnpack targets x body =>
    have : D.Runs c := ⟨hruns (.inl rfl)⟩
    have := heval x (List.mem_singleton.2 rfl)
    refine Allows.keeps_bind fun r e₁ _ => Allows.keeps_bind fun items e₂ _ => ?_
    exact allows_forEach c (hblock body (List.mem_singleton.2 rfl) hc) items e₂
  | function scope name definition =>
    have : D.Runs c := ⟨hruns (.inl rfl)⟩
    have := keeps_defineFunction (D := D) c scope name (hs.definition definition rfl)
    exact allows_proceeding Since.keeps
  | dictFunction target definition =>
    have : D.Runs c := ⟨hruns (.inr rfl)⟩
    have := keeps_defineInDictionary c (hs.definition _ rfl) heval hs.entry
    exact allows_proceeding Since.keeps
  | deleteFunction scope name force =>
    have : D.Runs c := ⟨hruns (.inl rfl)⟩
    exact allows_proceeding (allows_deleteFunction e c scope name hbegan)
  | giveBack value =>
    exact allows_giveBack c (fun x hx => heval x (Option.mem_toList.2 hx)) hs.stands hc e
  | breakLoop | continueLoop => exact .pure hs.stands
  | finish => exact .pure fun _ => trivial
  | tryCatch body catches final => exact absurd rfl (htry body catches final)
  | throw value =>
    have := heval value (List.mem_singleton.2 rfl)
    exact allows_throwText c (hs.throws rfl) e

/-- A statement that starts. -/
theorem allows_startIn {s : Stmt} (hs : T.CoversStmt D z s) (hc : D.placed → c.StandsIn z)
    (hruns : s.binds = true ∨ s.definition?.isSome = true → D.runs c)
    (hpending : e.interrupted = false) : Allows D e (do
      record (.began c s)
      execute i c s) fun a _ => D.placed → a.Fits z := by
  have hrecord : Allows D e (record (.began c s)) fun _ e' => .began c s ∈ e'.history :=
    fun he _ => ⟨D.began he c s hpending, List.mem_cons_self⟩
  by_cases htry : ∃ body catches final, s = .tryCatch body catches final
  · obtain ⟨body, catches, final, rfl⟩ := htry
    have hblock (b : List Stmt) (hb : b ∈ (Stmt.tryCatch body catches final).blocks) (e : Engine) :=
      allows_blockIn hi (hs.blocks b hb) hc e
    refine allows_tryCatch c hpending (hblock body List.mem_cons_self)
      (fun clause hclause => hblock _ ?_) fun b hb => hblock b ?_
    · simp only [Stmt.blocks, List.mem_cons, List.mem_append, List.mem_map]
      exact .inr (.inl ⟨clause, hclause, rfl⟩)
    · simp only [Stmt.blocks, List.mem_cons, List.mem_append, Option.mem_toList]
      exact .inr (.inr hb)
  · refine hrecord.bind fun _ e₁ _ hbegan => ?_
    exact allows_executeIn hi hs hc hruns hbegan fun body catches final h =>
      htry ⟨body, catches, final, h⟩

omit hi in
theorem allows_start (c : Context) (hi : i.Obeys D T) {s : Stmt} (hs : T.CoversStmt D z s)
    (hc : D.placed → c.StandsIn z) (hruns : s.binds = true ∨ s.definition?.isSome = true → D.runs c)
    (hpending : e.interrupted = false) : Allows D e (do
      record (.began c s)
      execute i c s) fun a _ => D.placed → a.Fits z :=
  allows_startIn (hi.obeysIn c) hs hc hruns hpending

end Execute

end Run

end VimL
