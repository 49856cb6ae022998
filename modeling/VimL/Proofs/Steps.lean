import VimL.Proofs.WellFormed
import VimL.Execution

/-!
# The changes that a run makes

A run takes an engine from one state to another by changes of a few kinds, by statements that
start, by cancellations, and by calls, catch blocks and final blocks, which put something back when
they end. Whatever all of these keep, every run keeps. Under an assumption `P`, which stands for
well-formed trees, the changes only bring in references to functions that exist and functions that
are well-formed.
-/

namespace VimL

variable (host : Host) (P : Prop)

/-- What the reference points at exists. -/
def Handler.Known (e : Engine) : Handler → Prop
  | .builtin _ => True
  | .host name => (host.function? name).isSome
  | .defined id _ => id.index < e.functions.size

/-- An event of this kind, or one in a final block. -/
inductive Event.Includes (kind : Event → Prop) : Event → Prop where
  | here {event : Event} (h : kind event) : Includes kind event
  | final {c : Context} {body : List Stmt} {own : List Event} {event : Event} (hin : event ∈ own)
      (h : Includes kind event) : Includes kind (.final c body own)

namespace Engine

/-- References point at functions that exist, and functions are well-formed. -/
structure Sound (e : Engine) : Prop where
  references : ∀ r f, e.heap.value r = .funcref f → f.handler.Known host e
  functions : ∀ id f, e.function? id = some f → f.WellFormed
  tables : ∀ table name id, (e.functionsAt table).find? name = some id →
    id.index < e.functions.size

def withHeap (e : Engine) (h : Heap) : Engine := { e with heap := h }

/-- One change of an engine. -/
inductive Change (e : Engine) : Engine → Prop where
  | create (v : Value) (hv : P → ∀ f, v = .funcref f → f.handler.Known host e) :
      Change e (e.withHeap (e.heap.new v).2)
  | overwrite (r : Ref) (v : Value) (hv : ∀ f, v ≠ .funcref f) :
      Change e (e.withHeap (e.heap.setValue r v))
  | relock (h : Heap) (hh : ∀ r, h.value r = e.heap.value r) : Change e (e.withHeap h)
  | bind (p : Place) (name : String) (r : Ref) : Change e (e.changeTable (·.insert name r) p)
  | unbind (p : Place) (name : String) : Change e (e.changeTable (·.erase name) p)
  | surroundings (options : Options) (registers environment : Table String) :
      Change e { e with options := options, registers := registers, environment := environment }
  | emit (effect : Effect) : Change e { e with effects := e.effects.push effect }
  | handOn (rs : List Ref) : Change e { e with handedOn := rs ++ e.handedOn }
  | count (numbered lambdas : Nat) :
      Change e { e with numberedFunctions := numbered, lambdas := lambdas }
  | note (n : Naming) : Change e (e.note n)
  | invoke (f : Frame) : Change e (e.invoke f)
  | define (f : Function) (hf : P → f.WellFormed) :
      Change e { e with functions := e.functions.push f }
  | retire (id : FunctionId) :
      Change e { e with functions := e.functions.modify id.index fun f =>
        { f with deleted := true } }
  | enlist (table : FunctionTable) (name : String) (id : FunctionId)
      (hid : P → id.index < e.functions.size) :
      Change e (e.changeFunctions (·.insert name id) table)
  | delist (table : FunctionTable) (name : String) :
      Change e (e.changeFunctions (·.erase name) table)

/-- What runs do to an engine. The last three put back what a call, a catch block or a final block
has changed for itself. A final block runs after the other parts of its own statement. -/
inductive Leads : Engine → Engine → Prop where
  | refl (e : Engine) : Leads e e
  | change {e e₁ e₂ : Engine} (h : Leads e e₁) (hchange : e₁.Change host P e₂) : Leads e e₂
  | began {e e₁ : Engine} (h : Leads e e₁) (c : Context) (s : Stmt)
      (hpending : e₁.interrupted = false) : Leads e (e₁.record (.began c s))
  | cancelled {e e₁ : Engine} (h : Leads e e₁) : Leads e e₁.requestCancel
  | called {e e₁ e₂ : Engine} (h : Leads e e₁) (entry : CallEntry)
      (hcall : Leads (e₁.enter entry) e₂) : Leads e (e₁.leave e₂)
  | caught {e e₁ e₂ : Engine} {err : ScriptError} (h : Leads e e₁) (exception throwpoint : Ref)
      (hcaught : Leads (e₁.catching err exception throwpoint) e₂) : Leads e (e₁.restoreVim e₂)
  | final {e e₁ e₂ e₃ : Engine} (h : Leads e e₁) (c : Context) (body : List Stmt)
      (catches : List (String × List Stmt)) (final : List Stmt)
      (hpending : e₁.interrupted = false)
      (htry : Leads (e₁.record (.began c (.tryCatch body catches (some final)))) e₂)
      (hfinal : Leads e₂.enterFinal e₃) : Leads e (e₂.leaveFinal c final e₃)

variable {host P} {e e' e'' : Engine}

namespace Leads

theorem trans (h : e.Leads host P e') (h' : e'.Leads host P e'') : e.Leads host P e'' := by
  induction h' with
  | refl => exact h
  | change _ hchange ih => exact (ih h).change hchange
  | began _ c s hpending ih => exact (ih h).began c s hpending
  | cancelled _ ih => exact (ih h).cancelled
  | called _ entry hcall ih _ => exact (ih h).called entry hcall
  | caught _ exception throwpoint hcaught ih _ => exact (ih h).caught exception throwpoint hcaught
  | final _ c body catches final hpending htry hfinal ih _ _ =>
    exact (ih h).final c body catches final hpending htry hfinal

theorem of_change (h : e.Change host P e') : e.Leads host P e' := .change (.refl e) h

end Leads

/-! ## What grows -/

/-- The history, the effects and the functions are those of an earlier engine, and more. -/
structure Grows (e e' : Engine) : Prop where
  history : e.history <:+ e'.history
  effects : e.effects.toList <+: e'.effects.toList
  functions : e.functions.size ≤ e'.functions.size

theorem Grows.refl (e : Engine) : e.Grows e :=
  ⟨List.suffix_rfl, List.prefix_rfl, Nat.le_refl _⟩

theorem Grows.trans (h : e.Grows e') (h' : e'.Grows e'') : e.Grows e'' :=
  ⟨h.history.trans h'.history, h.effects.trans h'.effects, Nat.le_trans h.functions h'.functions⟩

theorem Grows.of_eq (hhistory : e'.history = e.history) (heffects : e'.effects = e.effects)
    (hfunctions : e'.functions = e.functions) : e.Grows e' :=
  ⟨hhistory ▸ List.suffix_rfl, heffects ▸ List.prefix_rfl, hfunctions ▸ Nat.le_refl _⟩

theorem grows_changeTable (e : Engine) (change : Table Ref → Table Ref) (p : Place) :
    e.Grows (e.changeTable change p) := by
  cases p <;> exact .of_eq rfl rfl rfl

/-- A change is no event, and it does not touch a pending cancellation. -/
theorem Change.history_eq (h : e.Change host P e') : e'.history = e.history := by
  cases h with
  | bind p | unbind p => cases p <;> rfl
  | enlist table | delist table => cases table <;> rfl
  | _ => rfl

theorem Change.interrupted_eq (h : e.Change host P e') : e'.interrupted = e.interrupted := by
  cases h with
  | bind p | unbind p => cases p <;> rfl
  | enlist table | delist table => cases table <;> rfl
  | _ => rfl

theorem grows_define (e : Engine) (f : Function) :
    e.Grows { e with functions := e.functions.push f } :=
  ⟨List.suffix_rfl, List.prefix_rfl, by simp⟩

theorem grows_retire (e : Engine) (id : FunctionId) :
    e.Grows { e with functions := e.functions.modify id.index fun f =>
      { f with deleted := true } } :=
  ⟨List.suffix_rfl, List.prefix_rfl, by simp⟩

theorem Change.grows (h : e.Change host P e') : e.Grows e' := by
  cases h with
  | bind p | unbind p => exact grows_changeTable e _ p
  | enlist table | delist table => cases table <;> exact .of_eq rfl rfl rfl
  | emit effect => exact ⟨List.suffix_rfl, by simp, Nat.le_refl _⟩
  | define f => exact grows_define e f
  | retire id => exact grows_retire e id
  | _ => exact .of_eq rfl rfl rfl

theorem grows_enter (e : Engine) (entry : CallEntry) : e.Grows (e.enter entry) := by
  cases entry <;> exact .of_eq rfl rfl rfl

theorem grows_record (e : Engine) (event : Event) : e.Grows (e.record event) :=
  ⟨List.suffix_cons _ _, List.prefix_rfl, Nat.le_refl _⟩

theorem grows_requestCancel (e : Engine) : e.Grows e.requestCancel :=
  ⟨List.suffix_cons _ _, List.prefix_rfl, Nat.le_refl _⟩

namespace Grows

theorem leave {entry : CallEntry} (h : (e.enter entry).Grows e') : e.Grows (e.leave e') := by
  have hleave : e'.Grows (e.leave e') := .of_eq rfl rfl rfl
  exact (grows_enter e entry).trans (h.trans hleave)

theorem restoreVim {err : ScriptError} {exception throwpoint : Ref}
    (h : (e.catching err exception throwpoint).Grows e') : e.Grows (e.restoreVim e') := by
  have hshow : e.Grows (e.catching err exception throwpoint) := .of_eq rfl rfl rfl
  have hrestore : e'.Grows (e.restoreVim e') := .of_eq rfl rfl rfl
  exact hshow.trans (h.trans hrestore)

/-- The history of a final block is one event of its statement. -/
theorem leaveFinal (h : e.enterFinal.Grows e') (c : Context) (body : List Stmt) :
    e.Grows (e.leaveFinal c body e') :=
  ⟨List.suffix_cons _ _, h.effects, h.functions⟩

end Grows

theorem Leads.grows (h : e.Leads host P e') : e.Grows e' := by
  induction h with
  | refl => exact .refl _
  | change _ hchange ih => exact ih.trans hchange.grows
  | began _ c s _ ih => exact ih.trans (grows_record _ _)
  | cancelled _ ih => exact ih.trans (grows_requestCancel _)
  | called _ entry _ ih hcall => exact ih.trans hcall.leave
  | caught _ exception throwpoint _ ih hcaught => exact ih.trans hcaught.restoreVim
  | final _ c body _ final _ _ _ ih htry hfinal =>
    exact (ih.trans (grows_record _ _)).trans (htry.trans (hfinal.leaveFinal c final))

/-! ## What has happened -/

/-- An event of this kind has happened, be it in a final block. -/
def Saw (e : Engine) (kind : Event → Prop) : Prop := ∃ event ∈ e.history, event.Includes kind

variable {kind : Event → Prop}

theorem Saw.mono (h : e.Saw kind) (hhistory : e.history <:+ e'.history) : e'.Saw kind := by
  obtain ⟨event, hin, hincludes⟩ := h
  exact ⟨event, hhistory.subset hin, hincludes⟩

theorem saw_record_iff (e : Engine) (event : Event) :
    (e.record event).Saw kind ↔ event.Includes kind ∨ e.Saw kind := by
  simp only [Saw, record, List.mem_cons, exists_eq_or_imp]

/-- What happens in a final block happens in its statement. -/
theorem saw_leaveFinal_iff (hkind : ∀ c body own, ¬kind (.final c body own)) (c : Context)
    (body : List Stmt) : (e.leaveFinal c body e').Saw kind ↔ e'.Saw kind ∨ e.Saw kind := by
  have hown : (Event.final c body e'.history).Includes kind ↔ e'.Saw kind := by
    constructor
    · intro h
      cases h with
      | here h => exact absurd h (hkind _ _ _)
      | final hin h => exact ⟨_, hin, h⟩
    · rintro ⟨event, hin, h⟩
      exact .final hin h
  rw [← hown]
  simp only [Saw, leaveFinal, List.mem_cons, exists_eq_or_imp]

/-! ## What stays sound -/

end Engine

variable {host P} {e e' : Engine}

theorem Handler.Known.mono {h : Handler} (hh : h.Known host e)
    (hle : e.functions.size ≤ e'.functions.size) : h.Known host e' := by
  cases h with
  | builtin => trivial
  | host => exact hh
  | defined id => exact Nat.lt_of_lt_of_le hh hle

theorem Heap.value_new (h : Heap) (v : Value) (r : Ref) :
    (h.new v).2.value r = v ∨ (h.new v).2.value r = h.value r := by
  simp only [Heap.value, Heap.cell, Heap.new, Array.getD_eq_getD_getElem?, Array.getElem?_push]
  by_cases hr : r.index = h.cells.size <;> simp [hr, Cell.fresh]

theorem Heap.value_setValue (h : Heap) (r other : Ref) (v : Value) :
    (h.setValue r v).value other = v ∨ (h.setValue r v).value other = h.value other := by
  simp only [Heap.value, Heap.cell, Heap.setValue, Heap.modifyCell, Array.getD_eq_getD_getElem?,
    Array.getElem?_modify]
  by_cases hr : r.index = other.index
  · cases hcell : h.cells[other.index]? <;> simp [hr]
  · simp [hr]

namespace Engine

theorem changeTable_functions (e : Engine) (change : Table Ref → Table Ref) (p : Place) :
    (e.changeTable change p).functions = e.functions := by cases p <;> rfl

theorem changeTable_heap (e : Engine) (change : Table Ref → Table Ref) (p : Place) :
    (e.changeTable change p).heap = e.heap := by cases p <;> rfl

theorem changeFunctions_functions (e : Engine) (change : Table FunctionId → Table FunctionId)
    (table : FunctionTable) : (e.changeFunctions change table).functions = e.functions := by
  cases table <;> rfl

theorem changeFunctions_heap (e : Engine) (change : Table FunctionId → Table FunctionId)
    (table : FunctionTable) : (e.changeFunctions change table).heap = e.heap := by
  cases table <;> rfl

theorem functionsAt_changeTable (e : Engine) (change : Table Ref → Table Ref) (p : Place)
    (table : FunctionTable) : (e.changeTable change p).functionsAt table = e.functionsAt table := by
  cases p with
  | script id =>
    cases table with
    | globals => rfl
    | script other =>
      simp only [functionsAt, script?, changeTable, Array.getElem?_modify]
      by_cases hid : id.index = other.index
      · cases hscript : e.scripts[other.index]? <;> simp [hid]
      · simp [hid]
  | _ => rfl

theorem functionsAt_changeFunctions (e : Engine)
    (change : Table FunctionId → Table FunctionId) (table other : FunctionTable) :
    (e.changeFunctions change table).functionsAt other = change (e.functionsAt other) ∨
      (e.changeFunctions change table).functionsAt other = e.functionsAt other := by
  cases table with
  | globals =>
    cases other with
    | globals => exact .inl rfl
    | script => exact .inr rfl
  | script id =>
    cases other with
    | globals => exact .inr rfl
    | script other =>
      simp only [functionsAt, script?, changeFunctions, Array.getElem?_modify]
      by_cases hid : id.index = other.index
      · cases hscript : e.scripts[other.index]? <;> simp [hid]
      · simp [hid]

/-- A table that lists something is there, so that it changes. -/
theorem functionsAt_changeFunctions_of_listed (change : Table FunctionId → Table FunctionId)
    {table : FunctionTable} {name : String} {id : FunctionId}
    (h : (e.functionsAt table).find? name = some id) :
    (e.changeFunctions change table).functionsAt table = change (e.functionsAt table) := by
  cases table with
  | globals => rfl
  | script own =>
    cases hscript : e.scripts[own.index]? with
    | none => simp [functionsAt, script?, hscript] at h
    | some s => simp [functionsAt, script?, changeFunctions, Array.getElem?_modify, hscript]

theorem functionsAt_changeFunctions_of_ne (e : Engine)
    (change : Table FunctionId → Table FunctionId) {table other : FunctionTable}
    (h : other ≠ table) : (e.changeFunctions change table).functionsAt other =
      e.functionsAt other := by
  cases table with
  | globals =>
    cases other with
    | globals => exact absurd rfl h
    | script => rfl
  | script id =>
    cases other with
    | globals => rfl
    | script other =>
      have hne : id.index ≠ other.index := by
        rintro heq
        exact h (congrArg _ (by cases id; cases other; exact congrArg _ heq.symm))
      simp only [functionsAt, script?, changeFunctions, Array.getElem?_modify, hne, if_false]

/-- New references and tables are all that there is to check, if functions are the same. -/
theorem Sound.of_functions_eq (h : e.Sound host) (hfunctions : e'.functions = e.functions)
    (hheap : ∀ r f, e'.heap.value r = .funcref f →
      e.heap.value r = .funcref f ∨ f.handler.Known host e)
    (htables : ∀ table name id, (e'.functionsAt table).find? name = some id →
      (e.functionsAt table).find? name = some id ∨ id.index < e.functions.size) :
    e'.Sound host := by
  refine ⟨fun r f hr => ?_, fun id f hf => ?_, fun table name id hid => ?_⟩
  · have hknown : f.handler.Known host e := (hheap r f hr).elim (h.references r f) id
    exact hknown.mono (Nat.le_of_eq (congrArg _ hfunctions.symm))
  · exact h.functions id f (by simpa [function?, hfunctions] using hf)
  · rw [hfunctions]
    rcases htables table name id hid with hold | hnew
    · exact h.tables table name id hold
    · exact hnew

/-- The rest of an engine does not matter. -/
theorem Sound.of_eq (h : e.Sound host) (hheap : e'.heap = e.heap)
    (hfunctions : e'.functions = e.functions)
    (htables : e'.functionsAt = e.functionsAt) : e'.Sound host :=
  h.of_functions_eq hfunctions (fun _ _ hr => .inl (hheap ▸ hr))
    fun _ _ _ hid => .inl (htables ▸ hid)

theorem Sound.enter (h : e.Sound host) (entry : CallEntry) : (e.enter entry).Sound host := by
  cases entry <;> exact h.of_eq rfl rfl rfl

theorem Sound.changeTable (h : e.Sound host) (change : Table Ref → Table Ref) (p : Place) :
    (e.changeTable change p).Sound host := by
  refine h.of_functions_eq (changeTable_functions e change p) (fun r f hr => ?_)
    fun table name id hid => ?_
  · exact .inl (changeTable_heap e change p ▸ hr)
  · exact .inl (functionsAt_changeTable e change p table ▸ hid)

theorem Sound.changeFunctions (h : e.Sound host) {change : Table FunctionId → Table FunctionId}
    (hchange : ∀ t name id, (change t).find? name = some id →
      t.find? name = some id ∨ id.index < e.functions.size) (table : FunctionTable) :
    (e.changeFunctions change table).Sound host := by
  refine h.of_functions_eq (changeFunctions_functions e change table) (fun r f hr => ?_)
    fun other name id hid => ?_
  · exact .inl (changeFunctions_heap e change table ▸ hr)
  · rcases functionsAt_changeFunctions e change table other with hnew | hold
    · exact hchange _ name id (hnew ▸ hid)
    · exact .inl (hold ▸ hid)

theorem Sound.define (h : e.Sound host) {f : Function} (hf : f.WellFormed) :
    { e with functions := e.functions.push f }.Sound host := by
  have hle : e.functions.size ≤ (e.functions.push f).size := by simp
  refine ⟨fun r g hr => (h.references r g hr).mono hle, fun id g hg => ?_,
    fun table name id hid => ?_⟩
  · simp only [function?, Array.getElem?_push] at hg
    split at hg
    · exact Option.some.inj hg ▸ hf
    · exact h.functions id g hg
  · exact Nat.lt_of_lt_of_le (h.tables table name id hid) hle

theorem Sound.retire (h : e.Sound host) (id : FunctionId) :
    { e with functions := e.functions.modify id.index fun f =>
      { f with deleted := true } }.Sound host := by
  have hsize : (e.functions.modify id.index fun f => { f with deleted := true }).size =
      e.functions.size := by simp
  refine ⟨fun r g hr => (h.references r g hr).mono (Nat.le_of_eq hsize.symm), fun other g hg => ?_,
    fun table name other hother => ?_⟩
  · simp only [function?, Array.getElem?_modify] at hg
    split at hg
    · obtain ⟨f, hf, rfl⟩ := Option.map_eq_some_iff.1 hg
      have hold := h.functions other f hf
      exact ⟨hold.declared, hold.last, hold.defaults, hold.body⟩
    · exact h.functions other g hg
  · exact Nat.lt_of_lt_of_le (h.tables table name other hother) (Nat.le_of_eq hsize.symm)

theorem Change.sound (hp : P) (h : e.Change host P e') (he : e.Sound host) : e'.Sound host := by
  cases h with
  -- only a new reference to a function or a new entry of a table can be unsound
  | create v hv =>
    refine he.of_functions_eq rfl (fun r f hr => ?_) fun _ _ _ hid => .inl hid
    rcases e.heap.value_new v r with hnew | hold
    · exact .inr (hv hp f (hnew.symm.trans hr))
    · exact .inl (hold.symm.trans hr)
  | overwrite r v hv =>
    refine he.of_functions_eq rfl (fun other f hr => ?_) fun _ _ _ hid => .inl hid
    rcases e.heap.value_setValue r other v with hnew | hold
    · exact absurd (hnew.symm.trans hr) (hv f)
    · exact .inl (hold.symm.trans hr)
  | relock h hh =>
    exact he.of_functions_eq rfl (fun r f hr => .inl (hh r ▸ hr)) fun _ _ _ hid => .inl hid
  | bind p name r => exact he.changeTable _ p
  | unbind p name => exact he.changeTable _ p
  | enlist table name id hid =>
    refine he.changeFunctions (fun t other found h => ?_) table
    rcases Table.find?_insert_eq_some h with heq | hold
    · cases heq
      exact .inr (hid hp)
    · exact .inl hold
  | delist table name => exact he.changeFunctions (fun t _ _ h => .inl (t.find?_of_erase h)) table
  | define f hf => exact he.define (hf hp)
  | retire id => exact he.retire id
  | _ => exact he.of_eq rfl rfl rfl

theorem Leads.sound (hp : P) (h : e.Leads host P e') (he : e.Sound host) : e'.Sound host := by
  induction h with
  | refl => exact he
  | change _ hchange ih => exact hchange.sound hp (ih he)
  | began _ c s _ ih => exact (ih he).of_eq rfl rfl rfl
  | cancelled _ ih => exact (ih he).of_eq rfl rfl rfl
  | called _ entry _ ih hcall => exact (hcall ((ih he).enter entry)).of_eq rfl rfl rfl
  | caught _ _ _ _ ih hcaught => exact (hcaught ((ih he).of_eq rfl rfl rfl)).of_eq rfl rfl rfl
  | final _ _ _ _ _ _ _ _ ih htry hfinal =>
    have hended := htry ((ih he).of_eq rfl rfl rfl)
    exact (hfinal (hended.of_eq rfl rfl rfl)).of_eq rfl rfl rfl

end Engine

end VimL
