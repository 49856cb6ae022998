import VimL.Proofs.Listings
import VimL.Proofs.Namings
import VimL.Proofs.Parts
import VimL.Proofs.Room

/-!
# Disciplines

A discipline is a relation between the engine that a run starts from and the engines that it comes
to. It is closed under whatever an operation may do to an engine, one edit at a time, and under
whatever a call, a catch block or a final block puts back. That a run keeps to a discipline is
proved once for all of them; what is known about runs comes from choosing one.

An operation checks locks before it writes, and what it does in between may run a script. So a
write is judged by the engine in which its check was made. In the same way, the parts of a new
value are judged by the engine in which the operation began to come by them.
-/

namespace VimL

/-- Failures that come from the surroundings: a number with too many digits to be read, and a
variable that the system does not take. -/
inductive Failure.Limit : Failure → Prop where
  | tooManyDigits : Limit .tooManyDigits
  | refusedVariable {name text : String} (h : Run.isEnvironmentEntry name text = false) :
      Limit (.refusedVariable name text)

/-- Failures that come from an operation that does not check what it is given. -/
inductive Failure.Unchecked : Failure → Prop where
  | boundTooLarge {ignoreCase : Bool} {pattern : String}
      (h : Pattern.ofMagic ignoreCase pattern = .error .boundTooLarge) :
      Unchecked (.boundTooLarge pattern)
  | unreadableSeparator {pattern : String} {fault : Pattern.Fault}
      (h : Pattern.ofMagic false pattern = .error fault) :
      Unchecked (.unreadableSeparator pattern)
  | beforeBlob {start : Int} (h : start < 0) : Unchecked (.beforeBlob start)
  | foreignLetter : Unchecked .foreignLetter
  | itemGone : Unchecked .itemGone
  | byteGone : Unchecked .byteGone

/-- Failures that well-formed trees cannot rule out. -/
def Failure.Admitted (f : Failure) : Prop := f.Limit ∨ f.Unchecked

/-- A break, a continue or a return that nothing takes. -/
@[reducible] def Cause.isStray : Cause → Bool
  | .strayBreak | .strayContinue | .strayReturn => true
  | _ => false

/-- A text of the script itself. -/
@[reducible] def Cause.isThrown : Cause → Bool
  | .thrown _ => true
  | _ => false

theorem Function.wellFormed_of_false {f : Function} (h : False) : f.WellFormed := h.elim

/-- A List, a Dictionary or a Blob. -/
def Value.isCompound : Value → Bool
  | .list _ | .dictionary _ | .blob _ => true
  | _ => false

theorem Value.isScalar_of_isCompound {v : Value} (hv : v.isCompound = true) :
    v.isScalar = false := by
  cases v with
  | list | dictionary | blob => rfl
  | _ => cases hv

theorem Value.isScalar_eq_of_kind_eq {v w : Value} (h : v.kind = w.kind) :
    v.isScalar = w.isScalar := by
  cases v <;> cases w <;> first | rfl | cases h

theorem Value.ne_funcref_of_isCompound {v : Value} (hv : v.isCompound = true) (f : Funcref) :
    v ≠ .funcref f := by
  rintro rfl
  cases hv

def Stmt.unlocks : Stmt → Bool
  | .unlock .. => true
  | _ => false

/-- Options that do not hold a Number take texts. -/
def Value.optionKind : Value → Kind
  | .number _ => .number
  | _ => .string

/-- A value that an option may hold keeps its kind if it is assigned again. -/
theorem Value.optionKind_of_kind_eq {v w : Value} (h : v.kind = w.optionKind) :
    v.optionKind = v.kind := by
  cases v with
  | number | string => rfl
  | _ => cases w <;> cases h

/-- The quote, a digit or a small letter. -/
def isRegisterName (name : String) : Bool :=
  match name.toList with
  | [c] => c == '"' || c.isDigit || c.isLower
  | _ => false

/-- What is asked of the edits of a run: of the functions that it defines, of the contexts that it
binds variables in, and of the frames that it makes. If functions are listed, only those are called
by name that a table may list. If namings are minded, arguments are only bound as long as the
invocation is not noted to have all of them. If registers are lettered, only those are written that
have the name of a register. If entries are spared, no write takes one away that is locked, or puts
another object in its place. -/
structure Demands where
  strict : Prop
  named : Prop
  listed : Prop
  minded : Prop
  lettered : Prop
  sparing : Prop
  fits : Function → Prop
  runs : Context → Prop
  fresh : FrameId → Prop

/-- Nothing is asked but of functions and of names. -/
@[reducible] def Demands.ofFits (strict named : Prop) (fits : Function → Prop) : Demands where
  strict := strict
  named := named
  listed := False
  minded := False
  lettered := False
  sparing := False
  fits := fits
  runs _ := True
  fresh _ := True

/-- The function goes on to the frame of such a context, or to none. A lambda may go on to any. -/
def Function.ClosesOver (runs : Context → Prop) (f : Function) : Prop :=
  f.isLambda = true ∨ ∀ k, f.closure = some k → ∃ c, runs c ∧ c.frame = some k

namespace Engine

variable (d : Demands)

/-- One change of an engine, apart from new objects and from new values of objects that exist. Only
an unlock takes locks away. A variable is bound anew or taken away if no lock guards it and if it is
in scope, and what it is bound to exists; a context only takes away what is in a table of its own,
and it binds no receiver if it has one itself. A function goes on to the frame of the context that
defines it, if to any. A new call binds its parameters in a frame of its
own, which has a receiver only if the function needs one. An option exists before it is set, and
keeps its kind. -/
inductive Edit (e : Engine) : Engine → Prop where
  | lock (depth : Int) (owner : Option Binding) (r : Ref)
      (howner : ∀ b, owner = some b → (e.tableAt b.place).find? b.name = some r) :
      Edit e (e.withHeap (e.heap.lock depth owner r))
  | unlock (depth : Int) (r : Ref) {c : Context} {s : Stmt} (hs : s.unlocks = true)
      (hbegan : .began c s ∈ e.history) : Edit e (e.withHeap (e.heap.unlock depth r))
  | bind (p : Place) (hp : p.isWritable = true) (name : String) (r : Ref)
      (hr : r.index < e.heap.size) (hfree : ∀ r, ¬e.Guards ⟨p, name⟩ r) {c : Context}
      (hc : d.runs c) (hin : e.InScope c p)
      (hself : p.scope = .locals → name = "self" → e.inDictFunction c = false) :
      Edit e ((e.changeTable (·.insert name r) p).note (.bound c ⟨p, name⟩))
  | unbind (p : Place) (hp : p.isWritable = true) (name : String)
      (hfree : ∀ r, ¬e.Guards ⟨p, name⟩ r) {c : Context} (hc : d.runs c) (hin : e.InScope c p)
      (hown : ∀ id, p = .locals id → c.frame = some id) :
      Edit e ((e.changeTable (·.erase name) p).note (.unbound c ⟨p, name⟩))
  | argument (id : FrameId) (name : String) (r : Ref) (hid : d.fresh id)
      (hfilling : d.minded → e.Filling id) :
      Edit e (e.changeTable (·.insert name r) (.arguments id))
  | parameter (id : FrameId) (name : String) (r : Ref) (hr : r.index < e.heap.size)
      (hnew : d.named → e.Unnamed (.locals id)) (hid : d.fresh id)
      (hfree : d.minded → e.Receiverless id) : Edit e (e.changeTable (·.insert name r) (.locals id))
  | option (scope : Option Scope) (name : String) {current kept : Ref}
      (hcurrent : e.options.globals.find? name = some current) (hkept : kept.index < e.heap.size)
      (hkind : (e.heap.value kept).kind = (e.heap.value current).optionKind) :
      Edit e { e with options := e.options.set scope name kept }
  | register (name text : String) (hname : d.lettered → isRegisterName name = true) :
      Edit e { e with registers := e.registers.insert name text }
  | environment (table : Table String) : Edit e { e with environment := table }
  | emit (effect : Effect) : Edit e { e with effects := e.effects.push effect }
  | handOn (rs : List Ref) : Edit e { e with handedOn := rs ++ e.handedOn }
  | count (numbered lambdas : Nat) :
      Edit e { e with numberedFunctions := numbered, lambdas := lambdas }
  | invoke (f : Frame) (hf : ∀ name r, f.locals.find? name = some r → r.index < e.heap.size)
      (hfound : ∃ g, e.function? f.function = some g ∧
        ∀ r, f.locals.find? "self" = some r → g.definition.dict = true) : Edit e (e.invoke f)
  | called (id : FrameId) (hid : d.fresh id) (hfilling : d.minded → e.Filling id) :
      Edit e (e.noteCall id)
  | define (f : Function) (hf : d.fits f) (hnew : f.deleted = false)
      (hcloses : f.ClosesOver d.runs) : Edit e { e with functions := e.functions.push f }
  | declare (table : FunctionTable) (name : String) (f : Function) (hf : d.fits f) {c : Context}
      (hc : d.runs c) (hin : c.Declares table) (hbelongs : f.BelongsIn table name)
      (hcloses : f.ClosesOver d.runs) : Edit e (e.declare table name f)
  | withdraw (table : FunctionTable) (name : String) (id : FunctionId) {f : Function} {c : Context}
      {scope : Option Scope} {force : Bool} (hc : d.runs c)
      (hbegan : .began c (.deleteFunction scope name force) ∈ e.history)
      (hfound : e.definedFunction? c scope name = .ok (some id)) (hf : e.function? id = some f)
      (hhome : Run.homeOf f = table) : Edit e (e.withdraw table name id)

/-- The entries of a Dictionary that were locked in `e`, and that are still there in `e'`, are
entries of the value as well. -/
def Spares (e e' : Engine) (r : Ref) (v : Value) : Prop :=
  ∀ entries entries' key item, e.heap.value r = .dictionary entries →
    entries.find? key = some item → e.heap.isLocked item = true →
    e'.heap.value r = .dictionary entries' → entries'.find? key = some item →
    ∃ kept, v = .dictionary kept ∧ kept.find? key = some item

/-- A check in `e` allows to write a value in `e'`: the object was not locked, or only one of its
items or entries is replaced, which was not locked. The value is of the kind that the object had
when it was checked, or that it has when it is written. -/
inductive Permits (e e' : Engine) (r : Ref) (v : Value) : Prop where
  | unlocked (h : e.heap.isLocked r = false)
      (hkind : (e.heap.value r).kind = v.kind ∨ (e'.heap.value r).kind = v.kind)
      (hspares : d.sparing → e.Spares e' r v)
  | item {items items' : List Ref} {i : Nat} {current new : Ref}
      (hitems : e.heap.value r = .list items) (hi : items[i]? = some current)
      (hcurrent : e.heap.isLocked current = false) (hitems' : e'.heap.value r = .list items')
      (hv : v = .list (items'.set i new))
  | entry {entries entries' : Table Ref} {key : String} {current new : Ref}
      (hentries : e.heap.value r = .dictionary entries) (hkey : entries.find? key = some current)
      (hcurrent : e.heap.isLocked current = false)
      (hentries' : e'.heap.value r = .dictionary entries')
      (hv : v = .dictionary (entries'.insert key new))

/-- Since `e`, there is room for what the value adds to the parts that the object has. -/
def Supplies (e e' : Engine) (r : Ref) (v : Value) : Prop :=
  ∃ added, e.Affords e' added ∧
    ∀ s, v.parts.count s ≤ (e'.heap.value r).parts.count s + added.count s

variable {host : Host} {d} {e e' : Engine}

/-- An edit is a change or two, apart from what is asked of locks, variables and functions. -/
theorem Edit.leads {P : Prop} (h : e.Edit d e')
    (hfits : ∀ f, d.fits f → P → f.WellFormed) : e.Leads host P e' := by
  cases h with
  | lock depth owner r =>
    exact .of_change (.relock _ fun other => e.heap.value_lock r other depth owner)
  | unlock depth r => exact .of_change (.relock _ fun other => e.heap.value_unlock r other depth)
  | bind p _ name r => exact (Leads.of_change (.bind p name r)).change (.note _)
  | argument id name r => exact .of_change (.bind (.arguments id) name r)
  | parameter id name r => exact .of_change (.bind (.locals id) name r)
  | unbind p _ name => exact (Leads.of_change (.unbind p name)).change (.note _)
  | option | register | environment => exact .of_change (.surroundings _ _ _)
  | emit effect => exact .of_change (.emit effect)
  | handOn rs => exact .of_change (.handOn rs)
  | count numbered lambdas => exact .of_change (.count numbered lambdas)
  | invoke f => exact .of_change (.invoke f)
  | called id => exact .of_change (.note _)
  | define f hf => exact .of_change (.define f (hfits f hf))
  | declare table name f hf =>
    exact (Leads.of_change (.define f (hfits f hf))).change (.enlist table name _ fun _ => by simp)
  | withdraw table name id => exact (Leads.of_change (.retire id)).change (.delist table name)

theorem Edit.grows (h : e.Edit d e') : e.Grows e' :=
  have hleads : e.Leads ⟨[]⟩ False e' := h.leads fun _ _ => False.elim
  hleads.grows

/-- Objects are marked, or the heap is left alone. -/
theorem Edit.size_value (h : e.Edit d e') :
    e'.heap.size = e.heap.size ∧ ∀ r, e'.heap.value r = e.heap.value r := by
  cases h with
  | lock depth owner r =>
    exact ⟨e.heap.size_lock r depth owner, fun other => e.heap.value_lock r other depth owner⟩
  | unlock depth r =>
    exact ⟨e.heap.size_unlock r depth, fun other => e.heap.value_unlock r other depth⟩
  | bind p | unbind p => cases p <;> exact ⟨rfl, fun _ => rfl⟩
  | declare table | withdraw table => cases table <;> exact ⟨rfl, fun _ => rfl⟩
  | _ => exact ⟨rfl, fun _ => rfl⟩

end Engine

/-! ## Disciplines -/

/-- What a run that starts in `e` may come to, and how it may stop. In a strict discipline, trees
and references are known to be sound; in a placed one, no break, continue or return is stray; in a
named one, no variable of a frame that is yet to come was locked; in a listed one, tables list only
functions that belong there under their names; in a minded one, no frame that is yet to come has had
an invocation; in a linear one, no scalar comes to have more places than it has room for, unless it
is handed on. -/
structure Discipline (host : Host) extends Demands where
  placed : Prop
  linear : Prop
  holds : Engine → Prop
  leads : Engine → Engine → Prop
  admits : Stop → Prop
  sound : ∀ {e}, holds e → strict → e.Sound host
  wellFormed : ∀ {f}, fits f → strict → f.WellFormed
  function : ∀ {e id f}, holds e → e.function? id = some f → fits f
  unnamed : ∀ {e}, holds e → named → e.Unnamed (.locals ⟨e.frames.size⟩)
  unentered : ∀ {e}, holds e → minded → e.Unentered ⟨e.frames.size⟩
  newFrame : ∀ {e}, holds e → fresh ⟨e.frames.size⟩
  registry : ∀ {e}, holds e → listed → e.Registered
  refl : ∀ e, leads e e
  trans : ∀ {e e' e''}, leads e e' → leads e' e'' → leads e e''
  holds_of_leads : ∀ {e e'}, holds e → leads e e' → holds e'
  grows : ∀ {e e'}, leads e e' → e.Grows e'
  affords : ∀ {e e'}, leads e e' → linear → e.Affords e' []
  edit : ∀ {e e'}, holds e → e.Edit toDemands e' → leads e e'
  create : ∀ {e e' v}, holds e → leads e e' →
    (strict → ∀ f, v = .funcref f → f.handler.Known host e') →
    (linear → e.Affords e' v.parts) → leads e (e'.withHeap (e'.heap.new v).2)
  write : ∀ {e e' r v}, holds e → leads e e' → v.isCompound = true →
    e.Permits toDemands e' r v → (linear → e.Supplies e' r v) →
    leads e (e'.withHeap (e'.heap.setValue r v))
  began : ∀ {e}, holds e → ∀ c s, e.interrupted = false → leads e (e.record (.began c s))
  cancelled : ∀ {e}, holds e → leads e e.requestCancel
  holds_catching : ∀ {e err exception throwpoint}, holds e → e.Tells err exception throwpoint →
    holds (e.catching err exception throwpoint)
  caught : ∀ {e e' err exception throwpoint}, holds e →
    leads (e.catching err exception throwpoint) e' → leads e (e.restoreVim e')
  holds_enterFinal : ∀ {e}, holds e → holds e.enterFinal
  final : ∀ {e e₁ e₂ c body catches final}, holds e → e.interrupted = false →
    leads (e.record (.began c (.tryCatch body catches (some final)))) e₁ →
    leads e₁.enterFinal e₂ → leads e (e₁.leaveFinal c final e₂)
  admits_error : ∀ {err}, (placed → err.cause.isStray = false) → err.cause.isThrown = false →
    admits (.error err)
  admits_mark : ∀ {stop}, admits stop → ∀ command throwpoint,
    admits (stop.mark command throwpoint)
  admits_finished : admits .finished
  admits_internal : ∀ {f}, f ≠ .noScriptUnit → (strict → f.Admitted) → admits (.internal f)

namespace Engine

/-- The limit of nested calls lets a call begin. Only calls of defined functions are counted. -/
def HasRoom (e : Engine) : CallEntry → Prop
  | .native _ => True
  | .defined _ => e.callDepth < e.config.callDepth

end Engine

namespace Discipline

variable {host : Host} (D D' : Discipline host)

/-- What is known of a handler that is called: it is that of a function that exists, and that was
not taken out by command. -/
structure MayCall (h : Handler) (e : Engine) : Prop where
  known : D.strict → h.Known host e
  alive : D.listed → h.Alive e

/-- A call may keep to a discipline of its own, which says enough when the call is over. -/
structure Opens (entry : CallEntry) : Prop where
  strict : D'.strict → D.strict
  placed : D.placed → D'.placed
  named : D'.named → D.named
  minded : D'.minded → D.minded
  lettered : D'.lettered → D.lettered
  sparing : D'.sparing → D.sparing
  fresh : ∀ {id}, D.fresh id → D'.fresh id
  enter : ∀ {e}, D.holds e → e.HasRoom entry → D'.holds (e.enter entry)
  leave : ∀ {e e'}, D.holds e → e.HasRoom entry → D'.leads (e.enter entry) e' →
    D.leads e (e.leave e')
  admits : ∀ {stop}, D'.admits stop → D.admits stop

variable {D}

/-- A call that keeps to the discipline of its caller. -/
theorem Opens.same {entry : CallEntry} (enter : ∀ {e}, D.holds e → D.holds (e.enter entry))
    (leave : ∀ {e e'}, D.leads (e.enter entry) e' → D.leads e (e.leave e')) : D.Opens D entry where
  strict := id
  placed := id
  named := id
  minded := id
  lettered := id
  sparing := id
  fresh := id
  enter he _ := enter he
  leave _ _ h := leave h
  admits := id

end Discipline

/-- A return needs a function that is running. -/
def Context.StandsIn (c : Context) (z : Zone) : Prop := z.inFunction = true → c.frame.isSome = true

/-- A judgement about the trees that are evaluated and executed. -/
structure Trees where
  expr : Expr → Prop
  stmt : Zone → Stmt → Prop

namespace Trees

def any : Trees := ⟨fun _ => True, fun _ _ => True⟩

variable {host : Host} (T : Trees) (D : Discipline host)

def body (z : Zone) (statements : List Stmt) : Prop := ∀ s ∈ statements, T.stmt z s

/-- The judgement holds for what an expression goes on to. -/
structure CoversExpr (x : Expr) : Prop where
  parts : ∀ y ∈ x.parts, T.expr y
  operator : D.strict → x.KnownOperator
  lambda : ∀ {parameters inner}, x = .lambda parameters inner →
    ∀ name c, D.fits (.lambda name parameters inner c)

/-- The judgement holds for what a statement goes on to. -/
structure CoversStmt (z : Zone) (s : Stmt) : Prop where
  parts : ∀ x ∈ s.parts, T.expr x
  blocks : ∀ b ∈ s.blocks, T.body (s.inner z) b
  definition : ∀ d ∈ s.definition?, ∀ {name scope script closure f},
    Function.make name scope d script closure = .ok f → D.fits f
  entry : D.strict → s.HasEntryTarget
  stands : D.placed → s.StandsIn z
  rounds : s.isWhile = true → D.admits .exhausted
  throws : s.isThrow = true → ∀ text, D.admits (.error (.ofCause (.thrown text)))

/-- The judgement holds for what a call of a function goes on to. -/
structure Callable (f : Function) : Prop where
  defaults : ∀ name x, f.defaults.find? name = some x → T.expr x
  body : T.body .function f.definition.body

end Trees

end VimL
