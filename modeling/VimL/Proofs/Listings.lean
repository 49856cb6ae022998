import VimL.Proofs.Steps
import VimL.Session

/-!
# What tables of functions list

A function that is declared under a name belongs in its table, and nothing else gets there. A
function leaves its table when it is deleted or when another one takes its name.
-/

namespace VimL

theorem FunctionId.eq_of_index_eq {id other : FunctionId} (h : id.index = other.index) :
    id = other := by
  cases id
  cases other
  exact congrArg _ h

/-- The functions of this table are declared here. -/
def Context.Declares (c : Context) : FunctionTable → Prop
  | .globals => True
  | .script id => c.script = some id

/-- The scope of the names in a table of functions. -/
def FunctionTable.scope : FunctionTable → Scope
  | .globals => .globals
  | .script _ => .script

/-- The handler is that of no function that was taken out by command. -/
def Handler.Alive (e : Engine) : Handler → Prop
  | .defined id _ => ∀ f, e.function? id = some f → f.deleted = false
  | _ => True

namespace Function

/-- Under this name, the function belongs into this table: it has the name and the scope of the
table, and it was not taken out by command. Names have no colon, and a global one starts with a
capital or has a `#`. -/
structure BelongsIn (f : Function) (table : FunctionTable) (name : String) : Prop where
  name_eq : f.name = name
  plain : ':' ∉ name.toList
  alive : f.deleted = false
  globals : table = .globals →
    f.scope = .globals ∧ (Text.startsCapital name = true ∨ '#' ∈ name.toList)
  script : ∀ id, table = .script id → f.scope = .script ∧ f.script = some id

/-- A statement to delete a function begins that means this one: it gives its name and no other
scope, where the functions of its table are declared. -/
def IsMeantBy (f : Function) : Event → Prop
  | .began c (.deleteFunction scope name _) =>
    f.name = name ∧ c.Declares (Run.homeOf f) ∧ ∀ given ∈ scope, given = f.scope
  | _ => False

variable {f : Function} {table : FunctionTable} {name : String} {scope : Scope}
  {definition : Procedure Stmt} {script : Option ScriptId} {closure : Option FrameId}

/-- A new function is as it is declared, and it is not taken out. -/
theorem declared_of_make (h : make name scope definition script closure = .ok f) :
    f.name = name ∧ f.scope = scope ∧ f.script = script ∧ f.closure = closure ∧
      f.isLambda = false ∧ f.deleted = false := by
  unfold make at h
  dsimp only at h
  split at h
  · cases h
  · obtain rfl := Except.ok.inj h
    exact ⟨rfl, rfl, rfl, rfl, rfl, rfl⟩

/-- A function is in the table that its own account leads to. -/
theorem BelongsIn.homeOf_eq (h : f.BelongsIn table name) : Run.homeOf f = table := by
  unfold Run.homeOf
  cases table with
  | globals => simp only [(h.globals rfl).1]
  | script id =>
    obtain ⟨hscope, hscript⟩ := h.script id rfl
    simp only [hscope, hscript]

theorem BelongsIn.scope_eq (h : f.BelongsIn table name) : f.scope = table.scope := by
  cases table with
  | globals => exact (h.globals rfl).1
  | script id => exact (h.script id rfl).1

/-- What was checked before a function is declared. -/
theorem belongsIn_of_make {c : Context}
    (hf : make name scope definition c.script closure = .ok f)
    (hname : checkName scope name = .ok ()) (htable : Function.table scope name c = .ok table) :
    f.BelongsIn table name ∧ c.Declares table := by
  obtain ⟨hname_eq, hscope, hscript, -, -, halive⟩ := declared_of_make hf
  unfold checkName at hname
  split at hname
  · cases hname
  rename_i hplain
  split at hname
  · cases hname
  rename_i hknown
  split at hname
  · cases hname
  rename_i hglobal
  have hplain : ':' ∉ name.toList := by simpa using hplain
  -- a function of a script goes into its table, and every other one is global
  unfold Function.table at htable
  by_cases hown : scope = .script
  · rw [if_pos hown] at htable
    cases hid : c.script with
    | none => simp [hid] at htable
    | some id =>
      simp only [hid, Except.ok.injEq] at htable
      subst htable
      refine ⟨⟨hname_eq, hplain, halive, nofun, fun other heq => ?_⟩, hid⟩
      cases heq
      exact ⟨hscope.trans hown, hscript.trans hid⟩
  · rw [if_neg hown] at htable
    obtain rfl := Except.ok.inj htable
    have hglobals : scope = .globals := by
      by_contra hother
      exact hknown ⟨hother, hown⟩
    refine ⟨⟨hname_eq, hplain, halive, fun _ => ⟨hscope.trans hglobals, ?_⟩, nofun⟩, trivial⟩
    by_contra hsmall
    refine hglobal ⟨hglobals, ?_, ?_⟩
    · exact fun hcapital => hsmall (.inl hcapital)
    · exact fun hhash => hsmall (.inr (by simpa using hhash))

end Function

namespace Engine

/-- Every function that a table lists exists, and it is declared there. -/
def Housed (e : Engine) : Prop :=
  ∀ table name id, (e.functionsAt table).find? name = some id →
    ∃ f, e.function? id = some f ∧ Run.homeOf f = table

/-- Every function that a table lists exists, and it is good for the table under its name. -/
def ListsOnly (good : FunctionTable → String → Function → Prop) (e : Engine) : Prop :=
  ∀ table name id, (e.functionsAt table).find? name = some id →
    ∃ f, e.function? id = some f ∧ good table name f

/-- Every function that a table lists belongs there under its name. -/
def Registered (e : Engine) : Prop := e.ListsOnly fun table name f => f.BelongsIn table name

/-- A function is declared: it is a new one, and it takes the place of whatever had its name. -/
def declare (e : Engine) (table : FunctionTable) (name : String) (f : Function) : Engine :=
  ({ e with functions := e.functions.push f } : Engine).changeFunctions
    (·.insert name ⟨e.functions.size⟩) table

/-- A function is deleted: it is marked, and it leaves its table. -/
def withdraw (e : Engine) (table : FunctionTable) (name : String) (id : FunctionId) : Engine :=
  ({ e with functions := e.functions.modify id.index fun f =>
    { f with deleted := true } } : Engine).changeFunctions (·.erase name) table

variable {e e' : Engine} {good : FunctionTable → String → Function → Prop}

theorem lt_size_of_function? {id : FunctionId} {f : Function} (h : e.function? id = some f) :
    id.index < e.functions.size := (Array.getElem?_eq_some_iff.1 h).1

theorem function?_define {id : FunctionId} (e : Engine) (f : Function) :
    ({ e with functions := e.functions.push f } : Engine).function? id =
      if id.index = e.functions.size then some f else e.function? id := by
  simp only [function?, Array.getElem?_push]

theorem function?_define_of_lt {id : FunctionId} (f : Function)
    (hid : id.index < e.functions.size) :
    ({ e with functions := e.functions.push f } : Engine).function? id = e.function? id := by
  rw [function?_define, if_neg (Nat.ne_of_lt hid)]

/-- A function is found in a table whose functions are declared here, and whose scope is the one
that is given. -/
theorem exists_listed {c : Context} {scope : Option Scope} {name : String} {id : FunctionId}
    (h : e.definedFunction? c scope name = .ok (some id)) :
    ∃ table, c.Declares table ∧ (∀ given ∈ scope, given = table.scope) ∧
      (e.functionsAt table).find? name = some id := by
  unfold definedFunction? at h
  cases scope with
  | none =>
    cases hfound : e.globalFunctions.find? name with
    | some found =>
      simp only [hfound, Except.ok.injEq, Option.some.injEq] at h
      exact ⟨.globals, trivial, nofun, h ▸ hfound⟩
    | none =>
      simp only [hfound, Except.ok.injEq, Option.bind_eq_some_iff] at h
      obtain ⟨script, hscript, hin⟩ := h
      exact ⟨.script script, hscript, nofun, hin⟩
  | some scope =>
    cases scope with
    | globals =>
      refine ⟨.globals, trivial, ?_, Except.ok.inj h⟩
      rintro given ⟨⟩
      rfl
    | script =>
      cases hscript : c.script with
      | some script =>
        simp only [hscript, Except.ok.injEq] at h
        refine ⟨.script script, hscript, ?_, h⟩
        rintro given ⟨⟩
        rfl
      | none => simp [hscript] at h
    | _ => simp at h

/-! ## Tables that list only certain functions -/

namespace ListsOnly

theorem of_eq (h : e.ListsOnly good) (hfunctions : e'.functions = e.functions)
    (htables : e'.functionsAt = e.functionsAt) : e'.ListsOnly good := by
  intro table name id hid
  rw [htables] at hid
  simpa only [function?, hfunctions] using h table name id hid

theorem changeFunctions (h : e.ListsOnly good) {change : Table FunctionId → Table FunctionId}
    {table : FunctionTable}
    (hchange : ∀ t name id, (change t).find? name = some id →
      t.find? name = some id ∨ ∃ f, e.function? id = some f ∧ good table name f) :
    (e.changeFunctions change table).ListsOnly good := by
  intro other name id hid
  rw [show (e.changeFunctions change table).function? id = e.function? id by
    simp only [function?, changeFunctions_functions]]
  by_cases hother : other = table
  · subst hother
    rcases functionsAt_changeFunctions e change other other with hnew | hold
    · rw [hnew] at hid
      exact (hchange _ name id hid).elim (h other name id) fun hgood => hgood
    · exact h other name id (hold ▸ hid)
  · rw [functionsAt_changeFunctions_of_ne e change hother] at hid
    exact h other name id hid

theorem enlist (h : e.ListsOnly good) {table : FunctionTable} {name : String} {id : FunctionId}
    (hid : ∃ f, e.function? id = some f ∧ good table name f) :
    (e.changeFunctions (·.insert name id) table).ListsOnly good := by
  refine h.changeFunctions fun t other found hfound => ?_
  rcases Table.find?_insert_eq_some hfound with heq | hold
  · cases heq
    exact .inr hid
  · exact .inl hold

theorem delist (h : e.ListsOnly good) (table : FunctionTable) (name : String) :
    (e.changeFunctions (·.erase name) table).ListsOnly good :=
  h.changeFunctions fun t _ _ hfound => .inl (t.find?_of_erase hfound)

theorem define (h : e.ListsOnly good) (f : Function) :
    { e with functions := e.functions.push f }.ListsOnly good := by
  intro table name id hid
  obtain ⟨g, hg, hgood⟩ := h table name id hid
  exact ⟨g, (function?_define_of_lt f (lt_size_of_function? hg)).trans hg, hgood⟩

/-- A function that is listed may be marked if it is still good for the table. -/
theorem retire (h : e.ListsOnly good) (id : FunctionId)
    (hgood : ∀ table name f, (e.functionsAt table).find? name = some id → good table name f →
      good table name { f with deleted := true }) :
    { e with functions := e.functions.modify id.index fun f =>
      { f with deleted := true } }.ListsOnly good := by
  intro table name other hother
  obtain ⟨g, hg, hold⟩ := h table name other hother
  simp only [function?] at hg
  simp only [function?, Array.getElem?_modify, hg]
  split
  · rename_i heq
    obtain rfl : id = other := FunctionId.eq_of_index_eq heq
    exact ⟨_, rfl, hgood table name g hother hold⟩
  · exact ⟨g, rfl, hold⟩

theorem declare (h : e.ListsOnly good) {table : FunctionTable} {name : String} {f : Function}
    (hf : good table name f) : (e.declare table name f).ListsOnly good :=
  (h.define f).enlist ⟨f, by simp [function?], hf⟩

theorem blank (config : Config) : (Session.blank config).ListsOnly good := by
  intro table name id hid
  cases table <;> simp [Session.blank, functionsAt, script?] at hid

/-- A new script has declared nothing yet. -/
theorem newScript (h : e.ListsOnly good) (name : String) :
    (Session.newScript name e).2.ListsOnly good := by
  intro table other id hid
  cases table with
  | globals => exact h .globals other id hid
  | script script =>
    refine h (.script script) other id ?_
    simp only [Session.newScript, functionsAt, script?, Array.getElem?_push] at hid ⊢
    split at hid
    · cases hid
    · exact hid

end ListsOnly

/-- Where there is no function, nothing is marked. -/
theorem retire_of_none {id : FunctionId} (h : e.function? id = none) :
    { e with functions := e.functions.modify id.index fun f =>
      { f with deleted := true } } = e := by
  have hsame : e.functions.modify id.index (fun f => { f with deleted := true }) = e.functions := by
    refine Array.ext_getElem? fun i => ?_
    rw [Array.getElem?_modify]
    split
    · rename_i heq
      subst heq
      simp only [function?] at h
      rw [h]
      rfl
    · rfl
  rw [hsame]

/-- It does not matter whether a function is marked first or leaves its table first. -/
theorem withdraw_eq (e : Engine) (table : FunctionTable) (name : String) (id : FunctionId) :
    let out := e.changeFunctions (·.erase name) table
    e.withdraw table name id = { out with functions := out.functions.modify id.index fun f =>
      { f with deleted := true } } := by
  unfold withdraw
  cases table <;> rfl

/-! ## Functions that belong where they are -/

namespace Registered

variable {c : Context} {scope : Option Scope} {name : String} {id : FunctionId}

/-- A function that is found belongs in a table that this context can name. -/
theorem exists_found (he : e.Registered) (h : e.definedFunction? c scope name = .ok (some id)) :
    ∃ f, e.function? id = some f ∧ f.BelongsIn (Run.homeOf f) name ∧
      (e.functionsAt (Run.homeOf f)).find? name = some id ∧ c.Declares (Run.homeOf f) ∧
      ∀ given ∈ scope, given = f.scope := by
  obtain ⟨table, hin, hscope, hlisted⟩ := exists_listed h
  obtain ⟨f, hf, hbelongs⟩ := he table name id hlisted
  obtain rfl := hbelongs.homeOf_eq
  exact ⟨f, hf, hbelongs, hlisted, hin, fun given hgiven =>
    (hscope given hgiven).trans hbelongs.scope_eq.symm⟩

theorem alive_handlerOf (he : e.Registered) (h : e.definedFunction? c scope name = .ok (some id)) :
    (e.handlerOf id).Alive e := by
  obtain ⟨f, hf, hbelongs, -⟩ := he.exists_found h
  intro g hg
  obtain rfl := Option.some.inj (hf.symm.trans hg)
  exact hbelongs.alive

/-- A function is in one table only, and under one name. -/
theorem eq_of_listed (he : e.Registered) {table other : FunctionTable} {name' : String}
    (h : (e.functionsAt table).find? name = some id)
    (h' : (e.functionsAt other).find? name' = some id) : other = table ∧ name' = name := by
  obtain ⟨f, hf, hbelongs⟩ := he table name id h
  obtain ⟨g, hg, hbelongs'⟩ := he other name' id h'
  obtain rfl := Option.some.inj (hf.symm.trans hg)
  exact ⟨hbelongs'.homeOf_eq.symm.trans hbelongs.homeOf_eq,
    hbelongs'.name_eq.symm.trans hbelongs.name_eq⟩

theorem declare (he : e.Registered) {table : FunctionTable} {f : Function}
    (hf : f.BelongsIn table name) : (e.declare table name f).Registered :=
  ListsOnly.declare he hf

theorem housed (he : e.Registered) : e.Housed := fun table name id hlisted => by
  obtain ⟨f, hf, hbelongs⟩ := he table name id hlisted
  exact ⟨f, hf, hbelongs.homeOf_eq⟩

/-- Taken out of its table, a function is listed nowhere. -/
theorem unlisted_of_delist (he : e.Registered) {table : FunctionTable}
    (h : (e.functionsAt table).find? name = some id) (other : FunctionTable) (name' : String) :
    ((e.changeFunctions (·.erase name) table).functionsAt other).find? name' ≠ some id := by
  intro hstill
  have hbefore : (e.functionsAt other).find? name' = some id := by
    rcases functionsAt_changeFunctions e (·.erase name) table other with hnew | hold
    · exact Table.find?_of_erase _ (hnew ▸ hstill)
    · exact hold ▸ hstill
  obtain ⟨rfl, rfl⟩ := he.eq_of_listed h hbefore
  rw [functionsAt_changeFunctions_of_listed _ h, Table.find?_erase_self] at hstill
  cases hstill

/-- A function that is deleted is marked, but it is not listed any more. -/
theorem withdraw (he : e.Registered) {table : FunctionTable}
    (h : (e.functionsAt table).find? name = some id) : (e.withdraw table name id).Registered := by
  have hout : (e.changeFunctions (·.erase name) table).Registered := ListsOnly.delist he table name
  rw [withdraw_eq]
  exact ListsOnly.retire hout id fun other name' _ hstill =>
    absurd hstill (he.unlisted_of_delist h other name')

end Registered

end Engine

end VimL
