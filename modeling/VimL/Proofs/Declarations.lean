import VimL.Proofs.Additions
import VimL.Proofs.Listings

/-!
# Declaring and deleting functions

What fails changes nothing. A declaration puts a new function into a table, where it takes the place
of a function of its name; that one is not marked. A deletion takes one function out of its table
and marks it. Whether the name is good is checked by a rule of its own in each of the two.
-/

namespace VimL

namespace Engine

/-- The function leaves the one entry that lists it, and it is marked. All other entries of all
tables and all other functions are as they were. -/
structure TakesOut (e : Engine) (table : FunctionTable) (name : String) (id : FunctionId)
    (e' : Engine) : Prop where
  listed : (e.functionsAt table).find? name = some id
  entries : ∀ other name', (e'.functionsAt other).find? name' =
    if other = table ∧ name' = name then none else (e.functionsAt other).find? name'
  marked : ∀ f, e.function? id = some f → e'.function? id = some { f with deleted := true }
  others : ∀ other, other ≠ id → e'.function? other = e.function? other

/-- The function exists, and no table lists it. -/
structure Unlisted (e : Engine) (id : FunctionId) : Prop where
  lt_size : id.index < e.functions.size
  find?_ne : ∀ table name, (e.functionsAt table).find? name ≠ some id

variable {e : Engine} {table : FunctionTable} {name : String} {id : FunctionId}

theorem functionsAt_withdraw (e : Engine) (table : FunctionTable) (name : String)
    (id : FunctionId) : (e.withdraw table name id).functionsAt =
      (e.changeFunctions (·.erase name) table).functionsAt := by
  rw [withdraw_eq]
  rfl

theorem function?_withdraw (e : Engine) (table : FunctionTable) (name : String)
    (id other : FunctionId) : (e.withdraw table name id).function? other =
      if other = id then (e.function? other).map fun f => { f with deleted := true }
      else e.function? other := by
  unfold withdraw function?
  rw [changeFunctions_functions, Array.getElem?_modify]
  by_cases heq : other = id
  · subst heq
    simp
  · have hne : id.index ≠ other.index := fun h => heq (FunctionId.eq_of_index_eq h.symm)
    rw [if_neg hne, if_neg heq]

theorem takesOut_withdraw (h : (e.functionsAt table).find? name = some id) :
    e.TakesOut table name id (e.withdraw table name id) where
  listed := h
  entries other name' := by
    rw [functionsAt_withdraw]
    by_cases hother : other = table
    · subst hother
      rw [functionsAt_changeFunctions_of_listed _ h]
      by_cases hname : name' = name
      · subst hname
        rw [Table.find?_erase_self, if_pos ⟨rfl, rfl⟩]
      · rw [Table.find?_erase_of_ne hname, if_neg fun h => hname h.2]
    · rw [functionsAt_changeFunctions_of_ne _ _ hother, if_neg fun h => hother h.1]
  marked g hg := by rw [function?_withdraw, if_pos rfl, hg]; rfl
  others other hother := by rw [function?_withdraw, if_neg hother]

theorem function?_declare (e : Engine) (table : FunctionTable) (name : String) (f : Function)
    (id : FunctionId) : (e.declare table name f).function? id =
      ({ e with functions := e.functions.push f } : Engine).function? id := by
  simp only [Engine.declare, function?, changeFunctions_functions]

/-- What a table lists after a declaration is the new function, or it was listed before. -/
theorem eq_of_listed_declare {table other : FunctionTable} {name name' : String} {f : Function}
    {id : FunctionId} (h : ((e.declare table name f).functionsAt other).find? name' = some id) :
    id.index = e.functions.size ∨ (e.functionsAt other).find? name' = some id := by
  rcases functionsAt_changeFunctions { e with functions := e.functions.push f }
    (·.insert name ⟨e.functions.size⟩) table other with hnew | hold
  · rw [Engine.declare, hnew] at h
    rcases Table.find?_insert_eq_some h with heq | hbefore
    · cases heq
      exact .inl rfl
    · exact .inr hbefore
  · rw [Engine.declare, hold] at h
    exact .inr h

/-- A function that is replaced is listed nowhere, but it is not marked. -/
theorem Registered.unlisted_of_declare (he : e.Registered) (f : Function)
    (h : (e.functionsAt table).find? name = some id) :
    (e.declare table name f).Unlisted id ∧
      (e.declare table name f).function? id = e.function? id := by
  obtain ⟨g, hg, -⟩ := he table name id h
  have hlt : id.index < e.functions.size := lt_size_of_function? hg
  have hsame := (function?_declare e table name f id).trans (function?_define_of_lt f hlt)
  refine ⟨⟨?_, fun other name' hstill => ?_⟩, hsame⟩
  · exact lt_size_of_function? (hsame.trans hg)
  rcases eq_of_listed_declare hstill with hnew | hbefore
  · exact absurd hnew (Nat.ne_of_lt hlt)
  -- the only entry that listed the function is the one that lists the new one now
  obtain ⟨rfl, rfl⟩ := he.eq_of_listed h hbefore
  have hlisted : (({ e with functions := e.functions.push f } : Engine).functionsAt other).find?
      name' = some id := h
  rw [Engine.declare, functionsAt_changeFunctions_of_listed _ hlisted, Table.find?_insert_self]
    at hstill
  cases hstill
  exact Nat.lt_irrefl _ hlt

end Engine

namespace Run

variable {e e' : Engine} {c : Context} {scope : Option Scope} {name : String}

/-! ## Deletions -/

/-- The checks are made before anything is changed. -/
theorem deleteFunction_eq (e : Engine) (c : Context) (scope : Option Scope) (name : String)
    (force : Bool) : deleteFunction c scope name force e =
      if scope ≠ some .script ∧ Text.startsSmall name then
        .error (.ofCause (.smallFunctionName name)) e
      else match e.definedFunction? c scope name with
        | .error stop => .error stop e
        | .ok none =>
          if force then .ok () e
          else .error (.ofCause (.unknownFunctionToDelete (scopeText scope ++ name))) e
        | .ok (some id) =>
          match e.function? id with
          | some f => .ok () (e.withdraw (homeOf f) name id)
          | none => .ok () { e with functions := e.functions.modify id.index fun f =>
              { f with deleted := true } } := by
  unfold deleteFunction
  split
  · rfl
  by_cases hscript : scope = some .script ∧ c.script.isNone = true
  · rw [if_pos hscript]
    obtain ⟨rfl, hnone⟩ := hscript
    rw [Option.isNone_iff_eq_none] at hnone
    simp only [Engine.definedFunction?, hnone]
    rfl
  · rw [if_neg hscript]
    dsimp only
    rw [bind_of_ok (get_eq e)]
    cases hfound : e.definedFunction? c scope name with
    | error stop => rfl
    | ok found =>
      have hsettled : settle (.ok found) e = .ok found e := rfl
      rw [bind_of_ok hsettled]
      cases found with
      | none => cases force <;> rfl
      | some id =>
        dsimp only
        cases e.function? id <;> rfl

theorem deleteFunction_of_small (hscope : scope ≠ some .script) (hsmall : Text.startsSmall name)
    (force : Bool) :
    deleteFunction c scope name force e = .error (.ofCause (.smallFunctionName name)) e := by
  rw [deleteFunction_eq, if_pos ⟨hscope, hsmall⟩]

theorem deleteFunction_of_found {id : FunctionId} {f : Function}
    (hname : scope = some .script ∨ Text.startsSmall name = false)
    (hfound : e.definedFunction? c scope name = .ok (some id)) (hf : e.function? id = some f)
    (force : Bool) :
    deleteFunction c scope name force e = .ok () (e.withdraw (homeOf f) name id) := by
  have hgood : ¬(scope ≠ some .script ∧ Text.startsSmall name = true) := by
    rintro ⟨hscope, hsmall⟩
    rcases hname with hscript | hother
    · exact hscope hscript
    · exact absurd hsmall (by simp [hother])
  rw [deleteFunction_eq, if_neg hgood]
  simp only [hfound, hf]

theorem of_deleteFunction_error {force : Bool} {stop : Stop}
    (h : deleteFunction c scope name force e = .error stop e') : e' = e := by
  rw [deleteFunction_eq] at h
  split at h
  · cases h
    rfl
  split at h
  · cases h
    rfl
  · split at h
    · cases h
    · cases h
      rfl
  · split at h <;> cases h

/-- A deletion that succeeds takes out the function that it finds, unless it is told not to mind
that there is none. -/
theorem of_deleteFunction_ok (he : e.Registered) {force : Bool}
    (h : deleteFunction c scope name force e = .ok () e') :
    (e.definedFunction? c scope name = .ok none ∧ force = true ∧ e' = e) ∨
      ∃ table id, e.definedFunction? c scope name = .ok (some id) ∧ c.Declares table ∧
        e.TakesOut table name id e' := by
  rw [deleteFunction_eq] at h
  split at h
  · cases h
  cases hfound : e.definedFunction? c scope name with
  | error stop => simp [hfound] at h
  | ok found =>
    cases found with
    | none =>
      simp only [hfound] at h
      split at h
      · rename_i hforce
        cases h
        exact .inl ⟨rfl, hforce, rfl⟩
      · cases h
    | some id =>
      obtain ⟨f, hf, -, hlisted, hin, -⟩ := he.exists_found hfound
      simp only [hfound, hf, EStateM.Result.ok.injEq, true_and] at h
      exact .inr ⟨_, id, rfl, hin, h ▸ Engine.takesOut_withdraw hlisted⟩

/-! ## Declarations -/

variable {definition : Procedure Stmt}

theorem of_defineFunction_error {stop : Stop}
    (h : defineFunction c scope name definition e = .error stop e') : e' = e := by
  unfold defineFunction at h
  dsimp only at h
  split at h
  · cases h
    rfl
  rcases of_bind_error h with hmake | ⟨f, e₁, hmake, h₁⟩
  · exact (of_settle_error hmake).2
  obtain ⟨-, rfl⟩ := of_settle_ok hmake
  rcases of_bind_error h₁ with hname | ⟨_, e₂, hname, h₂⟩
  · exact (of_settle_error hname).2
  obtain ⟨-, rfl⟩ := of_settle_ok hname
  rcases of_bind_error h₂ with htable | ⟨table, e₃, htable, h₃⟩
  · exact (of_settle_error htable).2
  obtain ⟨-, rfl⟩ := of_settle_ok htable
  rw [bind_of_ok (get_eq _)] at h₃
  split at h₃ <;> cases h₃
  rfl

/-- What was checked before a function is declared, and what is declared. -/
theorem of_defineFunction_ok (h : defineFunction c scope name definition e = .ok () e') :
    ∃ f table, f.BelongsIn table name ∧ c.Declares table ∧
      Function.checkName (scope.getD .globals) name = .ok () ∧
      Function.table (scope.getD .globals) name c = .ok table ∧
      ((e.functionsAt table).contains name = true → definition.replaces = true) ∧
      e' = e.declare table name f := by
  unfold defineFunction at h
  dsimp only at h
  split at h
  · cases h
  obtain ⟨f, e₁, hmaking, h₁⟩ := of_bind_ok h
  obtain ⟨hmake, rfl⟩ := of_settle_ok hmaking
  obtain ⟨_, e₂, hnaming, h₂⟩ := of_bind_ok h₁
  obtain ⟨hname, rfl⟩ := of_settle_ok hnaming
  obtain ⟨table, e₃, hchoosing, h₃⟩ := of_bind_ok h₂
  obtain ⟨htable, rfl⟩ := of_settle_ok hchoosing
  rw [bind_of_ok (get_eq _)] at h₃
  obtain ⟨hbelongs, hin⟩ := Function.belongsIn_of_make hmake hname htable
  split at h₃
  · cases h₃
  · rename_i hfree
    refine ⟨f, table, hbelongs, hin, hname, htable, fun hlisted => ?_, ?_⟩
    · simpa [hlisted] using hfree
    · cases h₃
      rfl

end Run

/-! ## Deleting what was declared -/

namespace Engine

variable {e : Engine} {c : Context} {scope : Option Scope} {name : String} {id : FunctionId}
  {table : FunctionTable}

/-- What is listed in the table that a declaration chooses is found under the same name. -/
theorem definedFunction?_of_listed
    (hname : Function.checkName (scope.getD .globals) name = .ok ())
    (htable : Function.table (scope.getD .globals) name c = .ok table)
    (h : (e.functionsAt table).find? name = some id) :
    e.definedFunction? c scope name = .ok (some id) := by
  have hother {own : Scope} (hglobals : own ≠ .globals) (hscript : own ≠ .script) :
      Function.checkName own name ≠ .ok () := by
    unfold Function.checkName
    split
    · nofun
    · rw [if_pos ⟨hglobals, hscript⟩]
      nofun
  cases scope with
  | none =>
    cases htable
    have hfound : e.globalFunctions.find? name = some id := h
    simp only [definedFunction?, hfound]
  | some own =>
    cases own with
    | globals =>
      cases htable
      exact congrArg Except.ok h
    | script =>
      cases hown : c.script with
      | none => simp [Function.table, hown] at htable
      | some script =>
        simp only [Option.getD_some, Function.table, hown, if_pos, Except.ok.injEq] at htable
        subst htable
        simp only [definedFunction?, hown, h]
    | locals | arguments | vim => exact absurd hname (hother nofun nofun)

/-- A function that a statement declares, whenever that was, and that is still listed under its name
in its table: a statement of the same scope and name deletes it in the same context, if the name is
given with the scope of scripts or if it does not begin with a small letter. Otherwise the deletion
refuses the name and changes nothing. -/
def DeletesDeclared (e : Engine) : Prop :=
  ∀ (i i' : Interp) (c : Context) (scope : Option Scope) (name : String)
    (definition : Procedure Stmt) (e₀ e₁ : Engine) (signal : Signal),
    Run.execute i c (.function scope name definition) e₀ = .ok signal e₁ →
    ∀ table, Function.table (scope.getD .globals) name c = .ok table →
      (e.functionsAt table).find? name = some ⟨e₀.functions.size⟩ → ∀ force,
        (scope = some .script ∨ Text.startsSmall name = false →
          ∃ e', Run.execute i' c (.deleteFunction scope name force) e = .ok .normal e' ∧
            e.TakesOut table name ⟨e₀.functions.size⟩ e') ∧
        (scope ≠ some .script → Text.startsSmall name = true →
          Run.execute i' c (.deleteFunction scope name force) e =
            .error (.ofCause (.smallFunctionName name)) e)

theorem Registered.deletesDeclared (he : e.Registered) : e.DeletesDeclared := by
  intro i i' c scope name definition e₀ e₁ signal hdeclare table htable hlisted force
  obtain ⟨_, _, hdeclare, -⟩ := Run.of_bind_ok hdeclare
  obtain ⟨-, -, -, -, hname, -⟩ := Run.of_defineFunction_ok hdeclare
  have hfound : e.definedFunction? c scope name = .ok (some ⟨e₀.functions.size⟩) :=
    definedFunction?_of_listed hname htable hlisted
  refine ⟨fun hgood => ?_, fun hscope hsmall => ?_⟩
  · obtain ⟨f, hf, hbelongs⟩ := he table name _ hlisted
    have hdelete := Run.deleteFunction_of_found hgood hfound hf force
    rw [hbelongs.homeOf_eq] at hdelete
    exact ⟨_, Run.bind_of_ok hdelete, takesOut_withdraw hlisted⟩
  · exact Run.bind_of_error (Run.deleteFunction_of_small hscope hsmall force)

end Engine

end VimL
