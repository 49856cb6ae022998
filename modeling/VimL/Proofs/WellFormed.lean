import Mathlib.Data.List.Perm.Subperm
import VimL.Functions

/-!
# Well-formed trees

Operators are known, defaults belong to parameters, and a numbered function is stored in an entry.
Nothing is said about what a tree does.
-/

namespace VimL

inductive Expr.WellFormed : Expr → Prop where
  | const (r : Ref) : WellFormed (.const r)
  | var (v : Variable) : WellFormed (.var v)
  | option (scope : Option Scope) (name : String) : WellFormed (.option scope name)
  | register (name : String) : WellFormed (.register name)
  | environment (name : String) : WellFormed (.environment name)
  | list {items : List Expr} (hitems : ∀ x ∈ items, WellFormed x) : WellFormed (.list items)
  | dict {entries : List (Expr × Expr)} (hkeys : ∀ entry ∈ entries, WellFormed entry.1)
      (hvalues : ∀ entry ∈ entries, WellFormed entry.2) : WellFormed (.dict entries)
  | index {container key : Expr} (hcontainer : WellFormed container) (hkey : WellFormed key) :
      WellFormed (.index container key)
  | slice {container : Expr} {first last : Option Expr} (hcontainer : WellFormed container)
      (hfirst : ∀ x ∈ first, WellFormed x) (hlast : ∀ x ∈ last, WellFormed x) :
      WellFormed (.slice container first last)
  | binary {op : BinaryOperator} {left right : Expr} (hop : ∀ text, op ≠ .unknown text)
      (hleft : WellFormed left) (hright : WellFormed right) : WellFormed (.binary op left right)
  | unary {op : UnaryOperator} {operand : Expr} (hop : ∀ text, op ≠ .unknown text)
      (hoperand : WellFormed operand) : WellFormed (.unary op operand)
  | ternary {condition yes no : Expr} (hcondition : WellFormed condition) (hyes : WellFormed yes)
      (hno : WellFormed no) : WellFormed (.ternary condition yes no)
  | call (scope : Option Scope) (name : String) {arguments : List Expr}
      (harguments : ∀ x ∈ arguments, WellFormed x) : WellFormed (.call scope name arguments)
  | callValue {callee : Expr} {arguments : List Expr} (hcallee : WellFormed callee)
      (harguments : ∀ x ∈ arguments, WellFormed x) : WellFormed (.callValue callee arguments)
  | lambda (parameters : List String) {body : Expr} (hbody : WellFormed body) :
      WellFormed (.lambda parameters body)

/-- The parameters and the defaults of a definition. -/
structure Procedure.HeadWellFormed (d : Procedure Stmt) : Prop where
  declared : ∀ entry ∈ d.defaults, entry.1 ∈ d.parameters
  defaults : ∀ entry ∈ d.defaults, entry.2.WellFormed

inductive Stmt.WellFormed : Stmt → Prop where
  | assign {target value : Expr} (op : AssignOperator) (htarget : target.WellFormed)
      (hvalue : value.WellFormed) : WellFormed (.assign target op value)
  | unlet {targets : List Expr} (force : Bool) (htargets : ∀ x ∈ targets, x.WellFormed) :
      WellFormed (.unlet targets force)
  | lock {targets : List Expr} (depth : Int) (htargets : ∀ x ∈ targets, x.WellFormed) :
      WellFormed (.lock targets depth)
  | unlock {targets : List Expr} (depth : Int) (htargets : ∀ x ∈ targets, x.WellFormed) :
      WellFormed (.unlock targets depth)
  | echo {values : List Expr} (hvalues : ∀ x ∈ values, x.WellFormed) : WellFormed (.echo values)
  | evaluate {value : Expr} (hvalue : value.WellFormed) : WellFormed (.evaluate value)
  | branch {cases : List (Expr × List Stmt)} {otherwise : List Stmt}
      (hconditions : ∀ branch ∈ cases, branch.1.WellFormed)
      (hbodies : ∀ branch ∈ cases, ∀ s ∈ branch.2, WellFormed s)
      (hotherwise : ∀ s ∈ otherwise, WellFormed s) : WellFormed (.branch cases otherwise)
  | whileLoop {condition : Expr} {body : List Stmt} (hcondition : condition.WellFormed)
      (hbody : ∀ s ∈ body, WellFormed s) : WellFormed (.whileLoop condition body)
  | forEach (target : Variable) {values : Expr} {body : List Stmt} (hvalues : values.WellFormed)
      (hbody : ∀ s ∈ body, WellFormed s) : WellFormed (.forEach target values body)
  | forUnpack (targets : List Variable) {values : Expr} {body : List Stmt}
      (hvalues : values.WellFormed) (hbody : ∀ s ∈ body, WellFormed s) :
      WellFormed (.forUnpack targets values body)
  | function (scope : Option Scope) (name : String) {definition : Procedure Stmt}
      (hhead : definition.HeadWellFormed) (hbody : ∀ s ∈ definition.body, WellFormed s) :
      WellFormed (.function scope name definition)
  | dictFunction {container key : Expr} {definition : Procedure Stmt}
      (hcontainer : container.WellFormed) (hkey : key.WellFormed)
      (hhead : definition.HeadWellFormed) (hbody : ∀ s ∈ definition.body, WellFormed s) :
      WellFormed (.dictFunction (.index container key) definition)
  | deleteFunction (scope : Option Scope) (name : String) (force : Bool) :
      WellFormed (.deleteFunction scope name force)
  | giveBack {value : Option Expr} (hvalue : ∀ x ∈ value, x.WellFormed) :
      WellFormed (.giveBack value)
  | breakLoop : WellFormed .breakLoop
  | continueLoop : WellFormed .continueLoop
  | finish : WellFormed .finish
  | tryCatch {body : List Stmt} {catches : List (String × List Stmt)}
      {final : Option (List Stmt)} (hbody : ∀ s ∈ body, WellFormed s)
      (hcatches : ∀ clause ∈ catches, ∀ s ∈ clause.2, WellFormed s)
      (hfinal : ∀ statements ∈ final, ∀ s ∈ statements, WellFormed s) :
      WellFormed (.tryCatch body catches final)
  | throw {value : Expr} (hvalue : value.WellFormed) : WellFormed (.throw value)

/-! ## Defined functions -/

section Parameters

variable {defaults : Table Expr} {parameters : List String}

theorem contains_of_misplacedParameter? (h : misplacedParameter? defaults true parameters = none) :
    ∀ p ∈ parameters, defaults.contains p = true := by
  induction parameters with
  | nil => simp
  | cons p rest ih =>
    by_cases hp : defaults.contains p = true
    · rw [misplacedParameter?, if_pos hp] at h
      exact List.forall_mem_cons.2 ⟨hp, ih h⟩
    · simp [misplacedParameter?, hp] at h

theorem split_of_misplacedParameter? (h : misplacedParameter? defaults false parameters = none) :
    ∃ plain given, parameters = plain ++ given ∧ (∀ p ∈ plain, defaults.contains p = false) ∧
      ∀ p ∈ given, defaults.contains p = true := by
  induction parameters with
  | nil => exact ⟨[], [], rfl, by simp, by simp⟩
  | cons p rest ih =>
    by_cases hp : defaults.contains p = true
    · rw [misplacedParameter?, if_pos hp] at h
      exact ⟨[], p :: rest, rfl, by simp,
        List.forall_mem_cons.2 ⟨hp, contains_of_misplacedParameter? h⟩⟩
    · rw [misplacedParameter?, if_neg hp, if_neg Bool.false_ne_true] at h
      obtain ⟨plain, given, rfl, hplain, hgiven⟩ := ih h
      have hall := List.forall_mem_cons.2 ⟨Bool.not_eq_true _ ▸ hp, hplain⟩
      exact ⟨p :: plain, given, rfl, hall, hgiven⟩

end Parameters

/-- A function whose defaults belong to its last parameters. -/
structure Function.WellFormed (f : Function) : Prop where
  declared : ∀ name x, f.defaults.find? name = some x → name ∈ f.definition.parameters
  last : misplacedParameter? f.defaults false f.definition.parameters = none
  defaults : ∀ name x, f.defaults.find? name = some x → x.WellFormed
  body : ∀ s ∈ f.definition.body, s.WellFormed

namespace Function

variable {f : Function} {name : String} {scope : Scope} {definition : Procedure Stmt}
  {script : Option ScriptId} {closure : Option FrameId}

theorem misplacedParameter?_empty (parameters : List String) :
    misplacedParameter? .empty false parameters = none := by
  induction parameters with
  | nil => rfl
  | cons p rest ih => exact ih

/-- A function has the body and the defaults of its definition. -/
theorem of_make (h : Function.make name scope definition script closure = .ok f) :
    f.definition = definition ∧
      ∀ p x, f.defaults.find? p = some x → (p, x) ∈ definition.defaults := by
  unfold Function.make at h
  dsimp only at h
  split at h
  · cases h
  · obtain rfl := Except.ok.inj h
    exact ⟨rfl, fun _ _ hx => Table.mem_of_find?_ofList hx⟩

/-! ### Parameters and their defaults -/

/-- Defaults belong to parameters, and to the last ones. -/
structure DefaultsLast (f : Function) : Prop where
  declared : ∀ name x, f.defaults.find? name = some x → name ∈ f.definition.parameters
  last : misplacedParameter? f.defaults false f.definition.parameters = none

theorem defaultsLast_lambda (parameters : List String) (body : Expr) (c : Context) :
    (Function.lambda name parameters body c).DefaultsLast where
  declared _ _ h := nomatch h
  last := misplacedParameter?_empty parameters

theorem defaultsLast_make (h : Function.make name scope definition script closure = .ok f)
    (hdeclared : ∀ entry ∈ definition.defaults, entry.1 ∈ definition.parameters) :
    f.DefaultsLast := by
  obtain ⟨hdefinition, hdefaults⟩ := of_make h
  refine ⟨fun p x hx => hdefinition ▸ hdeclared _ (hdefaults p x hx), ?_⟩
  cases hlast : misplacedParameter? (.ofList definition.defaults) false definition.parameters with
  | some p => simp [Function.make, hlast] at h
  | none =>
    obtain rfl : _ = f := by simpa [Function.make, hlast] using h
    exact hlast

namespace DefaultsLast

/-- Defaults have different names, and each is the name of one of the last parameters. -/
theorem exists_split (hf : f.DefaultsLast) : ∃ plain given,
    f.definition.parameters = plain ++ given ∧ (∀ p ∈ plain, f.defaults.contains p = false) ∧
      (∀ p ∈ given, f.defaults.contains p = true) ∧ f.defaults.keys ⊆ given := by
  obtain ⟨plain, given, hparameters, hplain, hgiven⟩ := split_of_misplacedParameter? hf.last
  refine ⟨plain, given, hparameters, hplain, hgiven, fun key hkey => ?_⟩
  obtain ⟨x, hx⟩ := Table.mem_keys_iff.1 hkey
  have hin := hparameters ▸ hf.declared key x hx
  refine (List.mem_append.1 hin).resolve_left fun hp => ?_
  simpa [Table.contains, hx] using hplain key hp

/-- With enough arguments, a parameter that gets none has a default. -/
theorem exists_default (hf : f.DefaultsLast) {count : Nat} (hcount : f.requiredCount ≤ count)
    {before rest : List String} {p : String}
    (hsplit : f.definition.parameters = before ++ p :: rest) (hout : count ≤ before.length) :
    ∃ x, f.defaults.find? p = some x := by
  obtain ⟨plain, given, hparameters, -, hgiven, hkeys⟩ := hf.exists_split
  have hsize : f.defaults.size ≤ given.length := by
    have hle := (f.defaults.nodup.subperm hkeys).length_le
    simpa [Table.keys, Table.size] using hle
  have hlong : plain.length ≤ before.length := by
    have htotal := congrArg List.length hparameters
    simp only [List.length_append, requiredCount] at htotal hcount
    omega
  have hp : p ∈ given := by
    have hdrop := congrArg (List.drop before.length) (hsplit.symm.trans hparameters)
    rw [List.drop_left, List.drop_append, List.drop_of_length_le hlong, List.nil_append] at hdrop
    exact List.mem_of_mem_drop (hdrop ▸ List.mem_cons_self)
  exact Option.isSome_iff_exists.1 (hgiven p hp)

end DefaultsLast

/-! ### Trees -/

theorem WellFormed.defaultsLast (hf : f.WellFormed) : f.DefaultsLast := ⟨hf.declared, hf.last⟩

theorem wellFormed_lambda {body : Expr} (parameters : List String) (hbody : body.WellFormed)
    (c : Context) : (Function.lambda name parameters body c).WellFormed where
  declared := (defaultsLast_lambda parameters body c).declared
  last := (defaultsLast_lambda parameters body c).last
  defaults _ _ h := nomatch h
  body s hs := by
    obtain rfl := List.mem_singleton.1 hs
    exact .giveBack (by simpa using hbody)

theorem wellFormed_make (h : Function.make name scope definition script closure = .ok f)
    (hhead : definition.HeadWellFormed) (hbody : ∀ s ∈ definition.body, s.WellFormed) :
    f.WellFormed := by
  obtain ⟨hdefinition, hdefaults⟩ := of_make h
  obtain ⟨hdeclared, hlast⟩ := defaultsLast_make h hhead.declared
  exact ⟨hdeclared, hlast, fun p x hx => hhead.defaults _ (hdefaults p x hx), hdefinition ▸ hbody⟩

end Function

end VimL
