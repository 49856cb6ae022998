import VimL.Proofs.FailedAssignments

/-!
# Options

Which options there are, and whether they hold a Number or a String, is settled when a session
starts. A global value is never taken away. A local value stands in front of a global one, and a
write without a prefix takes it away again. Whatever is written is turned into the kind of the
option first, and if that fails, nothing is written.
-/

namespace VimL

/-- A value as an option of this kind holds it. -/
def Value.coerced (kind : Kind) (v : Value) : Except Stop Value :=
  match kind with
  | .number => v.toNumber.map .ofInt
  | _ => v.toText.map .string

theorem Value.kind_of_coerced {kind : Kind} {v w : Value} (hkind : kind = .number ∨ kind = .string)
    (h : v.coerced kind = .ok w) : w.kind = kind := by
  rcases hkind with rfl | rfl
  · cases hn : v.toNumber <;> simp only [coerced, hn, Except.map, reduceCtorEq, Except.ok.injEq] at h
    exact h ▸ rfl
  · cases hs : v.toText <;> simp only [coerced, hs, Except.map, reduceCtorEq, Except.ok.injEq] at h
    exact h ▸ rfl

theorem Value.optionKind_eq_kind {v : Value} (h : v.kind = .number ∨ v.kind = .string) :
    v.optionKind = v.kind := by
  cases v with
  | number | string => rfl
  | _ => rcases h with h | h <;> cases h

namespace Options

variable {o : Options} {scope : Option Scope} {name other : String} {r global : Ref}

/-- An option is read through the prefix that it was written through. -/
theorem find?_set_self (hscope : scope = none ∨ scope = some .globals ∨ scope = some .locals)
    (hglobal : o.globals.find? name = some global) :
    (o.set scope name r).find? scope name = some r := by
  rcases hscope with rfl | rfl | rfl <;> simp [set, find?, hglobal, Table.find?_erase_self]

/-- Without a prefix, what is written is read through each of them. -/
theorem find?_set_none (scope : Option Scope) : (o.set none name r).find? scope name = some r := by
  simp [set, find?, Table.find?_erase_self]

theorem find?_set_of_ne (h : other ≠ name) (scope reading : Option Scope) (r : Ref) :
    (o.set scope name r).find? reading other = o.find? reading other := by
  unfold set
  split <;> simp only [find?, Table.find?_insert_of_ne h, Table.find?_erase_of_ne h]

end Options

namespace Engine

/-- The kind of the global value of an option. -/
def optionKind? (e : Engine) (name : String) : Option Kind :=
  (e.options.globals.find? name).map fun r => (e.heap.value r).kind

/-- The options are those of the base, and each value has the kind that the global value has
there. -/
structure FurnishedLike (base e : Engine) : Prop where
  names : e.options.globals.keys = base.options.globals.keys
  globals : ∀ name r, e.options.globals.find? name = some r →
    r.index < e.heap.size ∧ base.optionKind? name = some (e.heap.value r).kind
  locals : ∀ name r, e.options.locals.find? name = some r →
    r.index < e.heap.size ∧ base.optionKind? name = some (e.heap.value r).kind

variable {base e e' e'' : Engine} {name : String}

theorem HasPlainOptions.kind_eq (hbase : base.HasPlainOptions) {kind : Kind}
    (h : base.optionKind? name = some kind) : kind = .number ∨ kind = .string := by
  obtain ⟨r, hr, rfl⟩ := Option.map_eq_some_iff.1 h
  exact (hbase.globals name r hr).2

/-- An engine without local values is its own base. -/
theorem HasPlainOptions.furnishedLike_self (hbase : base.HasPlainOptions)
    (hlocals : base.options.locals = .empty) : base.FurnishedLike base where
  names := rfl
  globals name r h := ⟨(hbase.globals name r h).1, by rw [optionKind?, h]; rfl⟩
  locals name r h := by
    rw [hlocals] at h
    cases h

namespace FurnishedLike

theorem hasPlainOptions (h : base.FurnishedLike e) (hbase : base.HasPlainOptions) :
    e.HasPlainOptions where
  globals name r hr := (h.globals name r hr).imp_right hbase.kind_eq
  locals name r hr := (h.locals name r hr).imp_right hbase.kind_eq

theorem exists_global (h : base.FurnishedLike e) {kind : Kind}
    (hname : base.optionKind? name = some kind) :
    ∃ r, e.options.globals.find? name = some r := by
  obtain ⟨r, hr, -⟩ := Option.map_eq_some_iff.1 hname
  exact Table.mem_keys_iff.1 (h.names ▸ Table.mem_keys_iff.2 ⟨r, hr⟩)

theorem exists_kind (h : base.FurnishedLike e) {scope : Option Scope} {r : Ref}
    (hfound : e.options.find? scope name = some r) : ∃ kind, base.optionKind? name = some kind := by
  unfold Options.find? at hfound
  split at hfound
  · cases hfound
  · rename_i global hglobal
    exact ⟨_, (h.globals name global hglobal).2⟩

theorem of_eq (h : base.FurnishedLike e) (hheap : e'.heap = e.heap)
    (hoptions : e'.options = e.options) : base.FurnishedLike e' where
  names := hoptions ▸ h.names
  globals name r hr := hheap ▸ h.globals name r (hoptions ▸ hr)
  locals name r hr := hheap ▸ h.locals name r (hoptions ▸ hr)

/-- The values of options are scalars, and so they are kept. -/
theorem of_scalars (h : base.FurnishedLike e) (hbase : base.HasPlainOptions)
    (hscalars : e.heap.KeepsScalars e'.heap) (hoptions : e'.options = e.options) :
    base.FurnishedLike e' := by
  have hkept {name : String} {r : Ref} (hr : r.index < e.heap.size ∧
      base.optionKind? name = some (e.heap.value r).kind) :
      r.index < e'.heap.size ∧ base.optionKind? name = some (e'.heap.value r).kind := by
    have hscalar := Value.isScalar_of_optionKind (hbase.kind_eq hr.2)
    exact ⟨Nat.lt_of_lt_of_le hr.1 hscalars.size, (hscalars.values r hr.1 hscalar).symm ▸ hr.2⟩
  exact ⟨hoptions ▸ h.names, fun name r hr => hkept (h.globals name r (hoptions ▸ hr)),
    fun name r hr => hkept (h.locals name r (hoptions ▸ hr))⟩

theorem setOption (h : base.FurnishedLike e) (hbase : base.HasPlainOptions)
    (scope : Option Scope) {current kept : Ref}
    (hcurrent : e.options.globals.find? name = some current) (hkept : kept.index < e.heap.size)
    (hkind : (e.heap.value kept).kind = (e.heap.value current).optionKind) :
    base.FurnishedLike { e with options := e.options.set scope name kept } := by
  have hbefore := (h.globals name current hcurrent).2
  have hself : kept.index < e.heap.size ∧
      base.optionKind? name = some (e.heap.value kept).kind :=
    ⟨hkept, by rw [hkind, Value.optionKind_eq_kind (hbase.kind_eq hbefore)]; exact hbefore⟩
  have hinsert {t : Table Ref} (ht : ∀ other r, t.find? other = some r → r.index < e.heap.size ∧
      base.optionKind? other = some (e.heap.value r).kind) (other : String) (r : Ref)
      (hr : (t.insert name kept).find? other = some r) : r.index < e.heap.size ∧
        base.optionKind? other = some (e.heap.value r).kind := by
    rcases Table.find?_insert_eq_some hr with heq | hr
    · obtain ⟨rfl, rfl⟩ := Prod.mk.inj heq
      exact hself
    · exact ht other r hr
  have hnames : (e.options.globals.insert name kept).keys = base.options.globals.keys := by
    rw [Table.keys_insert_of_contains (by rw [Table.contains, hcurrent]; rfl)]
    exact h.names
  cases scope with
  | none =>
    exact ⟨hnames, hinsert h.globals, fun other r hr => h.locals other r (Table.find?_of_erase _ hr)⟩
  | some scope =>
    cases scope with
    | locals => exact ⟨h.names, h.globals, hinsert h.locals⟩
    | _ => exact ⟨hnames, hinsert h.globals, h.locals⟩

theorem of_edit {d : Demands} (h : base.FurnishedLike e) (hbase : base.HasPlainOptions)
    (hedit : e.Edit d e') : base.FurnishedLike e' := by
  have hscalars := Heap.KeepsScalars.of_edit hedit
  cases hedit with
  | option scope name hcurrent hkept hkind => exact h.setOption hbase scope hcurrent hkept hkind
  | bind p | unbind p => cases p <;> exact h.of_eq rfl rfl
  | declare table | withdraw table => cases table <;> exact h.of_eq rfl rfl
  | _ => exact h.of_scalars hbase hscalars rfl

end FurnishedLike

/-! ## Runs -/

/-- A run that starts in the first engine leads to the other one. -/
structure LeadsOptions (base e e' : Engine) : Prop where
  grows : e.Grows e'
  scalars : e.heap.KeepsScalars e'.heap
  furnished : base.FurnishedLike e → base.FurnishedLike e'

namespace LeadsOptions

theorem of_eq (hgrows : e.Grows e') (hheap : e'.heap = e.heap)
    (hoptions : e'.options = e.options) : base.LeadsOptions e e' :=
  ⟨hgrows, hheap ▸ .refl _, fun h => h.of_eq hheap hoptions⟩

theorem of_scalars (hbase : base.HasPlainOptions) (hgrows : e.Grows e')
    (hscalars : e.heap.KeepsScalars e'.heap) (hoptions : e'.options = e.options) :
    base.LeadsOptions e e' :=
  ⟨hgrows, hscalars, fun h => h.of_scalars hbase hscalars hoptions⟩

theorem trans (h : base.LeadsOptions e e') (h' : base.LeadsOptions e' e'') :
    base.LeadsOptions e e'' :=
  ⟨h.grows.trans h'.grows, h.scalars.trans h'.scalars, fun he => h'.furnished (h.furnished he)⟩

theorem of_edit {d : Demands} (hbase : base.HasPlainOptions) (hedit : e.Edit d e') :
    base.LeadsOptions e e' :=
  ⟨hedit.grows, .of_edit hedit, fun h => h.of_edit hbase hedit⟩

theorem leave {entry : CallEntry} (h : base.LeadsOptions (e.enter entry) e') :
    base.LeadsOptions e (e.leave e') := by
  have henter : base.LeadsOptions e (e.enter entry) := by
    cases entry <;> exact .of_eq (.of_eq rfl rfl rfl) rfl rfl
  exact henter.trans (h.trans (.of_eq (.of_eq rfl rfl rfl) rfl rfl))

theorem restoreVim {err : ScriptError} {exception throwpoint : Ref}
    (h : base.LeadsOptions (e.catching err exception throwpoint) e') :
    base.LeadsOptions e (e.restoreVim e') := by
  have hshow : base.LeadsOptions e (e.catching err exception throwpoint) :=
    .of_eq (.of_eq rfl rfl rfl) rfl rfl
  exact hshow.trans (h.trans (.of_eq (.of_eq rfl rfl rfl) rfl rfl))

theorem leaveFinal {event : Event} (htry : base.LeadsOptions (e.record event) e')
    (hfinal : base.LeadsOptions e'.enterFinal e'') (c : Context) (body : List Stmt) :
    base.LeadsOptions e (e'.leaveFinal c body e'') := by
  have hbegan : base.LeadsOptions e (e.record event) := .of_eq (grows_record e event) rfl rfl
  have hended : base.LeadsOptions e' (e'.leaveFinal c body e'') :=
    ⟨hfinal.grows.leaveFinal c body, hfinal.scalars, fun h =>
      (hfinal.furnished (h.of_eq rfl rfl)).of_eq rfl rfl⟩
  exact hbegan.trans (htry.trans hended)

end LeadsOptions

end Engine

/-! ## The discipline -/

namespace Discipline

variable {host : Host} {base : Engine}

/-- Runs in engines whose options are those of a base. -/
def furnishing (host : Host) (hbase : base.HasPlainOptions) : Discipline host where
  toDemands := .ofFits False False fun _ => True
  placed := False
  linear := False
  holds e := base.FurnishedLike e
  leads e e' := base.LeadsOptions e e'
  admits stop := stop ≠ .alarm
  sound _ := False.elim
  wellFormed _ := False.elim
  function _ _ := trivial
  unnamed _ := False.elim
  unentered _ := False.elim
  newFrame _ := trivial
  registry _ := False.elim
  refl e := .of_eq (.refl e) rfl rfl
  trans h h' := h.trans h'
  holds_of_leads he h := h.furnished he
  grows h := h.grows
  affords _ := False.elim
  edit _ h := .of_edit hbase h
  create _ h _ _ := h.trans (.of_scalars hbase (.of_eq rfl rfl rfl) (.new _ _) rfl)
  write _ h hv hpermits _ :=
    h.trans (.of_scalars hbase (.of_eq rfl rfl rfl) (h.scalars.overwrite_of_permits hv hpermits) rfl)
  began _ _ _ _ := .of_eq (Engine.grows_record _ _) rfl rfl
  cancelled _ := .of_eq (Engine.grows_requestCancel _) rfl rfl
  holds_catching he _ := he.of_eq rfl rfl
  caught _ h := h.restoreVim
  holds_enterFinal he := he.of_eq rfl rfl
  final _ _ htry hfinal := htry.leaveFinal hfinal _ _
  admits_error _ _ := Stop.error_ne_alarm _
  admits_mark h := Stop.mark_ne_alarm h
  admits_finished := Stop.finished_ne_alarm
  admits_internal hf _ := Stop.internal_ne_alarm hf

theorem uniform_furnishing (hbase : base.HasPlainOptions) :
    (furnishing host hbase).Uniform .any :=
  uniform_any id id (fun _ => trivial) (fun _ => trivial)
    (fun entry => .same (fun he => by cases entry <;> exact he.of_eq rfl rfl) fun h => h.leave)
    Stop.exhausted_ne_alarm (fun _ => Stop.error_ne_alarm _) id id False.elim

theorem obeys_furnishing (host : Host) (hbase : base.HasPlainOptions) (fuel : Nat) :
    (Interp.ofFuel host fuel).Obeys (furnishing host hbase) .any :=
  Interp.obeys_ofFuel (uniform_furnishing hbase) False.elim fuel

end Discipline

/-! ## Writes -/

namespace Engine

def withOptions (e : Engine) (options : Options) : Engine := { e with options := options }

/-- Reading the option through the prefix gives this value. -/
def OptionShows (e : Engine) (scope : Option Scope) (name : String) (v : Value) : Prop :=
  ∃ r, Run.option scope name e = .ok r e ∧ e.heap.value r = v

theorem optionShows_of_find? {e : Engine} {scope : Option Scope} {name : String} {r : Ref}
    (h : e.options.find? scope name = some r) : e.OptionShows scope name (e.heap.value r) := by
  refine ⟨r, ?_, rfl⟩
  unfold Run.option
  rw [Run.bind_of_ok (Run.get_eq e), h]
  rfl

/-- From the first engine, the value is written to the option through the prefix. -/
structure WritesOption (e e' : Engine) (scope : Option Scope) (name : String) (v : Value) :
    Prop where
  rest : e.OnlyAdds (e'.withOptions e.options)
  shown : e'.OptionShows scope name v
  everywhere : scope = none → ∀ reading, e'.OptionShows reading name v
  globals : scope = some .locals → e'.options.globals = e.options.globals
  locals : scope = some .globals → e'.options.locals = e.options.locals
  others : ∀ other, other ≠ name → ∀ reading,
    e'.options.find? reading other = e.options.find? reading other

variable {base e e' : Engine} {scope : Option Scope} {name : String}

theorem OnlyAdds.writesOption (hadds : e.OnlyAdds e')
    (hscope : scope = none ∨ scope = some .globals ∨ scope = some .locals) {current : Ref}
    (hcurrent : e.options.globals.find? name = some current) (kept : Ref) :
    e.WritesOption (e'.withOptions (e'.options.set scope name kept)) scope name
      (e'.heap.value kept) := by
  have hoptions : e'.options = e.options := by rw [hadds.rest]
  rw [hoptions]
  constructor
  case rest => exact ⟨hadds.heap, congrArg (·.withOptions e.options) hadds.rest⟩
  case shown => exact optionShows_of_find? (Options.find?_set_self hscope hcurrent)
  case everywhere =>
    rintro rfl reading
    exact optionShows_of_find? (Options.find?_set_none reading)
  case globals =>
    rintro rfl
    rfl
  case locals =>
    rintro rfl
    rfl
  case others => exact fun other hne reading => Options.find?_set_of_ne hne scope reading kept

end Engine

namespace Run

open Engine

variable {α : Type} {base e e' : Engine} {scope : Option Scope} {name : String}

theorem of_raise_if_ok {cond : Prop} [Decidable cond] {cause : Cause} {rest : Unit → Run α} {a : α}
    (h : (if cond then raise cause >>= rest else rest ()) e = .ok a e') :
    ¬cond ∧ rest () e = .ok a e' := by
  split at h
  · cases h
  · exact ⟨‹_›, h⟩

theorem of_raise_if_error {cond : Prop} [Decidable cond] {cause : Cause} {rest : Unit → Run α}
    {stop : Stop} (h : (if cond then raise cause >>= rest else rest ()) e = .error stop e') :
    e' = e ∨ rest () e = .error stop e' := by
  split at h
  · cases h
    exact .inl rfl
  · exact .inr h

/-- What is stored is coerced first. -/
theorem setOption_eq {current r : Ref} (hcurrent : e.options.globals.find? name = some current) :
    setOption scope name r e = (do
      let kept ← new (← settle ((e.heap.value r).coerced (e.heap.value current).optionKind))
      modify fun e : Engine => e.withOptions (e.options.set scope name kept)) e := by
  unfold setOption
  rw [bind_of_ok (get_eq e), hcurrent]
  dsimp only
  rw [bind_of_ok (value_of_eq rfl)]
  cases hv : e.heap.value current with
  | number n =>
    unfold number
    simp only [Value.optionKind, Value.coerced, bind_assoc]
    rw [bind_of_ok (value_of_eq rfl)]
    cases (e.heap.value r).toNumber <;> rfl
  | _ =>
    unfold text
    simp only [Value.optionKind, Value.coerced, bind_assoc]
    rw [bind_of_ok (value_of_eq rfl)]
    cases (e.heap.value r).toText <;> rfl

theorem of_setOption_ok {current r : Ref} (hcurrent : e.options.globals.find? name = some current)
    (h : setOption scope name r e = .ok () e') : ∃ v,
    (e.heap.value r).coerced (e.heap.value current).optionKind = .ok v ∧
      e' = (e.withHeap (e.heap.new v).2).withOptions
        (e.options.set scope name (e.heap.new v).1) := by
  rw [setOption_eq hcurrent] at h
  cases hv : (e.heap.value r).coerced (e.heap.value current).optionKind with
  | error stop =>
    rw [hv] at h
    cases h
  | ok v =>
    rw [hv] at h
    cases h
    exact ⟨v, rfl, rfl⟩

theorem of_setOption_error {r : Ref} {stop : Stop} (h : setOption scope name r e = .error stop e') :
    e' = e := by
  cases hcurrent : e.options.globals.find? name with
  | none =>
    unfold setOption at h
    rw [bind_of_ok (get_eq e), hcurrent] at h
    cases h
    rfl
  | some current =>
    rw [setOption_eq hcurrent] at h
    cases hv : (e.heap.value r).coerced (e.heap.value current).optionKind with
    | error other =>
      rw [hv] at h
      cases h
      rfl
    | ok v =>
      rw [hv] at h
      cases h

section Assign

variable {eval : Expr → Run Ref} {op : AssignOperator} {x : Expr}

/-- What an option showed is still there when the right side has been evaluated. -/
theorem onlyAdds_combine_option (hbase : base.HasPlainOptions) (he : base.FurnishedLike e)
    {current right : Ref} {e₁ : Engine} (hfound : e.options.find? scope name = some current)
    (hleads : base.LeadsOptions e e₁) {shown : String} {ended : Except Stop Ref}
    (h : (combine op (some current) right shown).Ends e₁ ended e') : e₁.OnlyAdds e' := by
  obtain ⟨hin, hkind⟩ := (he.hasPlainOptions hbase).of_find? hfound
  have hscalar := Value.isScalar_of_optionKind hkind
  exact onlyAdds_combine (by rwa [hleads.scalars.values current hin hscalar]) h

/-- A value that was combined is stored as the kind of the option. -/
theorem writesOption_of_setOption (hbase : base.HasPlainOptions) {e₁ e₂ : Engine}
    (he₁ : base.FurnishedLike e₁) (hadds : e₁.OnlyAdds e₂) {kind : Kind}
    (hkind : base.optionKind? name = some kind)
    (hscope : scope = none ∨ scope = some .globals ∨ scope = some .locals) {written : Ref}
    (h : setOption scope name written e₂ = .ok () e') :
    ∃ v, (e₂.heap.value written).coerced kind = .ok v ∧ v.kind = kind ∧
      e₁.WritesOption e' scope name v := by
  have hoptions : e₂.options = e₁.options := by rw [hadds.rest]
  obtain ⟨global, hglobal⟩ := he₁.exists_global hkind
  obtain ⟨hin, hsame⟩ := he₁.globals name global hglobal
  have hvalue : e₂.heap.value global = e₁.heap.value global :=
    congrArg Cell.value (hadds.heap.cell global hin)
  obtain ⟨v, hv, rfl⟩ := of_setOption_ok (hoptions ▸ hglobal) h
  rw [hvalue, Value.optionKind_eq_kind (hbase.kind_eq hsame),
    ← Option.some.inj (hkind.symm.trans hsame)] at hv
  refine ⟨v, hv, Value.kind_of_coerced (hbase.kind_eq hkind) hv, ?_⟩
  have hnew := hadds.trans (.withHeap (.new e₂.heap v))
  have hwrites := hnew.writesOption hscope hglobal (e₂.heap.new v).1
  have hself : (e₂.withHeap (e₂.heap.new v).2).heap.value (e₂.heap.new v).1 = v :=
    e₂.heap.value_new_self v
  rwa [hself] at hwrites

theorem of_assignOption_ok (hbase : base.HasPlainOptions) (he : base.FurnishedLike e)
    (heval : ∀ right e₁, eval x e = .ok right e₁ → base.LeadsOptions e e₁)
    (h : assignOption eval scope name op x e = .ok () e') :
    (scope = none ∨ scope = some .globals ∨ scope = some .locals) ∧
    ∃ current right e₁ written e₂ kind v, option scope name e = .ok current e ∧
      eval x e = .ok right e₁ ∧
      combine op (some current) right ("&" ++ scopeText scope ++ name) e₁ = .ok written e₂ ∧
      base.optionKind? name = some kind ∧ (e₂.heap.value written).coerced kind = .ok v ∧
      v.kind = kind ∧ e₁.WritesOption e' scope name v := by
  unfold assignOption at h
  dsimp only at h
  obtain ⟨-, hchecked⟩ := of_raise_if_ok h
  obtain ⟨hknown, hreads⟩ := of_raise_if_ok hchecked
  have hscope : scope = none ∨ scope = some .globals ∨ scope = some .locals := by tauto
  obtain ⟨current, e₀, hoption, hevaluates⟩ := of_bind_ok hreads
  obtain rfl := looks_option scope name e _ e₀ (ends_ok_iff.2 hoption)
  obtain ⟨right, e₁, hright, hcombines⟩ := of_bind_ok hevaluates
  obtain ⟨written, e₂, hcombined, hset⟩ := of_bind_ok hcombines
  have hfound := find?_of_option_ok hoption
  have hleads := heval right e₁ hright
  have hadds := onlyAdds_combine_option hbase he hfound hleads (ends_ok_iff.2 hcombined)
  obtain ⟨kind, hkind⟩ := he.exists_kind hfound
  obtain ⟨v, hv, hvkind, hwrites⟩ :=
    writesOption_of_setOption hbase (hleads.furnished he) hadds hkind hscope hset
  exact ⟨hscope, current, right, e₁, written, e₂, kind, v, hoption, hright, hcombined, hkind, hv,
    hvkind, hwrites⟩

theorem of_assignOption_error (hbase : base.HasPlainOptions) (he : base.FurnishedLike e)
    (heval : ∀ right e₁, eval x e = .ok right e₁ → base.LeadsOptions e e₁) {stop : Stop}
    (h : assignOption eval scope name op x e = .error stop e') :
    e' = e ∨ eval x e = .error stop e' ∨ ∃ right e₁, eval x e = .ok right e₁ ∧ e₁.OnlyAdds e' := by
  unfold assignOption at h
  dsimp only at h
  rcases of_raise_if_error h with rfl | hchecked
  · exact .inl rfl
  rcases of_raise_if_error hchecked with rfl | hreads
  · exact .inl rfl
  rcases of_bind_error hreads with hoption | ⟨current, e₀, hoption, hevaluates⟩
  · exact .inl (looks_option scope name e _ e' (ends_error_iff.2 hoption))
  obtain rfl := looks_option scope name e _ e₀ (ends_ok_iff.2 hoption)
  rcases of_bind_error hevaluates with hright | ⟨right, e₁, hright, hcombines⟩
  · exact .inr (.inl hright)
  have hadds {ended : Except Stop Ref} {e₂ : Engine}
      (hended : (combine op (some current) right ("&" ++ scopeText scope ++ name)).Ends e₁ ended e₂) :
      e₁.OnlyAdds e₂ :=
    onlyAdds_combine_option hbase he (find?_of_option_ok hoption) (heval right e₁ hright) hended
  refine .inr (.inr ⟨right, e₁, hright, ?_⟩)
  rcases of_bind_error hcombines with hcombined | ⟨written, e₂, hcombined, hset⟩
  · exact hadds (ends_error_iff.2 hcombined)
  · obtain rfl := of_setOption_error hset
    exact hadds (ends_ok_iff.2 hcombined)

end Assign

end Run

/-! ## What the options keep to -/

namespace Engine

variable (host : Host) (e base : Engine) in
/-- There are the options of the base, and each has values of its kind only. What is written through
a prefix is read through it again, as a value of that kind. A local write leaves global values alone,
a global one leaves local values alone, and one without a prefix is read through every prefix. A
write that fails changes nothing that the right side has not changed. -/
structure GovernsOptions : Prop where
  names : e.options.globals.keys = base.options.globals.keys
  shadows : ∀ name r, e.options.locals.find? name = some r →
    ∃ global, e.options.globals.find? name = some global
  kinds : ∀ name r,
    e.options.globals.find? name = some r ∨ e.options.locals.find? name = some r →
      base.optionKind? name = some (e.heap.value r).kind
  writes : ∀ fuel c scope name op x signal e',
    Run.execute (.ofFuel host fuel) c (.assign (.option scope name) op x) e = .ok signal e' →
      (scope = none ∨ scope = some .globals ∨ scope = some .locals) ∧
      ∃ current right e₁ written e₂ kind v, Run.option scope name e = .ok current e ∧
        (Interp.ofFuel host fuel).eval c x e = .ok right e₁ ∧
        Run.combine op (some current) right ("&" ++ scopeText scope ++ name) e₁ =
          .ok written e₂ ∧
        base.optionKind? name = some kind ∧ (e₂.heap.value written).coerced kind = .ok v ∧
        v.kind = kind ∧ e₁.WritesOption e' scope name v
  fails : ∀ fuel c scope name op x stop e',
    Run.execute (.ofFuel host fuel) c (.assign (.option scope name) op x) e = .error stop e' →
      e' = e ∨ (Interp.ofFuel host fuel).eval c x e = .error stop e' ∨
        ∃ right e₁, (Interp.ofFuel host fuel).eval c x e = .ok right e₁ ∧ e₁.OnlyAdds e'

theorem FurnishedLike.governsOptions {base e : Engine} (he : base.FurnishedLike e)
    (hbase : base.HasPlainOptions) (host : Host) : e.GovernsOptions host base := by
  have heval (fuel : Nat) (c : Context) (x : Expr) (right : Ref) (e₁ : Engine)
      (h : (Interp.ofFuel host fuel).eval c x e = .ok right e₁) : base.LeadsOptions e e₁ := by
    have hobeys := Discipline.obeys_furnishing host hbase fuel
    have hruns := (hobeys.eval c x trivial).allows e he (Discipline.refl _ e)
    exact hruns.reach_of_ends (Run.ends_ok_iff.2 h)
  constructor
  case names => exact he.names
  case shadows => exact fun name r hr => he.exists_global (he.locals name r hr).2
  case kinds =>
    exact fun name r hr => hr.elim (fun h => (he.globals name r h).2) fun h => (he.locals name r h).2
  case writes =>
    intro fuel c scope name op x signal e' h
    obtain ⟨_, _, hassign, hnormal⟩ := Run.of_bind_ok h
    cases hnormal
    exact Run.of_assignOption_ok hbase he (heval fuel c x) hassign
  case fails =>
    intro fuel c scope name op x stop e' h
    rcases Run.of_bind_error h with hassign | ⟨_, _, -, hnormal⟩
    · exact Run.of_assignOption_error hbase he (heval fuel c x) hassign
    · cases hnormal

end Engine

/-! ## Sessions -/

namespace Session

open Discipline

/-- What a session comes to from an engine, whatever the host asks for. -/
inductive Follows (host : Host) (base : Engine) : Engine → Prop where
  | refl : Follows host base base
  | constant {e e' : Engine} (h : Follows host base e) {v : Value} {ended : Except Stop Ref}
      (hnew : (Run.newSharing v).Ends e ended e') : Follows host base e'
  | newScript {e : Engine} (h : Follows host base e) (name : String) :
      Follows host base (newScript name e).2
  | setVariable {e e' : Engine} (h : Follows host base e) {c : Context} {v : Variable}
      {d : HostData} {ended : Except Stop Unit} (hset : (setVariable c v d).Ends e ended e') :
      Follows host base e'
  | cancel {e : Engine} (h : Follows host base e) : Follows host base (cancel e)
  | perform {e : Engine} (h : Follows host base e) (fuel : Nat) (r : Request) :
      Follows host base (r.perform (.ofFuel host fuel) e).2

variable {host : Host} {base e : Engine}

theorem furnishedLike_start (he : base.FurnishedLike e) (r : Request) :
    base.FurnishedLike (r.start e) := by
  cases r <;> exact he.of_eq rfl rfl

theorem furnishedLike_perform (hbase : base.HasPlainOptions) (he : base.FurnishedLike e)
    (fuel : Nat) (r : Request) : base.FurnishedLike (r.perform (.ofFuel host fuel) e).2 := by
  have hstart := furnishedLike_start he r
  obtain ⟨e₁, _, _, hleads, hended, -⟩ :=
    Request.leads_perform (obeys_furnishing host hbase fuel) r.judged_any hstart
  rw [hended]
  exact (hleads.furnished hstart).of_eq rfl rfl

theorem Follows.furnishedLike (h : Follows host base e) (hbase : base.HasPlainOptions)
    (hlocals : base.options.locals = .empty) : base.FurnishedLike e := by
  have hleads {e e' : Engine} (he : base.FurnishedLike e)
      (h : (furnishing host hbase).leads e e') : base.FurnishedLike e' := h.furnished he
  induction h with
  | refl => exact hbase.furnishedLike_self hlocals
  | constant _ hnew ih => exact hleads ih (leads_newSharing id hnew ih)
  | newScript _ name ih => exact ih.of_eq rfl rfl
  | setVariable _ hset ih => exact hleads ih (leads_setVariable trivial hset ih)
  | cancel _ ih => exact ih.of_eq rfl rfl
  | perform _ fuel r ih => exact furnishedLike_perform hbase ih fuel r

/-- If the options of a session start as Numbers and Strings, they keep to their names and kinds and
are read as they were written, between the runs of the session and in every step of them. -/
theorem perform_governsOptions {config : Config} {options : List (String × HostData)}
    {registers environment : List (String × String)}
    (hstart : start config options registers environment = .ok base)
    (hplain : ∀ entry ∈ options, entry.2.isPlain = true) (he : Follows host base e) (fuel : Nat)
    (r : Request) :
    e.GovernsOptions host base ∧ (r.perform (.ofFuel host fuel) e).2.GovernsOptions host base ∧
    ∀ hit : Task → Engine → Bool,
      (∀ task e₁, e₁.GovernsOptions host base → hit task e₁ = false) →
        r.perform (.watching host hit fuel) e = r.perform (.ofFuel host fuel) e := by
  have hbase := hasPlainOptions_start hstart hplain
  obtain ⟨_, _, _, -, -, hoptions⟩ := of_start hstart
  have hfurnished := he.furnishedLike hbase (by rw [hoptions])
  refine ⟨hfurnished.governsOptions hbase host,
    (furnishedLike_perform hbase hfurnished fuel r).governsOptions hbase host, fun hit hhit => ?_⟩
  have halarm : ¬(furnishing host hbase).admits .alarm := fun h => h rfl
  exact Request.perform_watching (uniform_furnishing hbase) False.elim halarm
    (fun task e₁ _ he₁ => hhit task e₁ (Engine.FurnishedLike.governsOptions he₁ hbase host)) fuel
    r.judged_any (furnishedLike_start hfurnished r)

/-- The option has a local value, twice the global one. -/
def tabbedLocally : Engine :=
  ((Request.run .commandLine [.assign (.option (some .locals) "tabstop") (.arithmetic .add)
    (.option none "tabstop")]).perform (.ofFuel ⟨[]⟩ 4) tabbed).2

theorem perform_governsOptions_concat : (∀ entry ∈ [("tabstop", HostData.int 8)],
    entry.2.isPlain = true) ∧ Follows ⟨[]⟩ tabbed tabbedLocally ∧ ∃ signal e' v,
      Run.execute (.ofFuel ⟨[]⟩ 2) .commandLine (.assign (.option none "tabstop") .concat
        (.option (some .globals) "tabstop")) tabbedLocally = .ok signal e' ∧
      v.kind = .number ∧ ∀ reading, e'.OptionShows reading "tabstop" v := by
  have hplain : ∀ entry ∈ [("tabstop", HostData.int 8)], entry.2.isPlain = true := by decide
  have hfollows : Follows ⟨[]⟩ tabbed tabbedLocally := Follows.refl.perform 4 _
  have hgoverns := (perform_governsOptions start_tabbed hplain hfollows 0 (.run .commandLine [])).1
  have hruns : (match Run.execute (.ofFuel ⟨[]⟩ 2) .commandLine (.assign (.option none "tabstop")
      .concat (.option (some .globals) "tabstop")) tabbedLocally with
    | .ok _ _ => true
    | _ => false) = true := by decide +kernel
  have hnumber : tabbed.optionKind? "tabstop" = some .number := by decide +kernel
  refine ⟨hplain, hfollows, ?_⟩
  -- the engines are not to be evaluated any more
  generalize tabbed = base at hgoverns hnumber
  generalize tabbedLocally = e at hgoverns hruns ⊢
  split at hruns
  case h_2 => cases hruns
  rename_i signal e' hrun
  obtain ⟨-, _, _, _, _, _, kind, v, -, -, -, hkind, -, hv, hwrites⟩ :=
    hgoverns.writes 2 _ _ _ _ _ signal e' hrun
  refine ⟨signal, e', v, hrun, ?_, hwrites.everywhere rfl⟩
  exact hv.trans (Option.some.inj (hkind.symm.trans hnumber))

end Session

end VimL
