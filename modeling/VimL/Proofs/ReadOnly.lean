import VimL.Proofs.Bindings
import VimL.Proofs.FinalBlock
import VimL.Proofs.Recording

/-!
# Variables that scripts do not bind

The arguments of an invocation, its receiver and the variables of the editor are said to be
read-only. Arguments stay what they were once all of them are bound, and the variables of the editor
only change while a catch block shows them an exception. The receiver can get lost in two ways,
since a removal does not ask whether a variable is read-only, and an assignment asks the function
that it stands in, not the one that the variable belongs to.
-/

namespace VimL

variable {host : Host}

namespace Session

open Engine

/-! ## Sessions -/

/-- The variables of the editor in the first engine of a session. -/
def editorTable : Table Ref :=
  .ofList [("true", ⟨0⟩), ("false", ⟨1⟩), ("exception", ⟨2⟩), ("throwpoint", ⟨3⟩), ("version", ⟨4⟩)]

/-- What is true of the namings between the runs of a session, where no catch block is running. -/
structure AtRest (e : Engine) : Prop where
  trueToNamings : e.TrueToNamings
  silent : e.exceptions = []
  editor : e.vim = editorTable

namespace AtRest

variable {e e' : Engine}

theorem holds (h : AtRest e) (host : Host) {past : List Naming} (hpast : past <:+ e.namings) :
    (Discipline.recording host editorTable past).holds e :=
  ⟨h.trueToNamings, .of_silent h.editor h.silent, hpast⟩

theorem of_records (h : AtRest e) (hrecords : e.Records e') : AtRest e' where
  trueToNamings := hrecords.trueToNamings h.trueToNamings
  silent := hrecords.exceptions.trans h.silent
  editor := hrecords.vim.trans h.editor

theorem of_eq (h : AtRest e) (hframes : e'.frames = e.frames)
    (hfunctions : e'.functions = e.functions) (hnamings : e'.namings = e.namings)
    (hvim : e'.vim = e.vim) : AtRest e' where
  trueToNamings := h.trueToNamings.of_eq hframes hfunctions hnamings
  silent := (congrArg Naming.showing hnamings).trans h.silent
  editor := hvim.trans h.editor

theorem start (h : AtRest e) (r : Request) : AtRest (r.start e) := by
  cases r <;> exact h.of_eq rfl rfl rfl rfl

end AtRest

theorem trueToNamings_blank (config : Config) : (blank config).TrueToNamings where
  running _ hid := absurd hid (Nat.not_lt_zero _)
  frames _ hn := absurd hn List.not_mem_nil
  arguments _ _ hcalled := absurd hcalled List.not_mem_nil
  receivers _ _ _ hentered := absurd hentered List.not_mem_nil

theorem objects_editorVariables (config : Config) : ∃ e₁,
    objects editorVariables (blank config) = .ok [("true", ⟨0⟩), ("false", ⟨1⟩),
      ("exception", ⟨2⟩), ("throwpoint", ⟨3⟩), ("version", ⟨4⟩)] e₁ := by
  simp only [editorVariables, objects, HostData.toValue, Run.newInt, Run.newText]
  exact ⟨_, rfl⟩

/-- The variables of the editor are bound to the first objects that there are. -/
theorem atRest_start {e : Engine} {config : Config} {options : List (String × HostData)}
    {registers environment : List (String × String)}
    (h : start config options registers environment = .ok e) : AtRest e := by
  -- no variable of the editor is there yet while the objects are made
  let D := Discipline.recording ⟨[]⟩ .empty []
  have hblank : D.holds (blank config) :=
    ⟨trueToNamings_blank config, .of_silent rfl rfl, List.suffix_rfl⟩
  unfold start at h
  cases hfurnish : furnish options registers environment (blank config) with
  | error stop e' => simp [hfurnish] at h
  | ok _ e' =>
    obtain rfl : e' = e := by simpa [hfurnish] using h
    unfold furnish at hfurnish
    obtain ⟨vim, e₁, hvim, hfurnish⟩ := Run.of_bind_ok hfurnish
    obtain ⟨globals, e₂, hglobals, hfurnish⟩ := Run.of_bind_ok hfurnish
    obtain ⟨e₁', heditor⟩ := objects_editorVariables config
    cases heditor.symm.trans hvim
    have hfirst : D.leads (blank config) e₁ :=
      leads_of_keeps (keeps_objects _) (Run.ends_ok_iff.2 hvim) hblank
    have hsecond : D.leads e₁ e₂ := leads_of_keeps (keeps_objects _)
      (Run.ends_ok_iff.2 hglobals) (D.holds_of_leads hblank hfirst)
    have hrecords : (blank config).Records e₂ := hfirst.trans hsecond
    cases hfurnish
    exact ⟨(hrecords.trueToNamings (trueToNamings_blank config)).of_eq rfl rfl rfl,
      hrecords.exceptions, rfl⟩

/-- What a request does to the tables and to the namings. -/
theorem AtRest.perform {e : Engine} (he : AtRest e) (host : Host) (fuel : Nat) (r : Request) :
    AtRest (r.perform (.ofFuel host fuel) e).2 ∧
      e.namings <:+ (r.perform (.ofFuel host fuel) e).2.namings := by
  have hstart := he.start r
  obtain ⟨e₁, _, _, hleads, hended, -⟩ := Request.leads_perform
    (Interp.obeys_ofFuel (Discipline.uniform_recording host editorTable e.namings) False.elim fuel)
    r.judged_any (hstart.holds host (by cases r <;> exact List.suffix_rfl))
  rw [hended]
  refine ⟨(hstart.of_records hleads).of_eq rfl rfl rfl rfl, ?_⟩
  have hsuffix : (r.start e).namings <:+ e₁.namings := hleads.namings
  cases r <;> exact hsuffix

theorem Arrives.atRest {e : Engine} (h : Arrives host e) : AtRest e := by
  have hholds {e : Engine} (he : AtRest e) := he.holds host (List.suffix_rfl (l := e.namings))
  induction h with
  | start h => exact atRest_start h
  | constant _ hnew ih => exact ih.of_records (leads_newSharing id hnew (hholds ih))
  | newScript _ name ih => exact ih.of_eq rfl rfl rfl rfl
  | setVariable _ hset ih => exact ih.of_records (leads_setVariable trivial hset (hholds ih))
  | cancel _ ih => exact ih.of_eq rfl rfl rfl rfl
  | perform _ fuel r ih => exact (ih.perform host fuel r).1

theorem perform_watching_recording {e : Engine} (he : AtRest e) (fuel : Nat) (r : Request)
    {hit : Task → Engine → Bool}
    (hhit : ∀ task e₁, e₁.TrueToNamings → e₁.Shows editorTable → e.namings <:+ e₁.namings →
      hit task e₁ = false) :
    r.perform (.watching host hit fuel) e = r.perform (.ofFuel host fuel) e := by
  have halarm : ¬(Discipline.recording host editorTable e.namings).admits .alarm := fun h => h rfl
  exact Request.perform_watching (Discipline.uniform_recording host editorTable e.namings)
    False.elim halarm (fun task e₁ _ he₁ => hhit task e₁ he₁.1 he₁.2.1 he₁.2.2) fuel r.judged_any
    ((he.start r).holds host (by cases r <;> exact List.suffix_rfl))

end Session

/-! ## Arguments and the variables of the editor -/

namespace Engine

open Session

/-- Arguments are still what the invocation was called with, and the variables of the editor are
those of the beginning, but for an exception that is shown. -/
structure KeepsReadOnly (past : List Naming) (e : Engine) : Prop where
  past : past <:+ e.namings
  arguments : ∀ id arguments, .called id arguments ∈ e.namings →
    e.tableAt (.arguments id) = arguments
  editor : ∀ name, e.vim.contains name = editorTable.contains name
  shows : e.Shows editorTable

variable {e e₁ e₂ : Engine} {past : List Naming}

theorem TrueToNamings.keepsReadOnly (he : e.TrueToNamings) (hshows : e.Shows editorTable)
    (hpast : past <:+ e.namings) : e.KeepsReadOnly past :=
  ⟨hpast, he.arguments, hshows.contains_eq (by decide +kernel) (by decide +kernel), hshows⟩

/-- A block leaves the variables of the editor as they are. -/
theorem TrueToNamings.records_block (he : e₁.TrueToNamings) (hshows : e₁.Shows editorTable)
    {fuel : Nat} {c : Context} {body : List Stmt} {ended : Except Stop Signal}
    (h : (Run.block (Interp.ofFuel host fuel).exec c body).Ends e₁ ended e₂) : e₁.Records e₂ := by
  have hobeys : (Interp.ofFuel host fuel).Obeys (.recording host editorTable e₁.namings) .any :=
    Interp.obeys_ofFuel (Discipline.uniform_recording host editorTable e₁.namings) False.elim fuel
  have hbody : Trees.any.body .top body := fun _ _ => trivial
  have hblock := Run.allows_block hobeys hbody (c := c) False.elim e₁
  exact (hblock ⟨he, hshows, List.suffix_rfl⟩ (Discipline.refl _ e₁)).reach_of_ends h

/-- A catch block starts where the exception is shown. -/
theorem Shows.showing (h : e.Shows editorTable) (err : ScriptError) :
    (e.showing err).Shows editorTable ∧ (e.showing err).exceptions = err :: e.exceptions := by
  let e₁ := e.withHeap (e.heap.new (.string err.exceptionText)).2
  have hscalars : e.heap.KeepsScalars (e₁.heap.new (.string err.throwpoint)).2 :=
    (Heap.KeepsScalars.new _ _).trans (.new _ _)
  have hnew : (e₁.withHeap (e₁.heap.new (.string err.throwpoint)).2).Shows editorTable :=
    h.of_eq rfl rfl hscalars
  exact ⟨hnew.catching (e.tells_new err), rfl⟩

theorem TrueToNamings.showing (he : e.TrueToNamings) (err : ScriptError) :
    (e.showing err).TrueToNamings := by
  let e₁ := e.withHeap (e.heap.new (.string err.exceptionText)).2
  have hnew : (e₁.withHeap (e₁.heap.new (.string err.throwpoint)).2).TrueToNamings :=
    he.of_eq rfl rfl rfl
  exact hnew.catching

/-- How runs that start here deal with what is read-only: blocks leave the variables of the editor
as they are, and so do catch blocks, which run while their exception is shown. -/
structure SparesReadOnly (host : Host) (e : Engine) : Prop where
  block : ∀ fuel c body ended e',
    (Run.block (Interp.ofFuel host fuel).exec c body).Ends e ended e' →
      e'.KeepsReadOnly e.namings ∧ e'.vim = e.vim
  caught : ∀ fuel c err clause ended e',
    (Run.catchBlock (Interp.ofFuel host fuel) c err clause).Ends e ended e' →
      ∃ shown after, shown.exceptions = err :: e.exceptions ∧ shown.KeepsReadOnly e.namings ∧
        (Run.block (Interp.ofFuel host fuel).exec c clause).Ends shown ended after ∧
        e'.exceptions = e.exceptions ∧ e'.vim = e.vim

theorem TrueToNamings.sparesReadOnly (he : e.TrueToNamings) (hshows : e.Shows editorTable) :
    e.SparesReadOnly host where
  block fuel c body ended e' hrun := by
    have hrecords := he.records_block hshows hrun
    have hafter := hrecords.trueToNamings he
    have hshows' := hshows.of_eq hrecords.vim hrecords.exceptions hrecords.scalars
    exact ⟨hafter.keepsReadOnly hshows' hrecords.namings, hrecords.vim⟩
  caught fuel c err clause ended e' hrun := by
    obtain ⟨hshown, hexceptions⟩ := hshows.showing err
    have htrue := he.showing err
    obtain ⟨ended', after, hblock⟩ :=
      Run.exists_ends (Run.block (Interp.ofFuel host fuel).exec c clause) (e.showing err)
    obtain ⟨rfl, rfl⟩ := (Run.catchBlock_ends hblock).unique hrun
    have hrecords := htrue.records_block hshown hblock
    refine ⟨e.showing err, after, hexceptions, ?_, hblock, ?_, rfl⟩
    · exact htrue.keepsReadOnly hshown (List.suffix_cons _ _)
    · exact congrArg List.tail (hrecords.exceptions.trans hexceptions)

end Engine

namespace Session

variable {e : Engine}

/-- Whatever a session asks for, arguments that are all bound are never bound anew, and no variable
of the editor is, but for those that show the exception of a catch block while it runs. So it is
after every request, in every step of it, and in every block of it. -/
theorem perform_keepsReadOnly (he : Arrives host e) (fuel : Nat) (r : Request) :
    (r.perform (.ofFuel host fuel) e).2.KeepsReadOnly e.namings ∧
    (r.perform (.ofFuel host fuel) e).2.vim = editorTable ∧
    (∀ hit : Task → Engine → Bool,
      (∀ task e₁, e₁.KeepsReadOnly e.namings → e₁.SparesReadOnly host → hit task e₁ = false) →
        r.perform (.watching host hit fuel) e = r.perform (.ofFuel host fuel) e) := by
  have hrest := he.atRest
  obtain ⟨hafter, hpast⟩ := hrest.perform host fuel r
  refine ⟨?_, hafter.editor, fun hit hhit => ?_⟩
  · exact hafter.trueToNamings.keepsReadOnly (.of_silent hafter.editor hafter.silent) hpast
  · exact perform_watching_recording hrest fuel r fun task e₁ htrue hshows hpast =>
      hhit task e₁ (htrue.keepsReadOnly hshows hpast) (htrue.sparesReadOnly hshows)

/-- A call with an argument, and a text that is thrown and caught. -/
def callingAndCatching : Request :=
  .run .commandLine [
    .function none "F" ⟨["x"], [], [], false, false, false, false⟩,
    .evaluate (.call none "F" [.list []]),
    .tryCatch [.throw (.var ⟨some .vim, "version"⟩)] [("9", [.echo []])] none]

def calledAndCaught : Engine := (callingAndCatching.perform (.ofFuel ⟨[]⟩ 6) (holding "")).2

theorem perform_keepsReadOnly_called :
    Arrives ⟨[]⟩ (holding "") ∧ calledAndCaught.vim = editorTable ∧
      ∃ id arguments, .called id arguments ∈ calledAndCaught.namings ∧
        arguments.contains "x" = true ∧ calledAndCaught.tableAt (.arguments id) = arguments := by
  have harrives := arrives_holding ⟨[]⟩ ""
  obtain ⟨hkeeps, hvim, -⟩ := perform_keepsReadOnly harrives 6 callingAndCatching
  have hcalled : (calledAndCaught.namings.any fun
    | .called _ arguments => arguments.contains "x"
    | _ => false) = true := by decide +kernel
  unfold calledAndCaught at hcalled ⊢
  -- the run is not to be evaluated any more
  generalize (callingAndCatching.perform (.ofFuel ⟨[]⟩ 6) (holding "")).2 = e
    at hkeeps hvim hcalled ⊢
  obtain ⟨n, hin, hn⟩ := List.any_eq_true.1 hcalled
  cases n with
  | called id arguments =>
    exact ⟨harrives, hvim, id, arguments, hin, hn, hkeeps.arguments id arguments hin⟩
  | _ => cases hn

end Session

/-! ## Receivers -/

namespace Engine

/-- A Dictionary that an invocation has been given as its receiver is still bound to its name, or it
is noted how it got lost. -/
structure KeepsReceivers (past : List Naming) (e : Engine) : Prop where
  past : past <:+ e.namings
  receivers : ∀ id locals d, .entered id locals ∈ e.namings → locals.find? "self" = some d →
    e.Runs id true ∧ (e.Binds ⟨.locals id, "self"⟩ d ∨ ∃ n ∈ e.namings, e.Loses id n)

/-- A function refuses to bind its receiver anew, as a variable, in a loop, or as one of several
variables. -/
structure RefusesReceiver (e : Engine) (c : Context) (v : Variable) : Prop where
  assign : ∀ eval op x, Run.assign eval c (.var v) op x e = .error (.ofCause (.readOnly v.text)) e
  store : ∀ r, Run.store c v r e = .error (.ofCause (.readOnly v.text)) e
  round : e.interrupted = false → ∀ i d body r rest,
    Run.forEach i d (Run.store c v) body (r :: rest) e = .error (.ofCause (.readOnly v.text)) e
  unpack : ∀ targets items, v ∈ targets → targets.length ≤ items.length →
    ∃ err e', Run.storeAll c targets items e = .error (.error err) e'

variable {e e' : Engine} {c : Context} {v : Variable} {stop : Stop}

theorem Runs.of_inDictFunction (h : e.inDictFunction c = true) :
    ∃ id, c.frame = some id ∧ e.Runs id true := by
  unfold inDictFunction at h
  cases hframe : c.frame with
  | none => simp [hframe] at h
  | some id =>
    cases hf : e.frame? id with
    | none => simp [hframe, hf] at h
    | some f =>
      cases hg : e.function? f.function with
      | none => simp [hframe, hf, hg] at h
      | some g => exact ⟨id, rfl, f, g, hf, hg, by simpa [hframe, hf, hg] using h⟩

theorem KeepsRunning.storing (e : Engine) (c : Context) (v : Variable) (r : Ref) (p : Place) :
    e.KeepsRunning (e.storing c v r p) :=
  of_eqs (changeTable (e.withHeap (e.heap.stored r).2) (·.insert v.name (e.heap.stored r).1) p)
    rfl rfl rfl rfl

theorem checkWritable_self (h : e.inDictFunction c = true) (hname : v.name = "self")
    (hscope : v.scope = none ∨ v.scope = some .locals) :
    e.checkWritable c v = .error (.ofCause (.readOnly v.text)) := by
  obtain ⟨id, hframe, -⟩ := Runs.of_inDictFunction h
  have hreadOnly : e.isReadOnly c v = true := by
    rcases hscope with hscope | hscope <;> simp [isReadOnly, hname, hscope, h]
  unfold checkWritable
  rw [if_neg (by rcases hscope with hscope | hscope <;> simp [hscope]),
    if_neg (by simp [hframe]), if_pos hreadOnly]

end Engine

/-! ### Errors of stores -/

theorem Context.error_of_place {c : Context} {scope : Scope} {name : String} {writing : Bool}
    {stop : Stop} (h : c.place scope name writing = .error stop) : ∃ err, stop = .error err := by
  unfold place at h
  split at h
  · cases h
  · cases h
  · split at h
    · cases h
    · split at h <;> exact ⟨_, (Except.error.inj h).symm⟩
  all_goals
    split at h
    · cases h
    · exact ⟨_, (Except.error.inj h).symm⟩

namespace Engine

variable {e : Engine} {c : Context} {v : Variable} {stop : Stop}

theorem error_of_resolve {scope : Option Scope} {name : String}
    (h : e.resolve c scope name = .error stop) : ∃ err, stop = .error err :=
  Context.error_of_place (place_of_resolve_error h)

theorem error_of_checkWritable (h : e.checkWritable c v = .error stop) :
    ∃ err, stop = .error err := by
  unfold checkWritable at h
  split at h
  · exact ⟨_, (Except.error.inj h).symm⟩
  split at h
  · exact ⟨_, (Except.error.inj h).symm⟩
  split at h
  · exact ⟨_, (Except.error.inj h).symm⟩
  split at h
  · rename_i other hresolve
    obtain rfl : other = stop := Except.error.inj h
    exact error_of_resolve hresolve
  · split at h
    · exact ⟨_, (Except.error.inj h).symm⟩
    · cases h
  · cases h

theorem error_of_writePlace (h : e.writePlace c v = .error stop) : ∃ err, stop = .error err := by
  unfold writePlace at h
  dsimp only at h
  split at h
  · cases h
  · exact Context.error_of_place h

end Engine

namespace Run

variable {e e' : Engine} {c : Context} {v : Variable} {r : Ref} {stop : Stop}

theorem error_of_store (h : store c v r e = .error stop e') : ∃ err, stop = .error err := by
  obtain ⟨-, hwritable | rfl | hplace⟩ := of_store_error h
  · exact Engine.error_of_checkWritable hwritable
  · exact ⟨_, rfl⟩
  · exact Engine.error_of_writePlace hplace

/-- Several variables cannot be bound if the receiver is among them. -/
theorem storeAll_self (hname : v.name = "self") (hscope : v.scope = none ∨ v.scope = some .locals)
    {targets : List Variable} {items : List Ref} (hin : v ∈ targets)
    (hlength : targets.length ≤ items.length) (he : e.inDictFunction c = true) :
    ∃ err e', storeAll c targets items e = .error (.error err) e' := by
  induction targets generalizing items e with
  | nil => cases hin
  | cons target targets ih =>
    cases items with
    | nil => simp at hlength
    | cons r items =>
      unfold storeAll
      cases hstore : store c target r e with
      | error stop e' =>
        obtain ⟨err, rfl⟩ := error_of_store hstore
        exact ⟨err, e', bind_of_error hstore⟩
      | ok _ e' =>
        obtain ⟨hwritable, p, -, rfl⟩ := of_store_ok hstore
        obtain ⟨id, hframe, hruns⟩ := Engine.Runs.of_inDictFunction he
        -- whatever was bound before it, the frame is still that of the same function
        have hstill := (Engine.KeepsRunning.storing e c target r p).runs id _ hruns
        rw [bind_of_ok hstore]
        rcases List.mem_cons.1 hin with rfl | hin
        · rw [Engine.checkWritable_self he hname hscope] at hwritable
          cases hwritable
        · exact ih hin (Nat.le_of_succ_le_succ hlength) (hstill.inDictFunction_eq hframe)

/-- A function finds a receiver that is a Dictionary in its locals if it needs one. -/
theorem newFrame_receives (id : FunctionId) {f : Function} (hdict : f.definition.dict = true)
    {d : Ref} {entries : Table Ref} (hd : e.heap.value d = .dictionary entries) :
    ∃ e' locals, newFrame id f (some d) e = .ok ⟨e.frames.size⟩ e' ∧
      e'.namings = .entered ⟨e.frames.size⟩ locals :: e.namings ∧
        locals.find? "self" = some d := by
  refine ⟨_, _, rfl, rfl, ?_⟩
  simp [firstLocals, hd, hdict]

end Run

theorem Engine.refusesReceiver {e : Engine} {c : Context} {v : Variable}
    (h : e.inDictFunction c = true) (hname : v.name = "self")
    (hscope : v.scope = none ∨ v.scope = some .locals) : e.RefusesReceiver c v :=
  have hwritable := checkWritable_self h hname hscope
  { assign := Run.assign_of_not_writable hwritable
    store := Run.store_of_not_writable hwritable
    round := fun hgoes => Run.forEach_of_not_writable hwritable hgoes
    unpack := fun _ _ hin hlength => Run.storeAll_self hname hscope hin hlength h }

namespace Session

variable {e : Engine}

/-- Whatever a session asks for, a Dictionary that a function has been called with stays bound as
its receiver, after every request and in every step of it, until the function removes it, or one
that needs no receiver itself and was defined inside binds the name anew. The function itself
cannot. -/
theorem perform_keepsReceivers (he : Arrives host e) (fuel : Nat) (r : Request) :
    (r.perform (.ofFuel host fuel) e).2.KeepsReceivers e.namings ∧
    (∀ hit : Task → Engine → Bool,
      (∀ task e₁, e₁.KeepsReceivers e.namings → hit task e₁ = false) →
        r.perform (.watching host hit fuel) e = r.perform (.ofFuel host fuel) e) ∧
    (∀ (e₁ : Engine) c v, e₁.inDictFunction c = true → v.name = "self" →
      (v.scope = none ∨ v.scope = some .locals) → e₁.RefusesReceiver c v) ∧
    ∀ (e₁ : Engine) id (f : Function) d entries, f.definition.dict = true →
      e₁.heap.value d = .dictionary entries →
        ∃ e₂ locals, Run.newFrame id f (some d) e₁ = .ok ⟨e₁.frames.size⟩ e₂ ∧
          e₂.namings = .entered ⟨e₁.frames.size⟩ locals :: e₁.namings ∧
            locals.find? "self" = some d := by
  have hrest := he.atRest
  obtain ⟨hafter, hpast⟩ := hrest.perform host fuel r
  refine ⟨⟨hpast, hafter.trueToNamings.receivers⟩, fun hit hhit => ?_,
    fun e₁ c v => Engine.refusesReceiver,
    fun e₁ id f d entries hdict hd => Run.newFrame_receives id hdict hd⟩
  exact perform_watching_recording hrest fuel r fun task e₁ htrue _ hpast =>
    hhit task e₁ ⟨hpast, htrue.receivers⟩

/-! ### A method -/

/-- The receiver, as a function refers to it. -/
def receiver : Variable := ⟨none, "self"⟩

/-- A function in a Dictionary, which is called there. -/
def callingMethod (body : List Stmt) : Request :=
  let methods : Expr := .var ⟨some .globals, "methods"⟩
  let method : Expr := .index methods (.var ⟨some .vim, "version"⟩)
  .run .commandLine [
    .assign methods .set (.dict []),
    .dictFunction method ⟨[], [], body, false, false, false, false⟩,
    .evaluate (.callValue method [])]

def called (body : List Stmt) : Engine :=
  ((callingMethod body).perform (.ofFuel ⟨[]⟩ 8) (holding "")).2

/-- This leaves receivers alone. -/
def sparesReceiver : Naming → Bool
  | .bound _ b | .unbound _ b => b.name != "self"
  | _ => true

theorem not_loses {id : FrameId} {n : Naming} (h : sparesReceiver n = true) : ¬e.Loses id n := by
  rintro (hc | hc) <;> simp [sparesReceiver] at h

theorem perform_keepsReceivers_shown :
    Arrives ⟨[]⟩ (holding "") ∧ ∃ id locals d, .entered id locals ∈ (called [.echo []]).namings ∧
      locals.find? "self" = some d ∧ (called [.echo []]).Binds ⟨.locals id, "self"⟩ d := by
  have harrives := arrives_holding ⟨[]⟩ ""
  have hkeeps := (perform_keepsReceivers harrives 8 (callingMethod [.echo []])).1
  have hentered : ((called [.echo []]).namings.any fun
    | .entered _ locals => locals.contains "self"
    | _ => false) = true := by decide +kernel
  have hspared : (called [.echo []]).namings.all sparesReceiver = true := by decide +kernel
  unfold called at hentered hspared ⊢
  -- the run is not to be evaluated any more
  generalize ((callingMethod [.echo []]).perform (.ofFuel ⟨[]⟩ 8) (holding "")).2 = e
    at hkeeps hentered hspared ⊢
  obtain ⟨n, hin, hn⟩ := List.any_eq_true.1 hentered
  cases n with
  | entered id locals =>
    obtain ⟨d, hd⟩ := Option.isSome_iff_exists.1 hn
    refine ⟨harrives, id, locals, d, hin, hd, ?_⟩
    refine (hkeeps.receivers id locals d hin hd).2.resolve_right ?_
    rintro ⟨n, hn, hloses⟩
    exact not_loses (List.all_eq_true.1 hspared n hn) hloses
  | _ => cases hn

/-- A statement of a function finds the receiver that the function was called with. -/
def FindsReceiver (task : Task) (e : Engine) : Prop :=
  ∀ c s id locals d, task = .exec c s → c.frame = some id → .entered id locals ∈ e.namings →
    locals.find? "self" = some d → e.Binds ⟨.locals id, "self"⟩ d

/-- A statement of a function misses the receiver that the function was called with. -/
def missesReceiver : Task → Engine → Bool
  | .exec ⟨_, some id⟩ _, e =>
    (e.namings.any fun
      | .entered other locals => decide (other = id) && locals.contains "self"
      | _ => false) && !(e.tableAt (.locals id)).contains "self"
  | _, _ => false

theorem missesReceiver_of_finds {task : Task} (h : FindsReceiver task e) :
    missesReceiver task e = false := by
  by_contra hmisses
  rw [Bool.not_eq_false] at hmisses
  unfold missesReceiver at hmisses
  split at hmisses
  · rename_i script id s
    obtain ⟨hentered, hunbound⟩ := (Bool.and_eq_true _ _).mp hmisses
    obtain ⟨n, hin, hn⟩ := List.any_eq_true.1 hentered
    cases n with
    | entered other locals =>
      obtain ⟨hid, hself⟩ := (Bool.and_eq_true _ _).mp hn
      obtain rfl : other = id := of_decide_eq_true hid
      obtain ⟨d, hd⟩ := Option.isSome_iff_exists.1 hself
      have hbinds := h _ s other locals d rfl rfl hin hd
      simp [Table.contains, show (e.tableAt (.locals other)).find? "self" = some d from hbinds]
        at hunbound
    | _ => cases hn
  · cases hmisses

/-- A function that removes its receiver goes on without it. -/
theorem not_forall_finds_receiver :
    ¬∀ e, Arrives ⟨[]⟩ e → ∀ (fuel : Nat) (r : Request) (hit : Task → Engine → Bool),
      (∀ task e₁, FindsReceiver task e₁ → hit task e₁ = false) →
        r.perform (.watching ⟨[]⟩ hit fuel) e = r.perform (.ofFuel ⟨[]⟩ fuel) e := by
  intro hclaim
  let removing : Request := callingMethod [.unlet [.var receiver] false, .echo []]
  have hsame := hclaim (holding "") (arrives_holding ⟨[]⟩ "") 8 removing missesReceiver
    fun _ _ => missesReceiver_of_finds
  have hends : (removing.perform (.ofFuel ⟨[]⟩ 8) (holding "")).1.outcome.isOk = true := by
    decide +kernel
  have hseen : (removing.perform (.watching ⟨[]⟩ missesReceiver 8) (holding "")).1.outcome.isOk =
      false := by decide +kernel
  rw [hsame, hends] at hseen
  cases hseen

end Session

end VimL
