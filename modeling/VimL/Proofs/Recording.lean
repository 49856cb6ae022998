import VimL.Proofs.Invariants
import VimL.Proofs.Invocations
import VimL.Proofs.Owners
import VimL.Proofs.Sites

/-!
# What the namings keep true

The namings and the tables of an engine tell the same story. The arguments of an invocation are
those that it was noted to be called with. Its receiver is bound as it was in the beginning, unless
somebody is noted to have taken it away. The variables of the editor show the exception that is
noted to be shown.
-/

namespace VimL

namespace Engine

variable {base : Table Ref} {e e' e'' : Engine} {id : FrameId} {c : Context} {r d : Ref}

/-! ## Receivers -/

/-- The frame is that of an invocation whose function needs a receiver, or needs none. -/
def Runs (e : Engine) (id : FrameId) (needsReceiver : Bool) : Prop :=
  ∃ f g, e.frame? id = some f ∧ e.function? f.function = some g ∧ g.definition.dict = needsReceiver

/-- Frames go on to the same frames, and they are those of the same functions. -/
structure KeepsRunning (e e' : Engine) : Prop where
  frames : e.KeepsFrames e'
  runs : ∀ id needsReceiver, e.Runs id needsReceiver → e'.Runs id needsReceiver

namespace KeepsRunning

theorem of_eq (hframes : e'.frames = e.frames) (hfunctions : e'.functions = e.functions) :
    e.KeepsRunning e' := by
  refine ⟨.of_eq hframes, fun id needsReceiver hruns => ?_⟩
  obtain ⟨f, g, hf, hg, hneeds⟩ := hruns
  refine ⟨f, g, ?_, ?_, hneeds⟩
  · rw [frame?, hframes]
    exact hf
  · rw [function?, hfunctions]
    exact hg

theorem trans (h : e.KeepsRunning e') (h' : e'.KeepsRunning e'') : e.KeepsRunning e'' :=
  ⟨h.frames.trans h'.frames, fun id _ hruns => h'.runs id _ (h.runs id _ hruns)⟩

theorem of_eqs {e₁ e₂ : Engine} (h : e₁.KeepsRunning e₂) (hframes : e₁.frames = e.frames)
    (hfunctions : e₁.functions = e.functions) (hframes' : e'.frames = e₂.frames)
    (hfunctions' : e'.functions = e₂.functions) : e.KeepsRunning e' :=
  (of_eq hframes hfunctions).trans (h.trans (of_eq hframes' hfunctions'))

/-- Every frame is kept, but for its tables. -/
theorem of_frames (hfunctions : e'.functions = e.functions)
    (hframes : ∀ id f, e.frame? id = some f →
      ∃ f', e'.frame? id = some f' ∧ f'.closure = f.closure ∧ f'.function = f.function) :
    e.KeepsRunning e' := by
  refine ⟨fun id f hf => ?_, fun id needsReceiver hruns => ?_⟩
  · obtain ⟨f', hf', hclosure, -⟩ := hframes id f hf
    exact ⟨f', hf', hclosure⟩
  · obtain ⟨f, g, hf, hg, hneeds⟩ := hruns
    obtain ⟨f', hf', -, hfunction⟩ := hframes id f hf
    refine ⟨f', g, hf', ?_, hneeds⟩
    rw [function?, hfunctions, hfunction]
    exact hg

theorem changeTable (e : Engine) (change : Table Ref → Table Ref) (p : Place) :
    e.KeepsRunning (e.changeTable change p) := by
  refine .of_frames (e.changeTable_functions change p) fun id f hf => ?_
  cases p with
  | locals other | arguments other =>
    simp only [frame?, Engine.changeTable, Array.getElem?_modify] at hf ⊢
    rw [hf]
    split
    · exact ⟨_, rfl, rfl, rfl⟩
    · exact ⟨f, rfl, rfl, rfl⟩
  | _ => exact ⟨f, hf, rfl, rfl⟩

theorem invoke (e : Engine) (f : Frame) : e.KeepsRunning (e.invoke f) :=
  .of_frames rfl fun _ g hg => ⟨g, frame?_invoke hg f, rfl, rfl⟩

/-- Every function keeps its definition. -/
theorem of_functions (hframes : e'.frames = e.frames)
    (hfunctions : ∀ id g, e.function? id = some g →
      ∃ g', e'.function? id = some g' ∧ g'.definition = g.definition) : e.KeepsRunning e' := by
  refine ⟨.of_eq hframes, fun id needsReceiver hruns => ?_⟩
  obtain ⟨f, g, hf, hg, hneeds⟩ := hruns
  obtain ⟨g', hg', hdefinition⟩ := hfunctions f.function g hg
  refine ⟨f, g', ?_, hg', by rw [hdefinition, hneeds]⟩
  rw [frame?, hframes]
  exact hf

theorem define (e : Engine) (f : Function) :
    e.KeepsRunning { e with functions := e.functions.push f } := by
  refine .of_functions rfl fun id g hg => ⟨g, ?_, rfl⟩
  exact (function?_define_of_lt f (lt_size_of_function? hg)).trans hg

theorem retire (e : Engine) (id : FunctionId) :
    e.KeepsRunning { e with functions := e.functions.modify id.index fun f =>
      { f with deleted := true } } := by
  refine .of_functions rfl fun other g hg => ?_
  simp only [function?] at hg
  simp only [function?, Array.getElem?_modify, hg]
  split
  · exact ⟨_, rfl, rfl⟩
  · exact ⟨g, rfl, rfl⟩

end KeepsRunning

theorem Runs.inDictFunction_eq {needs : Bool} (h : e.Runs id needs) (hframe : c.frame = some id) :
    e.inDictFunction c = needs := by
  obtain ⟨f, g, hf, hg, rfl⟩ := h
  simp [inDictFunction, hframe, hf, hg]

/-- This takes the receiver of an invocation away: the invocation removes it, or another one, whose
function needs no receiver and was defined in the first one, binds the name anew. -/
inductive Loses (e : Engine) (id : FrameId) : Naming → Prop where
  | removal {c : Context} (hc : c.frame = some id) : Loses e id (.unbound c ⟨.locals id, "self"⟩)
  | assignment {c : Context} {own : FrameId} (hc : c.frame = some own) (hne : own ≠ id)
      (hin : id ∈ e.chain own) (hfree : e.Runs own false) :
      Loses e id (.bound c ⟨.locals id, "self"⟩)

theorem Loses.mono {n : Naming} (h : e.Loses id n) (hruns : e.KeepsRunning e') :
    e'.Loses id n := by
  cases h with
  | removal hc => exact .removal hc
  | assignment hc hne hin hfree =>
    exact .assignment hc hne (hruns.frames.chainFrom_subset _ _ hin) (hruns.runs _ _ hfree)

/-! ## The namings and the tables -/

/-- What the namings say of invocations is true. -/
structure TrueToNamings (e : Engine) : Prop where
  running : ∀ id : FrameId, id.index < e.frames.size → ∃ needsReceiver, e.Runs id needsReceiver
  frames : ∀ n ∈ e.namings, ∀ id, n.frame? = some id → id.index < e.frames.size
  arguments : ∀ id arguments, .called id arguments ∈ e.namings →
    e.tableAt (.arguments id) = arguments
  receivers : ∀ id locals d, .entered id locals ∈ e.namings → locals.find? "self" = some d →
    e.Runs id true ∧
      (e.Binds ⟨.locals id, "self"⟩ d ∨ ∃ n ∈ e.namings, e.Loses id n)

namespace TrueToNamings

/-- Nothing new is said of invocations. The arguments that were noted are as they were, and where a
receiver is not, it was taken away. -/
theorem of_tables (he : e.TrueToNamings) (hruns : e.KeepsRunning e')
    (hsize : e'.frames.size = e.frames.size) (added : List Naming)
    (hnamings : e'.namings = added ++ e.namings) (hadded : ∀ n ∈ added, n.frame? = none)
    (harguments : ∀ id arguments, .called id arguments ∈ e.namings →
      e'.tableAt (.arguments id) = e.tableAt (.arguments id))
    (hreceivers : ∀ id locals d, .entered id locals ∈ e.namings → locals.find? "self" = some d →
      e.Runs id true → e.Binds ⟨.locals id, "self"⟩ d →
        e'.Binds ⟨.locals id, "self"⟩ d ∨ ∃ n ∈ e'.namings, e'.Loses id n) :
    e'.TrueToNamings := by
  have hold {n : Naming} {id : FrameId} (hn : n ∈ e'.namings) (hid : n.frame? = some id) :
      n ∈ e.namings := by
    rw [hnamings] at hn
    refine (List.mem_append.1 hn).resolve_left fun hin => ?_
    simp [hadded n hin] at hid
  refine ⟨fun id hid => ?_, fun n hn id hid => ?_, fun id arguments hcalled => ?_,
    fun id locals d hentered hself => ?_⟩
  · obtain ⟨needsReceiver, hrunning⟩ := he.running id (hsize ▸ hid)
    exact ⟨needsReceiver, hruns.runs id _ hrunning⟩
  · rw [hsize]
    exact he.frames n (hold hn hid) id hid
  · have hin := hold hcalled rfl
    exact (harguments id arguments hin).trans (he.arguments id arguments hin)
  · have hin := hold hentered rfl
    obtain ⟨hrunning, hbinds | ⟨n, hn, hloses⟩⟩ := he.receivers id locals d hin hself
    · exact ⟨hruns.runs id _ hrunning, hreceivers id locals d hin hself hrunning hbinds⟩
    · have hkept : n ∈ e'.namings := hnamings ▸ List.mem_append_right added hn
      exact ⟨hruns.runs id _ hrunning, .inr ⟨n, hkept, hloses.mono hruns⟩⟩

/-- The tables of frames are as they were. -/
theorem of_frames (he : e.TrueToNamings) (hruns : e.KeepsRunning e')
    (hframes : e'.frames = e.frames) (added : List Naming)
    (hnamings : e'.namings = added ++ e.namings) (hadded : ∀ n ∈ added, n.frame? = none) :
    e'.TrueToNamings := by
  refine he.of_tables hruns (congrArg Array.size hframes) added hnamings hadded (fun id _ _ => ?_)
    fun id _ _ _ _ _ hbinds => .inl ?_
  · simp only [tableAt, frame?, hframes]
  · refine (binds_iff_of_tableAt ?_).2 hbinds
    simp only [tableAt, frame?, hframes]

theorem of_eq (he : e.TrueToNamings) (hframes : e'.frames = e.frames)
    (hfunctions : e'.functions = e.functions) (hnamings : e'.namings = e.namings) :
    e'.TrueToNamings :=
  he.of_frames (.of_eq hframes hfunctions) hframes [] hnamings (List.forall_mem_nil _)

theorem note (he : e.TrueToNamings) {n : Naming} (hn : n.frame? = none) :
    (e.note n).TrueToNamings :=
  he.of_frames (.of_eq rfl rfl) rfl [n] rfl (List.forall_mem_singleton.2 hn)

/-- A variable is bound anew or taken away. If it is the receiver of an invocation, this is how it
gets lost. -/
theorem changeTable_note (he : e.TrueToNamings) {change : Table Ref → Table Ref} {p : Place}
    (hp : p.isWritable = true) {name : String} {n : Naming} (hn : n.frame? = none)
    (hchange : ∀ t other, other ≠ name → (change t).find? other = t.find? other)
    (hloses : ∀ id, p = .locals id → name = "self" → e.Runs id true → e.Loses id n) :
    ((e.changeTable change p).note n).TrueToNamings := by
  have hruns : e.KeepsRunning ((e.changeTable change p).note n) :=
    (KeepsRunning.changeTable e change p).trans (.of_eq rfl rfl)
  have hnamings : ((e.changeTable change p).note n).namings = [n] ++ e.namings :=
    congrArg (n :: ·) (e.changeTable_namings change p)
  refine he.of_tables hruns (e.frames_size_changeTable change p) [n] hnamings
    (List.forall_mem_singleton.2 hn) (fun id _ _ => ?_) fun id locals d _ _ hrunning hbinds => ?_
  · rw [tableAt_note]
    refine tableAt_changeTable_of_ne e change ?_
    rintro rfl
    cases hp
  · by_cases htaken : p = .locals id ∧ name = "self"
    · refine .inr ⟨n, ?_, (hloses id htaken.1 htaken.2 hrunning).mono hruns⟩
      rw [hnamings]
      exact List.mem_cons_self
    -- another name of the frame, or the table of another frame
    · left
      unfold Binds at hbinds ⊢
      rw [tableAt_note]
      by_cases hplace : p = .locals id
      · subst hplace
        have hname : "self" ≠ name := fun heq => htaken ⟨rfl, heq.symm⟩
        rcases e.tableAt_changeTable change (.locals id) with hnew | hsame
        · rw [hnew, hchange _ _ hname]
          exact hbinds
        · rw [hsame]
          exact hbinds
      · rw [tableAt_changeTable_of_ne e change fun heq => hplace heq.symm]
        exact hbinds

/-- An argument is bound while the invocation is still open. -/
theorem argument (he : e.TrueToNamings) (hfilling : e.Filling id) (name : String) (r : Ref) :
    (e.changeTable (·.insert name r) (.arguments id)).TrueToNamings := by
  refine he.of_tables (.changeTable e _ _) (e.frames_size_changeTable _ _) []
    (e.changeTable_namings _ _) (List.forall_mem_nil _) (fun other arguments hcalled => ?_)
    fun other _ _ _ _ _ hbinds => .inl ?_
  · refine tableAt_changeTable_of_ne e _ ?_
    rintro ⟨⟩
    exact hfilling.not_called arguments hcalled
  · have hne : Place.locals other ≠ .arguments id := nofun
    exact (binds_iff_of_tableAt (tableAt_changeTable_of_ne e _ hne)).2 hbinds

/-- A parameter of a lambda is bound, which has no receiver. -/
theorem parameter (he : e.TrueToNamings) (hfree : e.Receiverless id) (name : String) (r : Ref) :
    (e.changeTable (·.insert name r) (.locals id)).TrueToNamings := by
  refine he.of_tables (.changeTable e _ _) (e.frames_size_changeTable _ _) []
    (e.changeTable_namings _ _) (List.forall_mem_nil _) (fun other _ _ => ?_)
    fun other locals d hentered hself _ hbinds => .inl ?_
  · have hne : Place.arguments other ≠ .locals id := nofun
    exact tableAt_changeTable_of_ne e _ hne
  · refine (binds_iff_of_tableAt (tableAt_changeTable_of_ne e _ ?_)).2 hbinds
    rintro ⟨⟩
    simp [hfree locals hentered] at hself

/-- An invocation begins. -/
theorem invoke (he : e.TrueToNamings) {f : Frame} {g : Function}
    (hg : e.function? f.function = some g)
    (hself : ∀ r, f.locals.find? "self" = some r → g.definition.dict = true) :
    (e.invoke f).TrueToNamings := by
  have hruns := KeepsRunning.invoke e f
  have hnew : (e.invoke f).frame? ⟨e.frames.size⟩ = some f := by
    simp [frame?, Engine.invoke, Engine.note]
  have hsize : (e.invoke f).frames.size = e.frames.size + 1 := by
    simp [Engine.invoke, Engine.note]
  have hsame (p : Place) (hhas : e.Has (.bindings p)) :
      (e.invoke f).tableAt p = e.tableAt p := SameAt.invoke hhas f
  -- what was noted is about frames that were there
  have hexists {n : Naming} (hn : n ∈ e.namings) {id : FrameId} (hid : n.frame? = some id) :
      ∃ f, e.frame? id = some f := ⟨_, Array.getElem?_eq_getElem (he.frames n hn id hid)⟩
  refine ⟨fun id hid => ?_, fun n hn id hid => ?_, fun id arguments hcalled => ?_,
    fun id locals d hentered hd => ?_⟩
  · by_cases hid' : id.index < e.frames.size
    · obtain ⟨needsReceiver, hrunning⟩ := he.running id hid'
      exact ⟨needsReceiver, hruns.runs id _ hrunning⟩
    · obtain rfl : id = ⟨e.frames.size⟩ := by
        cases id
        simp only [hsize, FrameId.mk.injEq] at *
        omega
      exact ⟨_, f, g, hnew, hg, rfl⟩
  · rw [hsize]
    rcases List.mem_cons.1 hn with rfl | hin
    · cases hid
      exact Nat.lt_succ_self _
    · exact Nat.lt_succ_of_lt (he.frames n hin id hid)
  · rcases List.mem_cons.1 hcalled with heq | hin
    · cases heq
    · exact (hsame (.arguments id) (hexists hin rfl)).trans (he.arguments id arguments hin)
  · rcases List.mem_cons.1 hentered with heq | hin
    · cases heq
      refine ⟨⟨f, g, hnew, hg, hself d hd⟩, .inl ?_⟩
      simpa [Binds, tableAt, hnew] using hd
    · obtain ⟨hrunning, hbinds | ⟨n, hn, hloses⟩⟩ := he.receivers id locals d hin hd
      · refine ⟨hruns.runs id _ hrunning, .inl ((binds_iff_of_tableAt ?_).2 hbinds)⟩
        exact hsame (.locals id) (hexists hin rfl)
      · exact ⟨hruns.runs id _ hrunning, .inr ⟨n, List.mem_cons_of_mem _ hn, hloses.mono hruns⟩⟩

/-- All arguments are bound. -/
theorem called (he : e.TrueToNamings) (hid : id.index < e.frames.size) :
    (e.noteCall id).TrueToNamings := by
  have hruns : e.KeepsRunning (e.noteCall id) := .of_eq rfl rfl
  have hsame (p : Place) : (e.noteCall id).tableAt p = e.tableAt p := tableAt_note e _ p
  refine ⟨fun other hother => ?_, fun n hn other hother => ?_, fun other arguments hcalled => ?_,
    fun other locals d hentered hd => ?_⟩
  · obtain ⟨needsReceiver, hrunning⟩ := he.running other hother
    exact ⟨needsReceiver, hruns.runs other _ hrunning⟩
  · rcases List.mem_cons.1 hn with rfl | hin
    · cases hother
      exact hid
    · exact he.frames n hin other hother
  · rw [hsame]
    rcases List.mem_cons.1 hcalled with heq | hin
    · cases heq
      rfl
    · exact he.arguments other arguments hin
  · rcases List.mem_cons.1 hentered with heq | hin
    · cases heq
    · obtain ⟨hrunning, hbinds | ⟨n, hn, hloses⟩⟩ := he.receivers other locals d hin hd
      · exact ⟨hruns.runs other _ hrunning, .inl ((binds_iff_of_tableAt (hsame _)).2 hbinds)⟩
      · exact ⟨hruns.runs other _ hrunning,
          .inr ⟨n, List.mem_cons_of_mem _ hn, hloses.mono hruns⟩⟩

theorem catching (he : e.TrueToNamings) {err : ScriptError} {exception throwpoint : Ref} :
    (e.catching err exception throwpoint).TrueToNamings :=
  (he.note (n := .shown err) rfl).of_eq rfl rfl rfl

end TrueToNamings

/-- A frame that goes on to another one is there. -/
theorem lt_size_of_mem_chain {own : FrameId} (hin : id ∈ e.chain own) (hne : own ≠ id) :
    own.index < e.frames.size := by
  unfold chain chainFrom at hin
  rcases List.mem_cons.1 hin with heq | hrest
  · exact absurd heq.symm hne
  · by_contra hout
    simp [frame?, Array.getElem?_eq_none (Nat.le_of_not_lt hout)] at hrest

/-- Only a function that needs no receiver, and that was defined inside, binds the receiver of an
invocation anew. -/
theorem TrueToNamings.loses_bound (he : e.TrueToNamings) (hin : e.InScope c (.locals id))
    (hfree : e.inDictFunction c = false) (hrunning : e.Runs id true) :
    e.Loses id (.bound c ⟨.locals id, "self"⟩) := by
  obtain ⟨own, hown, hchain⟩ := hin
  have hne : own ≠ id := by
    rintro rfl
    rw [hrunning.inDictFunction_eq hown] at hfree
    cases hfree
  obtain ⟨needsReceiver, hruns⟩ := he.running own (lt_size_of_mem_chain hchain hne)
  obtain rfl : needsReceiver = false := (hruns.inDictFunction_eq hown).symm.trans hfree
  exact .assignment hown hne hchain hruns

end Engine

/-! ## Edits -/

@[reducible] def Demands.recording : Demands where
  strict := False
  named := False
  listed := False
  minded := True
  lettered := False
  sparing := False
  fits _ := True
  runs _ := True
  fresh _ := True

namespace Engine

variable {base : Table Ref} {e e' e'' : Engine} {id : FrameId} {c : Context} {r d : Ref}

theorem KeepsRunning.of_edit {d : Demands} (h : e.Edit d e') : e.KeepsRunning e' := by
  cases h with
  | bind p _ name r | unbind p _ name => exact (changeTable e _ p).trans (.of_eq rfl rfl)
  | argument | parameter => exact changeTable e _ _
  | invoke f => exact invoke e f
  | define f => exact define e f
  | declare table name f =>
    exact (define e f).trans (by cases table <;> exact .of_eq rfl rfl)
  | withdraw table name id =>
    exact (retire e id).trans (by cases table <;> exact .of_eq rfl rfl)
  | _ => exact .of_eq rfl rfl

theorem TrueToNamings.of_edit (he : e.TrueToNamings) (h : e.Edit .recording e') :
    e'.TrueToNamings := by
  have hruns : e.KeepsRunning e' := .of_edit h
  cases h with
  | bind p hp name r _ _ _ hin hself =>
    refine he.changeTable_note hp rfl (fun t other hne => t.find?_insert_of_ne hne r) ?_
    rintro id rfl rfl hrunning
    exact he.loses_bound hin (hself rfl rfl) hrunning
  | unbind p hp name _ _ _ hown =>
    refine he.changeTable_note hp rfl (fun t other hne => t.find?_erase_of_ne hne) ?_
    rintro id rfl rfl -
    exact .removal (hown id rfl)
  | argument id name r _ hfilling => exact he.argument (hfilling trivial) name r
  | parameter id name r _ _ _ hfree => exact he.parameter (hfree trivial) name r
  | invoke f _ hfound =>
    obtain ⟨g, hg, hself⟩ := hfound
    exact he.invoke hg hself
  | called id _ hfilling => exact he.called (hfilling trivial).lt_size
  | define => exact he.of_frames hruns rfl [] rfl (List.forall_mem_nil _)
  | declare table | withdraw table =>
    cases table <;> exact he.of_frames hruns rfl [] rfl (List.forall_mem_nil _)
  | _ => exact he.of_eq rfl rfl rfl

end Engine

/-! ## Scalars -/

/-- Numbers, Floats and Strings that are there keep their values, and nothing else becomes one. -/
structure Heap.KeepsScalars (h h' : Heap) : Prop where
  size : h.size ≤ h'.size
  values : ∀ r : Ref, r.index < h.size → (h.value r).isScalar = true → h'.value r = h.value r
  others : ∀ r : Ref, (h.value r).isScalar = false → (h'.value r).isScalar = false

namespace Heap.KeepsScalars

variable {h h' h'' : Heap}

theorem of_value_eq (hsize : h.size ≤ h'.size) (hvalues : ∀ r, h'.value r = h.value r) :
    h.KeepsScalars h' := ⟨hsize, fun r _ _ => hvalues r, fun r hr => (hvalues r).symm ▸ hr⟩

theorem refl (h : Heap) : h.KeepsScalars h := .of_value_eq (Nat.le_refl _) fun _ => rfl

theorem trans (hh : h.KeepsScalars h') (hh' : h'.KeepsScalars h'') : h.KeepsScalars h'' := by
  refine ⟨Nat.le_trans hh.size hh'.size, fun r hr hscalar => ?_,
    fun r hr => hh'.others r (hh.others r hr)⟩
  have hvalue := hh.values r hr hscalar
  rw [← hvalue] at hscalar ⊢
  exact hh'.values r (Nat.lt_of_lt_of_le hr hh.size) hscalar

theorem of_extends (hh : h.Extends h') : h.KeepsScalars h' := by
  refine ⟨hh.size, fun r hr _ => ?_, fun r hr => hh.value_eq hr ▸ hr⟩
  unfold Heap.value
  rw [hh.cell r hr]

theorem new (h : Heap) (v : Value) : h.KeepsScalars (h.new v).2 := of_extends (.new h v)

theorem overwrite {r : Ref} {v : Value} (hr : (h.value r).isScalar = false)
    (hv : v.isScalar = false) : h.KeepsScalars (h.setValue r v) := by
  refine ⟨Nat.le_of_eq (size_setValue h r v).symm, fun s _ hs => ?_, fun s hs => ?_⟩
  · have hne : s ≠ r := by
      rintro rfl
      simp [hr] at hs
    exact value_setValue_of_ne h v hne
  · rcases h.value_setValue r s v with hnew | hold
    · rw [hnew]
      exact hv
    · rw [hold]
      exact hs

/-- What may be written is no scalar. -/
theorem overwrite_of_permits {d : Demands} {e e' : Engine} (hh : e.heap.KeepsScalars e'.heap)
    {r : Ref} {v : Value} (hv : v.isCompound = true) (hpermits : e.Permits d e' r v) :
    e'.heap.KeepsScalars (e'.heap.setValue r v) := by
  refine overwrite ?_ (Value.isScalar_of_isCompound hv)
  cases hpermits with
  | unlocked _ hkind =>
    have hscalar := Value.isScalar_of_isCompound hv
    rcases hkind with hkind | hkind
    · exact hh.others r ((Value.isScalar_eq_of_kind_eq hkind).trans hscalar)
    · exact (Value.isScalar_eq_of_kind_eq hkind).trans hscalar
  | item _ _ _ hitems => rw [hitems]; rfl
  | entry _ _ _ hentries => rw [hentries]; rfl

theorem of_edit {d : Demands} {e e' : Engine} (hedit : e.Edit d e') :
    e.heap.KeepsScalars e'.heap :=
  .of_value_eq (Nat.le_of_eq hedit.size_value.1.symm) hedit.size_value.2

end Heap.KeepsScalars

namespace Engine

variable {base : Table Ref} {e e' e'' : Engine}

/-! ## Runs -/

/-- What a run leaves as it is, and what it goes on to note. -/
structure Records (e e' : Engine) : Prop where
  grows : e.Grows e'
  running : e.KeepsRunning e'
  namings : e.namings <:+ e'.namings
  vim : e'.vim = e.vim
  exceptions : e'.exceptions = e.exceptions
  scalars : e.heap.KeepsScalars e'.heap
  trueToNamings : e.TrueToNamings → e'.TrueToNamings

namespace Records

theorem of_heap (hgrows : e.Grows e') (hheap : e.heap.KeepsScalars e'.heap)
    (hframes : e'.frames = e.frames) (hfunctions : e'.functions = e.functions)
    (hnamings : e'.namings = e.namings) (hvim : e'.vim = e.vim) : e.Records e' where
  grows := hgrows
  running := .of_eq hframes hfunctions
  namings := hnamings ▸ List.suffix_rfl
  vim := hvim
  exceptions := congrArg Naming.showing hnamings
  scalars := hheap
  trueToNamings he := he.of_eq hframes hfunctions hnamings

theorem of_eq (hgrows : e.Grows e') (hheap : e'.heap = e.heap) (hframes : e'.frames = e.frames)
    (hfunctions : e'.functions = e.functions) (hnamings : e'.namings = e.namings)
    (hvim : e'.vim = e.vim) : e.Records e' :=
  of_heap hgrows (hheap ▸ .refl _) hframes hfunctions hnamings hvim

theorem trans (h : e.Records e') (h' : e'.Records e'') : e.Records e'' where
  grows := h.grows.trans h'.grows
  running := h.running.trans h'.running
  namings := h.namings.trans h'.namings
  vim := h'.vim.trans h.vim
  exceptions := h'.exceptions.trans h.exceptions
  scalars := h.scalars.trans h'.scalars
  trueToNamings he := h'.trueToNamings (h.trueToNamings he)

theorem of_edit (h : e.Edit .recording e') : e.Records e' where
  grows := h.grows
  running := .of_edit h
  namings := by
    cases h with
    | bind p | unbind p => cases p <;> exact List.suffix_cons _ _
    | invoke | called => exact List.suffix_cons _ _
    | declare table | withdraw table => cases table <;> exact List.suffix_rfl
    | _ => exact List.suffix_rfl
  vim := by
    cases h with
    | bind p hp | unbind p hp =>
      cases p with
      | vim => cases hp
      | _ => rfl
    | declare table | withdraw table => cases table <;> rfl
    | _ => rfl
  exceptions := by
    cases h with
    | bind p | unbind p => cases p <;> rfl
    | declare table | withdraw table => cases table <;> rfl
    | _ => rfl
  scalars := .of_edit h
  trueToNamings he := he.of_edit h

theorem enter (e : Engine) (entry : CallEntry) : e.Records (e.enter entry) := by
  cases entry <;> exact .of_eq (.of_eq rfl rfl rfl) rfl rfl rfl rfl rfl

theorem leave {entry : CallEntry} (h : (e.enter entry).Records e') : e.Records (e.leave e') :=
  (enter e entry).trans (h.trans (.of_eq (.of_eq rfl rfl rfl) rfl rfl rfl rfl rfl))

/-- After a catch block, the variables of the editor show what they showed before. -/
theorem restoreVim {err : ScriptError} {exception throwpoint : Ref}
    (h : (e.catching err exception throwpoint).Records e') : e.Records (e.restoreVim e') where
  grows := h.grows.restoreVim
  running := h.running.of_eqs rfl rfl rfl rfl
  namings := (List.suffix_cons _ _).trans (h.namings.trans (List.suffix_cons _ _))
  vim := rfl
  exceptions := congrArg List.tail h.exceptions
  scalars := h.scalars
  trueToNamings he := ((h.trueToNamings he.catching).note (n := .hidden) rfl).of_eq rfl rfl rfl

theorem leaveFinal {event : Event} (htry : (e.record event).Records e')
    (hfinal : e'.enterFinal.Records e'') (c : Context) (body : List Stmt) :
    e.Records (e'.leaveFinal c body e'') := by
  have hbegan : e.Records (e.record event) :=
    .of_eq (grows_record e event) rfl rfl rfl rfl rfl
  have hended : e'.Records (e'.leaveFinal c body e'') :=
    { grows := hfinal.grows.leaveFinal c body
      running := hfinal.running.of_eqs rfl rfl rfl rfl
      namings := hfinal.namings
      vim := hfinal.vim
      exceptions := hfinal.exceptions
      scalars := hfinal.scalars
      trueToNamings := fun he => (hfinal.trueToNamings (he.of_eq rfl rfl rfl)).of_eq rfl rfl rfl }
  exact hbegan.trans (htry.trans hended)

end Records

/-! ## What the variables of the editor show -/

/-- The variables of the editor are as they were in the beginning, but for two of them, which show
the exception that the innermost catch block has caught, if one is running. -/
structure Shows (base : Table Ref) (e : Engine) : Prop where
  others : ∀ name, name ≠ "exception" → name ≠ "throwpoint" →
    e.vim.find? name = base.find? name
  silent : e.exceptions = [] → e.vim = base
  shown : ∀ err outer, e.exceptions = err :: outer → ∃ exception throwpoint,
    e.vim.find? "exception" = some exception ∧ e.vim.find? "throwpoint" = some throwpoint ∧
      e.Tells err exception throwpoint

theorem Tells.of_records {err : ScriptError} {exception throwpoint : Ref}
    (h : e.Tells err exception throwpoint) (hrecords : e.heap.KeepsScalars e'.heap) :
    e'.Tells err exception throwpoint where
  exception_text := by
    rw [hrecords.values _ h.exception_lt (by rw [h.exception_text]; rfl)]
    exact h.exception_text
  throwpoint_text := by
    rw [hrecords.values _ h.throwpoint_lt (by rw [h.throwpoint_text]; rfl)]
    exact h.throwpoint_text
  exception_lt := Nat.lt_of_lt_of_le h.exception_lt hrecords.size
  throwpoint_lt := Nat.lt_of_lt_of_le h.throwpoint_lt hrecords.size

namespace Shows

theorem of_silent (hvim : e.vim = base) (hsilent : e.exceptions = []) : e.Shows base where
  others name _ _ := congrArg (·.find? name) hvim
  silent _ := hvim
  shown err outer hshown := by
    rw [hsilent] at hshown
    cases hshown

theorem of_eq (h : e.Shows base) (hvim : e'.vim = e.vim)
    (hexceptions : e'.exceptions = e.exceptions) (hscalars : e.heap.KeepsScalars e'.heap) :
    e'.Shows base where
  others name hexception hthrowpoint := hvim ▸ h.others name hexception hthrowpoint
  silent hsilent := hvim.trans (h.silent (hexceptions ▸ hsilent))
  shown err outer hshown := by
    obtain ⟨exception, throwpoint, hexception, hthrowpoint, htells⟩ :=
      h.shown err outer (hexceptions ▸ hshown)
    rw [hvim]
    exact ⟨exception, throwpoint, hexception, hthrowpoint, htells.of_records hscalars⟩

theorem catching (h : e.Shows base) {err : ScriptError} {exception throwpoint : Ref}
    (htells : e.Tells err exception throwpoint) :
    (e.catching err exception throwpoint).Shows base where
  others name hexception hthrowpoint := by
    have hvim : (e.catching err exception throwpoint).vim.find? name = e.vim.find? name :=
      (Table.find?_insert_of_ne hthrowpoint _ _).trans (Table.find?_insert_of_ne hexception _ _)
    exact hvim.trans (h.others name hexception hthrowpoint)
  silent hsilent := nomatch hsilent
  shown other outer hshown := by
    cases hshown
    refine ⟨exception, throwpoint, ?_, Table.find?_insert_self _ _ _, ?_⟩
    · exact (Table.find?_insert_of_ne (by decide) _ _).trans (Table.find?_insert_self _ _ _)
    · exact ⟨htells.exception_text, htells.throwpoint_text, htells.exception_lt,
        htells.throwpoint_lt⟩

/-- No variable of the editor comes or goes. -/
theorem contains_eq (h : e.Shows base) (hexception : base.contains "exception" = true)
    (hthrowpoint : base.contains "throwpoint" = true) (name : String) :
    e.vim.contains name = base.contains name := by
  cases hshown : e.exceptions with
  | nil => rw [h.silent hshown]
  | cons err outer =>
    obtain ⟨_, _, hfirst, hsecond, -⟩ := h.shown err outer hshown
    by_cases hname : name = "exception"
    · rw [hname, hexception]
      simp [Table.contains, hfirst]
    by_cases hname' : name = "throwpoint"
    · rw [hname', hthrowpoint]
      simp [Table.contains, hsecond]
    · unfold Table.contains
      rw [h.others name hname hname']

end Shows

end Engine

/-! ## The discipline -/

namespace Discipline

open Engine

/-- Runs that go on from these namings, where the variables of the editor began as this table. -/
def recording (host : Host) (base : Table Ref) (past : List Naming) : Discipline host where
  toDemands := .recording
  placed := False
  linear := False
  holds e := e.TrueToNamings ∧ e.Shows base ∧ past <:+ e.namings
  leads := Records
  admits stop := stop ≠ .alarm
  sound _ := False.elim
  wellFormed _ := False.elim
  function _ _ := trivial
  unnamed _ := False.elim
  unentered he _ n hn hid := Nat.lt_irrefl _ (he.1.frames n hn _ hid)
  newFrame _ := trivial
  registry _ := False.elim
  refl e := .of_eq (.refl e) rfl rfl rfl rfl rfl
  trans h h' := h.trans h'
  holds_of_leads he h :=
    ⟨h.trueToNamings he.1, he.2.1.of_eq h.vim h.exceptions h.scalars, he.2.2.trans h.namings⟩
  grows h := h.grows
  affords _ := False.elim
  edit _ h := .of_edit h
  create _ h _ _ := h.trans (.of_heap (.of_eq rfl rfl rfl) (.new _ _) rfl rfl rfl rfl)
  write _ h hv hpermits _ :=
    { grows := h.grows.trans (.of_eq rfl rfl rfl)
      running := h.running.of_eqs rfl rfl rfl rfl
      namings := h.namings
      vim := h.vim
      exceptions := h.exceptions
      scalars := h.scalars.trans (h.scalars.overwrite_of_permits hv hpermits)
      trueToNamings := fun he => (h.trueToNamings he).of_eq rfl rfl rfl }
  began _ _ _ _ := .of_eq (Engine.grows_record _ _) rfl rfl rfl rfl rfl
  cancelled _ := .of_eq (Engine.grows_requestCancel _) rfl rfl rfl rfl rfl
  holds_catching he htells :=
    ⟨he.1.catching, he.2.1.catching htells, he.2.2.trans (List.suffix_cons _ _)⟩
  caught _ h := h.restoreVim
  holds_enterFinal he := ⟨he.1.of_eq rfl rfl rfl, he.2.1.of_eq rfl rfl (.refl _), he.2.2⟩
  final _ _ htry hfinal := htry.leaveFinal hfinal _ _
  admits_error _ _ := Stop.error_ne_alarm _
  admits_mark h := Stop.mark_ne_alarm h
  admits_finished := Stop.finished_ne_alarm
  admits_internal hf _ := Stop.internal_ne_alarm hf

theorem opens_recording (host : Host) (base : Table Ref) (past : List Naming) (entry : CallEntry) :
    (recording host base past).Opens (recording host base past) entry :=
  .same (fun he => (recording host base past).holds_of_leads he (.enter _ entry)) fun h => h.leave

theorem uniform_recording (host : Host) (base : Table Ref) (past : List Naming) :
    (recording host base past).Uniform .any :=
  uniform_any id id (fun _ => trivial) (fun _ => trivial) (opens_recording host base past)
    Stop.exhausted_ne_alarm (fun _ => Stop.error_ne_alarm _) id id fun _ =>
      Interp.leavesFilling_watching host

end Discipline

end VimL
