import VimL.Invocation
import VimL.Proofs.Additions
import VimL.Proofs.Places

/-!
# What the namings tell

Whatever is done to variables is noted, so that something can be said of a state that depends on
the way to it: which exceptions are being shown, whose arguments are all bound, and by whom a
variable was bound or taken away.
-/

namespace VimL

namespace Naming

/-- The invocation that this is about. -/
def frame? : Naming → Option FrameId
  | .entered id _ | .called id _ => some id
  | _ => none

/-- The exceptions that are being shown, the innermost first. -/
def showing : List Naming → List ScriptError
  | [] => []
  | .shown err :: rest => err :: showing rest
  | .hidden :: rest => (showing rest).tail
  | _ :: rest => showing rest

end Naming

namespace Engine

/-- The exceptions whose catch blocks are running, the innermost first. -/
def exceptions (e : Engine) : List ScriptError := Naming.showing e.namings

/-- The objects hold the texts of the exception. -/
structure Tells (e : Engine) (err : ScriptError) (exception throwpoint : Ref) : Prop where
  exception_text : e.heap.value exception = .string err.exceptionText
  throwpoint_text : e.heap.value throwpoint = .string err.throwpoint
  exception_lt : exception.index < e.heap.size
  throwpoint_lt : throwpoint.index < e.heap.size

/-- Two new objects, one after the other. -/
theorem tells_new (e : Engine) (err : ScriptError) :
    let e₁ := e.withHeap (e.heap.new (.string err.exceptionText)).2
    (e₁.withHeap (e₁.heap.new (.string err.throwpoint)).2).Tells err
      (e.heap.new (.string err.exceptionText)).1 (e₁.heap.new (.string err.throwpoint)).1 := by
  let h₁ := (e.heap.new (.string err.exceptionText)).2
  have hlt : (e.heap.new (.string err.exceptionText)).1.index < h₁.size := by
    simp [h₁, Heap.new, Heap.size]
  have hne : (e.heap.new (.string err.exceptionText)).1 ≠ (h₁.new (.string err.throwpoint)).1 := by
    intro heq
    rw [heq] at hlt
    exact Nat.lt_irrefl _ hlt
  refine ⟨?_, h₁.value_new_self _, ?_, ?_⟩
  · exact (h₁.value_new_of_ne _ hne).trans (e.heap.value_new_self _)
  · exact Nat.lt_of_lt_of_le hlt (Nat.le_of_lt (by simp [withHeap, h₁]))
  · simp [withHeap, Heap.new, Heap.size]

/-! ## Frames -/

/-- No invocation has had this frame. -/
def Unentered (e : Engine) (id : FrameId) : Prop := ∀ n ∈ e.namings, n.frame? ≠ some id

/-- The frame is that of an invocation whose arguments are not all bound yet. -/
structure Filling (e : Engine) (id : FrameId) : Prop where
  lt_size : id.index < e.frames.size
  not_called : ∀ arguments, .called id arguments ∉ e.namings

/-- The invocation has begun without a receiver. -/
def Receiverless (e : Engine) (id : FrameId) : Prop :=
  ∀ locals, .entered id locals ∈ e.namings → locals.find? "self" = none

variable {e e' : Engine} {id : FrameId}

theorem Filling.of_eq (h : e.Filling id) (hframes : e'.frames.size = e.frames.size)
    (hnamings : e'.namings = e.namings) : e'.Filling id :=
  ⟨hframes ▸ h.lt_size, hnamings ▸ h.not_called⟩

/-- Nothing but the end of the same binding of arguments is the end of it. -/
theorem Filling.note (h : e.Filling id) {n : Naming}
    (hn : ∀ arguments, n ≠ .called id arguments) : (e.note n).Filling id := by
  refine ⟨h.lt_size, fun arguments hin => ?_⟩
  rcases List.mem_cons.1 hin with heq | hold
  · exact hn arguments heq.symm
  · exact h.not_called arguments hold

theorem Filling.catching (h : e.Filling id) {err : ScriptError} {exception throwpoint : Ref} :
    (e.catching err exception throwpoint).Filling id :=
  (h.note (n := .shown err) nofun).of_eq rfl rfl

theorem Receiverless.of_eq (h : e.Receiverless id) (hnamings : e'.namings = e.namings) :
    e'.Receiverless id := by
  intro locals hin
  exact h locals (hnamings ▸ hin)

/-- A new frame is to be filled. -/
theorem Unentered.filling (h : e.Unentered ⟨e.frames.size⟩) (f : Frame) :
    (e.invoke f).Filling ⟨e.frames.size⟩ := by
  have hpush : { e with frames := e.frames.push f }.Filling ⟨e.frames.size⟩ :=
    ⟨by simp, fun arguments hin => h _ hin rfl⟩
  exact hpush.note nofun

theorem Unentered.receiverless (h : e.Unentered ⟨e.frames.size⟩) {f : Frame}
    (hf : f.locals.find? "self" = none) : (e.invoke f).Receiverless ⟨e.frames.size⟩ := by
  intro locals hin
  rcases List.mem_cons.1 hin with heq | hold
  · cases heq
    exact hf
  · exact absurd rfl (h _ hold)

/-! ## Tables -/

@[simp] theorem tableAt_note (e : Engine) (n : Naming) (p : Place) :
    (e.note n).tableAt p = e.tableAt p := by cases p <;> rfl

theorem changeTable_namings (e : Engine) (change : Table Ref → Table Ref) (p : Place) :
    (e.changeTable change p).namings = e.namings := by cases p <;> rfl

theorem frames_size_changeTable (e : Engine) (change : Table Ref → Table Ref) (p : Place) :
    (e.changeTable change p).frames.size = e.frames.size := by
  cases p <;> simp [changeTable]

end Engine

/-! ## Runs that leave invocations open -/

namespace Run

/-- Where the arguments of an invocation are still to be bound, they are so after the run. -/
class LeavesFilling {α : Type} (m : Run α) : Prop where
  filling : ∀ {e a e' id}, m e = .ok a e' → e.Filling id → e'.Filling id

variable {α β : Type}

instance {m : Run α} [hm : LeavesFilling m] {f : α → Run β} [hf : ∀ a, LeavesFilling (f a)] :
    LeavesFilling (m >>= f) := by
  refine ⟨fun {e b e''} id h he => ?_⟩
  obtain ⟨a, e', hfirst, hrest⟩ := of_bind_ok h
  exact (hf a).filling hrest (hm.filling hfirst he)

instance (a : α) : LeavesFilling (pure a : Run α) := by
  refine ⟨fun h he => ?_⟩
  cases h
  exact he

theorem leavesFilling_modifyGet {change : Engine → α × Engine}
    (hframes : ∀ e, (change e).2.frames.size = e.frames.size)
    (hnamings : ∀ e, (change e).2.namings = e.namings) :
    LeavesFilling (modifyGet change : Run α) := by
  refine ⟨fun {e} _ _ _ h he => ?_⟩
  cases h
  exact he.of_eq (hframes e) (hnamings e)

instance (v : Value) : LeavesFilling (new v) := leavesFilling_modifyGet (fun _ => rfl) fun _ => rfl

instance (n : Int) : LeavesFilling (newInt n) := by
  unfold newInt
  infer_instance

instance (r : Ref) : LeavesFilling (stored r) := leavesFilling_modifyGet (fun _ => rfl) fun _ => rfl

instance (rs : List Ref) : LeavesFilling (storedAll rs) := by
  induction rs with
  | nil => unfold storedAll; infer_instance
  | cons r rest ih => unfold storedAll; infer_instance

instance (change : Table Ref → Table Ref) (p : Place) :
    LeavesFilling (modify (·.changeTable change p) : Run Unit) :=
  leavesFilling_modifyGet (fun e => e.frames_size_changeTable change p)
    fun e => e.changeTable_namings change p

instance (frame : FrameId) (name : String) (r : Ref) :
    LeavesFilling (bindArgument frame name r) := by
  unfold bindArgument
  infer_instance

end Run

end VimL
