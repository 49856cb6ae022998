import VimL.Proofs.Discipline
import VimL.Proofs.Outcome

/-!
# Runs that keep to a discipline

A run keeps to a discipline if it leads from any engine to one that the discipline allows, and if
it only stops as the discipline admits. Runs that are put together from such runs keep to the
discipline as well, which instances find by themselves. A run that follows a check is judged since
the engine of the check.
-/

namespace VimL

variable {host : Host} (D : Discipline host)

/-- An error that nothing is known about but its cause, which is no stray break, continue or
return, and no text that a script throws. -/
class Cause.Regular (cause : Cause) : Prop where
  stray : cause.isStray = false
  thrown : cause.isThrown = false

/-- This is for instances to find: whether a cause is stray or thrown can be read off. -/
class IsFalse (b : Bool) : Prop where
  eq : b = false

instance : IsFalse false := ⟨rfl⟩

instance (cause : Cause) [hstray : IsFalse cause.isStray] [hthrown : IsFalse cause.isThrown] :
    cause.Regular := ⟨hstray.eq, hthrown.eq⟩

/-- Variables are bound in this context. -/
class Discipline.Runs (c : Context) : Prop where
  runs : D.runs c

/-- Arguments are bound in this frame. -/
class Discipline.Fresh (frame : FrameId) : Prop where
  fresh : D.fresh frame

/-- A value that is no reference to a function, and that has no parts. -/
class Value.Bare (v : Value) : Prop where
  ne : ∀ f, v ≠ .funcref f
  parts : v.parts = []

/-- A List, a Dictionary or a Blob. -/
class Value.Compound (v : Value) : Prop where
  eq : v.isCompound = true

instance (items : List Ref) : Value.Compound (.list items) := ⟨rfl⟩

instance (entries : Table Ref) : Value.Compound (.dictionary entries) := ⟨rfl⟩

instance (bytes : List UInt8) : Value.Compound (.blob bytes) := ⟨rfl⟩

/-- A List or a Blob. -/
class Value.Sequence (v : Value) : Prop where
  eq : v.isCompound = true
  ne : ∀ entries, v ≠ .dictionary entries

instance (items : List Ref) : Value.Sequence (.list items) := ⟨rfl, nofun⟩

instance (bytes : List UInt8) : Value.Sequence (.blob bytes) := ⟨rfl, nofun⟩

/-- This is for instances to find: a value may be written over one of the same kind. -/
class Value.Replaces (v w : Value) : Prop where
  kind : w.kind = v.kind

instance (items items' : List Ref) : Value.Replaces (.list items') (.list items) := ⟨rfl⟩

instance (bytes bytes' : List UInt8) : Value.Replaces (.blob bytes') (.blob bytes) := ⟨rfl⟩

namespace Engine.Permits

variable {d : Demands} {e e' : Engine} {r : Ref}

section Sequence

variable {v w : Value} [hw : w.Sequence] [hv : v.Replaces w]

/-- What is to be overwritten was seen when it was checked. -/
theorem of_checked (h : e.heap.isLocked r = false) (hvalue : e.heap.value r = w) :
    e.Permits d e' r v := by
  refine .unlocked h (.inl (hvalue ▸ hv.kind)) fun _ => ?_
  intro entries _ _ _ hentries
  exact absurd (hvalue.symm.trans hentries) (hw.ne entries)

/-- What is to be overwritten is seen when it is overwritten. -/
theorem of_written (h : e.heap.isLocked r = false) (hvalue : e'.heap.value r = w) :
    e.Permits d e' r v := by
  refine .unlocked h (.inr (hvalue ▸ hv.kind)) fun _ => ?_
  intro _ entries' _ _ _ _ _ hentries'
  exact absurd (hvalue.symm.trans hentries') (hw.ne entries')

end Sequence

variable {entries entries' : Table Ref} {key : String}

/-- A Dictionary that was not locked takes in an entry where none was locked, or where the same
object was. -/
theorem insert (h : e.heap.isLocked r = false) (hentries' : e'.heap.value r = .dictionary entries')
    {new : Ref} (hspares : d.sparing → ∀ entries item, e.heap.value r = .dictionary entries →
      entries.find? key = some item → e.heap.isLocked item = true →
      entries'.find? key = some item → new = item) :
    e.Permits d e' r (.dictionary (entries'.insert key new)) := by
  refine .unlocked h (.inr (hentries' ▸ rfl)) fun hsparing => ?_
  intro entries seen other item hentries hother hlocked hseen hstill
  obtain rfl := Value.dictionary.inj (hentries'.symm.trans hseen)
  refine ⟨_, rfl, ?_⟩
  by_cases heq : other = key
  · subst heq
    rw [Table.find?_insert_self, hspares hsparing entries item hentries hother hlocked hstill]
  · rwa [Table.find?_insert_of_ne heq]

theorem insert_of_free (h : e.heap.isLocked r = false)
    (hentries' : e'.heap.value r = .dictionary entries')
    (hfree : ∀ entries item, e.heap.value r = .dictionary entries →
      entries.find? key = some item → e.heap.isLocked item = false) (new : Ref) :
    e.Permits d e' r (.dictionary (entries'.insert key new)) := by
  refine .insert h hentries' fun _ entries item hentries hkey hlocked _ => ?_
  rw [hfree entries item hentries hkey] at hlocked
  cases hlocked

/-- A Dictionary that is not locked may lose an entry that is not locked. -/
theorem erase (h : e.heap.isLocked r = false) (hentries : e.heap.value r = .dictionary entries)
    {current : Ref} (hkey : entries.find? key = some current)
    (hcurrent : e.heap.isLocked current = false) :
    e.Permits d e r (.dictionary (entries.erase key)) := by
  refine .unlocked h (.inl (hentries ▸ rfl)) fun _ => ?_
  intro seen seen' other item hseen hother hlocked _ _
  obtain rfl := Value.dictionary.inj (hentries.symm.trans hseen)
  refine ⟨_, rfl, ?_⟩
  rwa [Table.find?_erase_of_ne]
  rintro rfl
  obtain rfl := Option.some.inj (hkey.symm.trans hother)
  rw [hcurrent] at hlocked
  cases hlocked

end Engine.Permits

/-- The objects that are named by a result. -/
class HasRefs (α : Type) where
  refs : α → List Ref

instance : HasRefs Ref := ⟨fun r => [r]⟩

instance : HasRefs (List Ref) := ⟨id⟩

instance : HasRefs (Table Ref) := ⟨Table.values⟩

instance : HasRefs (List (String × Ref)) := ⟨List.map (·.2)⟩

/-- A computation without an engine stops with nothing else. -/
class Except.Admitted {α : Type} (x : Except Stop α) : Prop where
  stop : ∀ stop, x = .error stop → D.admits stop

namespace Run

/-- From this engine, the run ends in such an engine, and it returns what is promised or stops with
what is admitted. -/
def Reaches {α : Type} (admits : Stop → Prop) (e : Engine) (m : Run α) (reach : Engine → Prop)
    (post : α → Engine → Prop) : Prop :=
  match m e with
  | .ok a e' => reach e' ∧ post a e'
  | .error stop e' => reach e' ∧ admits stop

/-- A run that goes on in `e'` leads on from `e`. -/
def Since {α : Type} (e e' : Engine) (m : Run α) (post : α → Engine → Prop) : Prop :=
  D.holds e → D.leads e e' → Reaches D.admits e' m (D.leads e) post

/-- From this engine, the run leads on. -/
abbrev Allows {α : Type} (e : Engine) (m : Run α) (post : α → Engine → Prop) : Prop :=
  Since D e e m post

class Keeps {α : Type} (m : Run α) : Prop where
  allows : ∀ e, Allows D e m fun _ _ => True

/-- The run only looks at the engine. -/
class Reads {α : Type} (m : Run α) : Prop where
  allows : ∀ e, Allows D e m fun _ e' => e' = e

/-- What the run returns may become parts of one value: since it began, there is room for it. -/
class Gathers {α : Type} [HasRefs α] (m : Run α) : Prop where
  allows : ∀ e, Allows D e m fun a e' => D.linear → e.Affords e' (HasRefs.refs a)

variable {D} {α β : Type} {e e' : Engine} {m : Run α} {f : α → Run β}
  {post : α → Engine → Prop} {goal : β → Engine → Prop}

namespace Reaches

variable {admits admits' : Stop → Prop} {reach reach' : Engine → Prop} {post' : α → Engine → Prop}

theorem weaken (h : Reaches admits e m reach post) (hadmits : ∀ stop, admits stop → admits' stop)
    (hreach : ∀ e', reach e' → reach' e')
    (hpost : ∀ a e', reach e' → post a e' → post' a e') : Reaches admits' e m reach' post' := by
  unfold Reaches at *
  cases hrun : m e with
  | ok a e' =>
    simp only [hrun] at h ⊢
    exact ⟨hreach e' h.1, hpost a e' h.1 h.2⟩
  | error stop e' =>
    simp only [hrun] at h ⊢
    exact ⟨hreach e' h.1, hadmits stop h.2⟩

theorem mono (h : Reaches admits e m reach post) (hreach : ∀ e', reach e' → reach' e')
    (hpost : ∀ a e', reach e' → post a e' → post' a e') : Reaches admits e m reach' post' :=
  h.weaken (fun _ hstop => hstop) hreach hpost

theorem reach_of_ends {ended : Except Stop α} (h : Reaches admits e m reach post)
    (hm : m.Ends e ended e') : reach e' := by
  unfold Reaches at h
  cases ended with
  | ok a =>
    rw [ends_ok_iff.1 hm] at h
    exact h.1
  | error stop =>
    rw [ends_error_iff.1 hm] at h
    exact h.1

theorem admits_of_ends {stop : Stop} (h : Reaches admits e m reach post)
    (hm : m.Ends e (.error stop) e') : admits stop := by
  unfold Reaches at h
  rw [ends_error_iff.1 hm] at h
  exact h.2

theorem bind (hm : Reaches admits e m reach post) (hreach : ∀ e', reach e' → reach' e')
    (hf : ∀ a e', reach e' → post a e' → Reaches admits e' (f a) reach' goal) :
    Reaches admits e (m >>= f) reach' goal := by
  unfold Reaches at hm
  cases hrun : m e with
  | error stop e₁ =>
    simp only [hrun] at hm
    have heq : (m >>= f) e = .error stop e₁ := by simp only [Bind.bind, EStateM.bind, hrun]
    simpa only [Reaches, heq] using ⟨hreach e₁ hm.1, hm.2⟩
  | ok a e₁ =>
    simp only [hrun] at hm
    have heq : (m >>= f) e = f a e₁ := by simp only [Bind.bind, EStateM.bind, hrun]
    simpa only [Reaches, heq] using hf a e₁ hm.1 hm.2

theorem pure {a : α} (hreach : reach e) (h : post a e) :
    Reaches admits e (pure a) reach post := ⟨hreach, h⟩

theorem settle {x : Except Stop α} (hreach : reach e) (hok : ∀ a, x = .ok a → post a e)
    (herror : ∀ stop, x = .error stop → admits stop) :
    Reaches admits e (settle x) reach post := by
  cases x with
  | ok a => exact ⟨hreach, hok a rfl⟩
  | error stop => exact ⟨hreach, herror stop rfl⟩

/-- A run between a change of the engine and one that takes it back. -/
theorem bracket {run : Run α} {start : Engine} {back : Engine → Engine}
    (hrun : run e = afterwards m back start) (hm : Reaches admits start m reach post)
    (hadmits : ∀ stop, admits stop → admits' stop) (hback : ∀ e', reach e' → reach' (back e'))
    (hpost : ∀ a e', post a e' → post' a (back e')) :
    Reaches admits' e run reach' post' := by
  unfold Reaches at *
  rw [hrun]
  simp only [afterwards]
  cases h : m start with
  | ok a e' =>
    simp only [h] at hm ⊢
    exact ⟨hback e' hm.1, hpost a e' hm.2⟩
  | error stop e' =>
    simp only [h] at hm ⊢
    exact ⟨hback e' hm.1, hadmits stop hm.2⟩

end Reaches

/-! ## Going on after a check -/

namespace Since

theorem mono {post' : α → Engine → Prop} (h : Since D e e' m post)
    (hpost : ∀ a e'', D.leads e e'' → post a e'' → post' a e'') : Since D e e' m post' :=
  fun he hleads => (h he hleads).mono (fun _ hreach => hreach) hpost

theorem bind (hm : Since D e e' m post)
    (hf : ∀ a e'', D.leads e e'' → post a e'' → Since D e e'' (f a) goal) :
    Since D e e' (m >>= f) goal := by
  intro he hleads
  exact (hm he hleads).bind (fun _ h => h) fun a e'' h ha => hf a e'' h ha he h

/-- What leads on from an engine leads on from the engines before it. -/
theorem of_allows (h : Allows D e' m post) : Since D e e' m post := by
  intro he hleads
  refine (h (D.holds_of_leads he hleads) (D.refl e')).mono (fun _ h' => ?_) fun _ _ _ h' => h'
  exact D.trans hleads h'

theorem of_holds (h : D.holds e → D.leads e e' → Since D e e' m post) : Since D e e' m post :=
  fun he hleads => h he hleads he hleads

theorem keeps [hm : Keeps D m] : Since D e e' m fun _ _ => True := of_allows (hm.allows e')

/-- After a run that only keeps to the discipline, nothing else is known. -/
theorem keeps_bind [Keeps D m] (hf : ∀ a e'', D.leads e e'' → Since D e e'' (f a) goal) :
    Since D e e' (m >>= f) goal :=
  keeps.bind fun a e'' h _ => hf a e'' h

theorem pure {a : α} (h : post a e') : Since D e e' (pure a) post := fun _ hleads => ⟨hleads, h⟩

theorem pure_bind {a : α} (h : Since D e e' (f a) goal) : Since D e e' (Pure.pure a >>= f) goal := h

theorem get_bind {f : Engine → Run β} (h : Since D e e' (f e') goal) :
    Since D e e' (get >>= f) goal := h

theorem value_bind {r : Ref} {f : Value → Run β} (h : Since D e e' (f (e'.heap.value r)) goal) :
    Since D e e' (value r >>= f) goal := h

theorem isInterrupted_bind {f : Bool → Run β} (h : Since D e e' (f e'.interrupted) goal) :
    Since D e e' (isInterrupted >>= f) goal := h

theorem throw {stop : Stop} (h : D.admits stop) : Since D e e' (throw stop) post :=
  fun _ hleads => ⟨hleads, h⟩

theorem settle_bind {x : Except Stop α} [hx : Except.Admitted D x]
    (h : ∀ a, x = .ok a → Since D e e' (f a) goal) : Since D e e' (settle x >>= f) goal := by
  cases x with
  | ok a => exact h a rfl
  | error stop => exact fun _ hleads => ⟨hleads, hx.stop stop rfl⟩

theorem throw_bind {stop : Stop} (h : D.admits stop) :
    Since D e e' (MonadExcept.throw stop >>= f) goal := fun _ hleads => ⟨hleads, h⟩

theorem raise {cause : Cause} [hc : cause.Regular] : Since D e e' (raise cause) post :=
  throw (D.admits_error (fun _ => hc.stray) hc.thrown)

theorem raise_bind {cause : Cause} [hc : cause.Regular] :
    Since D e e' (Run.raise cause >>= f) goal :=
  throw_bind (D.admits_error (fun _ => hc.stray) hc.thrown)

/-- A new value takes the room that was made for its parts. -/
theorem new {v : Value} (hv : D.strict → ∀ f, v = .funcref f → f.handler.Known host e')
    (hparts : D.linear → e.Affords e' v.parts) :
    Since D e e' (new v) fun r e'' => D.linear → e.Affords e'' [r] := by
  exact fun he hleads =>
    ⟨D.create he hleads hv hparts, fun hlinear => .new_of_parts (hparts hlinear)⟩

theorem newList {items : List Ref} (hparts : D.linear → e.Affords e' items) :
    Since D e e' (Run.new (.list items)) fun r e'' => D.linear → e.Affords e'' [r] :=
  new (fun _ _ h => Value.noConfusion h) hparts

section Write

variable {r : Ref} {v : Value} [hv : v.Compound] (h : e.Permits D.toDemands e' r v)

include h

/-- A value is written because a check allowed it, and because there is room for what it adds. -/
theorem write {added : List Ref} (hadded : D.linear → e.Affords e' added)
    (hparts : ∀ s, v.parts.count s ≤ (e'.heap.value r).parts.count s + added.count s) :
    Since D e e' (setValue r v) fun _ e'' => e'' = e'.withHeap (e'.heap.setValue r v) :=
  fun he hleads => ⟨D.write he hleads hv.eq h fun hlinear => ⟨added, hadded hlinear, hparts⟩, rfl⟩

theorem setValue {added : List Ref} (hadded : D.linear → e.Affords e' added)
    (hparts : ∀ s, v.parts.count s ≤ (e'.heap.value r).parts.count s + added.count s) :
    Since D e e' (setValue r v) fun _ _ => True :=
  (write h hadded hparts).mono fun _ _ _ _ => trivial

/-- What has no new parts needs no room. -/
theorem setValue_within (hparts : ∀ s, v.parts.count s ≤ (e'.heap.value r).parts.count s) :
    Since D e e' (Run.setValue r v) fun _ _ => True :=
  .of_holds fun _ hleads => setValue h (fun hlinear => D.affords hleads hlinear) hparts

end Write

theorem setBlob {r : Ref} {bytes : List UInt8}
    (h : e.Permits D.toDemands e' r (.blob bytes)) :
    Since D e e' (Run.setValue r (.blob bytes)) fun _ _ => True :=
  setValue_within h fun _ => Nat.zero_le _

end Since

/-! ## Going on from an engine -/

namespace Allows

theorem bind (hm : Allows D e m post)
    (hf : ∀ a e', D.leads e e' → post a e' → Allows D e' (f a) goal) :
    Allows D e (m >>= f) goal :=
  Since.bind hm fun a e' h ha => .of_allows (hf a e' h ha)

theorem keeps_bind [Keeps D m] (hf : ∀ a e', D.leads e e' → Allows D e' (f a) goal) :
    Allows D e (m >>= f) goal :=
  Since.keeps_bind fun a e' h => .of_allows (hf a e' h)

theorem edit {a : α} {run : Run α} (hrun : run e = .ok a e')
    (h : e.Edit D.toDemands e') (ha : post a e') : Allows D e run post := by
  intro he _
  unfold Reaches
  rw [hrun]
  exact ⟨D.edit he h, ha⟩

/-- The end of a run is handed on, and a failure that is thrown again was admitted before. -/
theorem outcome (hm : Allows D e m post) : Allows D e (outcome m) fun ended e' =>
    (∀ a, ended = .ok a → post a e') ∧ ∀ stop, ended = .error stop → D.admits stop := by
  intro he hleads
  have hrun := hm he hleads
  unfold Reaches at *
  simp only [Run.outcome]
  cases h : m e with
  | ok a e' =>
    simp only [h] at hrun ⊢
    refine ⟨hrun.1, ?_, ?_⟩
    · rintro b ⟨⟩
      exact hrun.2
    · rintro stop ⟨⟩
  | error stop e' =>
    simp only [h] at hrun ⊢
    refine ⟨hrun.1, ?_, ?_⟩
    · rintro a ⟨⟩
    · rintro other ⟨⟩
      exact hrun.2

theorem outcome_bind {f : Except Stop α → Run β} (hm : Allows D e m post)
    (hok : ∀ a e', D.leads e e' → post a e' → Allows D e' (f (.ok a)) goal)
    (herror : ∀ stop e', D.leads e e' → D.admits stop → Allows D e' (f (.error stop)) goal) :
    Allows D e (Run.outcome m >>= f) goal := by
  refine bind hm.outcome fun ended e' hleads hended => ?_
  cases ended with
  | ok a => exact hok a e' hleads (hended.1 a rfl)
  | error stop => exact herror stop e' hleads (hended.2 stop rfl)

end Allows

/-! ## Instances -/

theorem Keeps.of_allows (h : ∀ e, Allows D e m post) : Keeps D m :=
  ⟨fun e => (h e).mono fun _ _ _ _ => trivial⟩

instance [HasRefs α] [hm : Gathers D m] : Keeps D m :=
  .of_allows fun e => (hm.allows e).mono fun _ _ _ _ => trivial

theorem Keeps.bind [hm : Keeps D m] (hf : ∀ a, Keeps D (f a)) : Keeps D (m >>= f) :=
  ⟨fun _ => .keeps_bind fun a e' _ => (hf a).allows e'⟩

instance [Keeps D m] [hf : ∀ a, Keeps D (f a)] : Keeps D (m >>= f) := .bind hf

instance (a : α) : Keeps D (pure a : Run α) := ⟨fun _ => .pure trivial⟩

theorem Since.reads_bind [hm : Reads D m] (h : ∀ a, Since D e e' (f a) goal) :
    Since D e e' (m >>= f) goal := by
  refine (Since.of_allows (hm.allows e')).bind fun a e'' _ heq => ?_
  subst heq
  exact h a

/-- What was gathered before an operation is still there after it. -/
theorem Since.affords_bind {rs : List Ref} [hm : Keeps D m] (h : D.linear → e.Affords e' rs)
    (hf : ∀ a e'', D.leads e e'' → (D.linear → e.Affords e'' rs) → Since D e e'' (f a) goal) :
    Since D e e' (m >>= f) goal := by
  have hleads : Allows D e' m fun _ e'' => D.leads e' e'' :=
    (hm.allows e').mono fun _ _ hleads _ => hleads
  refine (Since.of_allows hleads).bind fun a e'' hsince hleads => hf a e'' hsince fun hlinear => ?_
  have hboth := (h hlinear).trans (D.affords hleads hlinear)
  rwa [List.append_nil] at hboth

instance {c : Prop} [Decidable c] {m n : Run α} [Keeps D m] [Keeps D n] :
    Keeps D (if c then m else n) := by
  split <;> infer_instance

instance : Keeps D (get : Run Engine) := ⟨fun _ _ hleads => ⟨hleads, trivial⟩⟩

instance (cause : Cause) [cause.Regular] : Keeps D (raise cause : Run α) := ⟨fun _ => .raise⟩

/-- Nothing is run after an error. -/
instance (priority := high) (cause : Cause) [cause.Regular] (f : α → Run β) :
    Keeps D (raise cause >>= f) := ⟨fun _ => .raise_bind⟩

/-! ### Looking at the engine -/

instance : Reads D (get : Run Engine) := ⟨fun _ _ hleads => ⟨hleads, rfl⟩⟩

instance (a : α) : Reads D (pure a : Run α) := ⟨fun _ => .pure rfl⟩

instance (cause : Cause) [cause.Regular] : Reads D (raise cause : Run α) := ⟨fun _ => .raise⟩

instance [Reads D m] [hf : ∀ a, Reads D (f a)] : Reads D (m >>= f) :=
  ⟨fun e => Since.reads_bind fun a => (hf a).allows e⟩

instance {c : Prop} [Decidable c] {m n : Run α} [Reads D m] [Reads D n] :
    Reads D (if c then m else n) := by
  split <;> infer_instance

instance {x : Except Stop α} [hx : Except.Admitted D x] : Reads D (settle x) := by
  refine ⟨fun e => ?_⟩
  cases x with
  | ok a => exact .pure rfl
  | error stop => exact .throw (hx.stop stop rfl)

/-! ### What is gathered -/

section Gathers

variable {γ : Type} [HasRefs α] [HasRefs β] [HasRefs γ]

theorem gathers_pure {a : α} (ha : HasRefs.refs a = []) : Gathers D (pure a : Run α) := by
  refine ⟨fun e => .pure fun _ => ?_⟩
  rw [ha]
  exact .refl e

instance : Gathers D (pure [] : Run (List Ref)) := gathers_pure rfl

instance : Gathers D (pure [] : Run (List (String × Ref))) := gathers_pure rfl

omit [HasRefs α] in
/-- What runs before takes no room away. -/
theorem gathers_after [Keeps D m] (hf : ∀ a, Gathers D (f a)) : Gathers D (m >>= f) := by
  refine ⟨fun e => Since.affords_bind (fun _ => .refl e) fun a e₁ _ hfirst => ?_⟩
  refine (Since.of_allows ((hf a).allows e₁)).mono fun b e₂ _ hrest hlinear => ?_
  exact (hfirst hlinear).trans (hrest hlinear)

/-- What two operations gather may become parts of one value. -/
theorem gathers_both [hm : Gathers D m] {m' : Run β} [hm' : Gathers D m'] {g : α → β → γ}
    (hg : ∀ a b s, (HasRefs.refs (g a b)).count s ≤
      (HasRefs.refs a).count s + (HasRefs.refs b).count s) :
    Gathers D (m >>= fun a => m' >>= fun b => pure (g a b)) := by
  refine ⟨fun e => (hm.allows e).bind fun a e₁ _ ha => ?_⟩
  refine (hm'.allows e₁).bind fun b e₂ _ hb => .pure fun hlinear => ?_
  refine ((ha hlinear).trans (hb hlinear)).mono fun s => ?_
  rw [List.count_append]
  exact hg a b s

instance {first : Run Ref} {rest : Run (List Ref)} [Gathers D first] [Gathers D rest] :
    Gathers D (first >>= fun r => rest >>= fun rs => pure (r :: rs)) := by
  refine gathers_both fun r rs s => ?_
  rw [← List.count_append]
  exact Nat.le_refl _

instance {first : Run Ref} {rest : Run (List (String × Ref))} {key : String} [Gathers D first]
    [Gathers D rest] :
    Gathers D (first >>= fun r => rest >>= fun entries => pure ((key, r) :: entries)) := by
  refine gathers_both fun r entries s => ?_
  rw [← List.count_append]
  exact Nat.le_refl _

instance {first rest : Run (List Ref)} [Gathers D first] [Gathers D rest] :
    Gathers D (first >>= fun rs => rest >>= fun rs' => pure (rs ++ rs')) :=
  gathers_both fun _ _ _ => Nat.le_of_eq List.count_append

omit [HasRefs β] in
/-- What is gathered on the way to a write is judged since the check. -/
theorem Since.gather_bind [hm : Gathers D m]
    (hf : ∀ a e'', D.leads e e'' → (D.linear → e.Affords e'' (HasRefs.refs a)) →
      Since D e e'' (f a) goal) :
    Since D e e' (m >>= f) goal := by
  refine .of_holds fun _ hleads => ?_
  refine (Since.of_allows (hm.allows e')).bind fun a e'' hsince ha => ?_
  refine hf a e'' hsince fun hlinear => ?_
  exact (D.affords hleads hlinear).trans (ha hlinear)

/-- What an operation has gathered becomes parts of a new value. -/
theorem gathers_new [hm : Gathers D m] {v : α → Value} (hv : ∀ a f, v a ≠ .funcref f)
    (hparts : ∀ a s, (v a).parts.count s ≤ (HasRefs.refs a).count s) :
    Gathers D (m >>= fun a => new (v a)) := by
  refine ⟨fun e => Since.bind (hm.allows e) fun a e₁ _ ha => ?_⟩
  exact .new (fun _ f hf => absurd hf (hv a f)) fun hlinear => (ha hlinear).mono (hparts a)

instance {m : Run (List Ref)} [Gathers D m] : Gathers D (m >>= fun rs => new (.list rs)) :=
  gathers_new (fun _ => nofun) fun _ _ => Nat.le_refl _

instance {m : Run (Table Ref)} [Gathers D m] : Gathers D (m >>= fun t => new (.dictionary t)) :=
  gathers_new (fun _ => nofun) fun _ _ => Nat.le_refl _

instance {m : Run (List (String × Ref))} [Gathers D m] :
    Gathers D (m >>= fun entries => new (.dictionary (.ofList entries))) :=
  gathers_new (fun _ => nofun) fun entries => Table.count_values_ofList entries

end Gathers

theorem keeps_internal {failure : Failure} (hf : failure ≠ .noScriptUnit)
    (h : D.strict → failure.Admitted) : Keeps D (internal failure : Run α) :=
  ⟨fun _ => .throw (D.admits_internal hf h)⟩

instance {x : Except Stop α} [hx : Except.Admitted D x] : Keeps D (settle x) := by
  refine ⟨fun e => ?_⟩
  cases x with
  | ok a => exact .pure trivial
  | error stop => exact .throw (hx.stop stop rfl)

theorem keeps_modifyGet {change : Engine → α × Engine}
    (h : ∀ e, D.holds e → D.leads e (change e).2) : Keeps D (modifyGet change : Run α) :=
  ⟨fun e he _ => ⟨h e he, trivial⟩⟩

theorem keeps_modify {change : Engine → Engine}
    (h : ∀ e : Engine, e.Edit D.toDemands (change e)) :
    Keeps D (modify change : Run Unit) := keeps_modifyGet fun e he => D.edit he (h e)

end Run

end VimL
