import VimL.Interpreter

/-!
# How runs end

A run from an engine has one outcome and leaves one engine, whether it returns or stops short.
-/

namespace VimL

namespace Run

variable {α β : Type} {m : Run α} {f : α → Run β} {e e' e'' : Engine} {ended : Except Stop α}

/-- The run ends in this way and leaves this engine. -/
def Ends (m : Run α) (e : Engine) (ended : Except Stop α) (e' : Engine) : Prop :=
  outcome m e = .ok ended e'

theorem exists_ends (m : Run α) (e : Engine) : ∃ ended e', m.Ends e ended e' := by
  cases hm : m e with
  | ok a e' => exact ⟨.ok a, e', by simp [Ends, outcome, hm]⟩
  | error stop e' => exact ⟨.error stop, e', by simp [Ends, outcome, hm]⟩

theorem ends_ok_iff {a : α} : m.Ends e (.ok a) e' ↔ m e = .ok a e' := by
  cases hm : m e <;> simp [Ends, outcome, hm]

theorem ends_error_iff {stop : Stop} : m.Ends e (.error stop) e' ↔ m e = .error stop e' := by
  cases hm : m e <;> simp [Ends, outcome, hm]

theorem Ends.unique {ended' : Except Stop α} (h : m.Ends e ended e')
    (h' : m.Ends e ended' e'') : ended = ended' ∧ e' = e'' := by
  have heq := h.symm.trans h'
  simpa using heq

theorem Ends.congr {m' : Run α} (h : m.Ends e ended e') (hrun : m e = m' e) :
    m'.Ends e ended e' := by
  unfold Ends outcome at *
  rwa [← hrun]

theorem Ends.settle (x : Except Stop α) (e : Engine) : (settle x).Ends e x e := by
  cases x <;> rfl

theorem Ends.afterwards (h : m.Ends e ended e') (change : Engine → Engine) :
    (m.afterwards change).Ends e ended (change e') := by
  cases ended with
  | ok a => simp [ends_ok_iff, Run.afterwards, ends_ok_iff.1 h]
  | error stop => simp [ends_error_iff, Run.afterwards, ends_error_iff.1 h]

theorem Ends.marked (h : m.Ends e ended e') (command : String) :
    (m.marked command).Ends e (ended.mapError (Stop.mark command e'.throwpoint)) e' := by
  cases ended with
  | ok a => exact ends_ok_iff.2 (by simp [Run.marked, ends_ok_iff.1 h])
  | error stop => exact ends_error_iff.2 (by simp [Run.marked, ends_error_iff.1 h])

/-! ## One run after the other -/

theorem Ends.bind {a : α} {answer : Except Stop β} (hm : m.Ends e (.ok a) e')
    (hf : (f a).Ends e' answer e'') : (m >>= f).Ends e answer e'' := by
  have hrun : (m >>= f) e = f a e' := by
    simp only [Bind.bind, EStateM.bind, ends_ok_iff.1 hm]
  simpa only [Ends, outcome, hrun] using hf

theorem Ends.bind_error {stop : Stop} (hm : m.Ends e (.error stop) e') :
    (m >>= f).Ends e (.error stop) e' := by
  simp only [ends_error_iff, Bind.bind, EStateM.bind, ends_error_iff.1 hm]

/-- A run that fails has failed in its first part or gone on from it. -/
theorem Ends.of_bind_error {stop : Stop} (h : (m >>= f).Ends e (.error stop) e'') :
    m.Ends e (.error stop) e'' ∨ ∃ a e', m.Ends e (.ok a) e' ∧ (f a).Ends e' (.error stop) e'' := by
  obtain ⟨ended, e', hm⟩ := exists_ends m e
  cases ended with
  | error stop' =>
    obtain ⟨heq, rfl⟩ := hm.bind_error.unique h
    cases heq
    exact .inl hm
  | ok a =>
    obtain ⟨answer, e₂, hf⟩ := exists_ends (f a) e'
    obtain ⟨rfl, rfl⟩ := (hm.bind hf).unique h
    exact .inr ⟨a, e', hm, hf⟩

theorem outcome_ends (h : m.Ends e ended e') : (outcome m).Ends e (.ok ended) e' :=
  ends_ok_iff.2 h

end Run

end VimL
