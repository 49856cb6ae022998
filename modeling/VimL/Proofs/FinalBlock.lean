import VimL.Proofs.Outcome
import VimL.Session

/-!
# Final blocks

A final block runs once after whatever the block and its catches have come to, as long as a script
can see how they ended. It does not see a pending cancellation, which is pending again afterwards,
and its own end, unless it is normal, takes the place of what came before.
-/

namespace VimL

/-! ## Which block catches -/

/-- The pattern can be read, and it is found in the text, or it is not. -/
def Searched (text pattern : String) (found : Bool) : Prop :=
  ∃ p, Pattern.ofMagic false pattern = .ok p ∧ p.occursIn text = found

/-- What the row of catches has for the text of an exception: no block, the block of the first
pattern that is found, or the reason why a pattern before that cannot be read. -/
inductive Selects (text : String) (catches : List (String × List Stmt)) :
    Except Stop (Option (List Stmt)) → Prop where
  | none (hmiss : ∀ clause ∈ catches, Searched text clause.1 false) :
      Selects text catches (.ok none)
  | found {before after : List (String × List Stmt)} {pattern : String} {body : List Stmt}
      (hsplit : catches = before ++ (pattern, body) :: after)
      (hmiss : ∀ clause ∈ before, Searched text clause.1 false)
      (hfound : Searched text pattern true) : Selects text catches (.ok (some body))
  | malformed {before after : List (String × List Stmt)} {pattern : String} {body : List Stmt}
      (hsplit : catches = before ++ (pattern, body) :: after)
      (hmiss : ∀ clause ∈ before, Searched text clause.1 false)
      (hread : Pattern.ofMagic false pattern = .error .malformed) :
      Selects text catches (.error (.ofCause (.badPattern pattern)))
  | boundTooLarge {before after : List (String × List Stmt)} {pattern : String}
      {body : List Stmt} (hsplit : catches = before ++ (pattern, body) :: after)
      (hmiss : ∀ clause ∈ before, Searched text clause.1 false)
      (hread : Pattern.ofMagic false pattern = .error .boundTooLarge) :
      Selects text catches (.error (.internal (.boundTooLarge pattern)))

theorem Selects.cons {text : String} {clause : String × List Stmt}
    {catches : List (String × List Stmt)} {answer : Except Stop (Option (List Stmt))}
    (hclause : Searched text clause.1 false) (h : Selects text catches answer) :
    Selects text (clause :: catches) answer := by
  cases h with
  | none hmiss => exact .none (List.forall_mem_cons.2 ⟨hclause, hmiss⟩)
  | found hsplit hmiss hfound =>
    exact .found (congrArg (clause :: ·) hsplit) (List.forall_mem_cons.2 ⟨hclause, hmiss⟩) hfound
  | malformed hsplit hmiss hread =>
    exact .malformed (congrArg (clause :: ·) hsplit) (List.forall_mem_cons.2 ⟨hclause, hmiss⟩) hread
  | boundTooLarge hsplit hmiss hread =>
    exact .boundTooLarge (congrArg (clause :: ·) hsplit)
      (List.forall_mem_cons.2 ⟨hclause, hmiss⟩) hread

namespace Engine

/-- The engine in which a catch block starts: the variables of the editor show the exception. -/
def showing (e : Engine) (err : ScriptError) : Engine :=
  let (exception, heap) := e.heap.new (.string err.exceptionText)
  let (throwpoint, heap) := heap.new (.string err.throwpoint)
  { e with heap := heap }.catching err exception throwpoint

end Engine

namespace Run

variable {text : String} {catches : List (String × List Stmt)} {e e₁ e₂ : Engine}

theorem occurs_ends {pattern : String} {found : Bool} (h : Searched text pattern found)
    (e : Engine) : (occurs false pattern text).Ends e (.ok found) e := by
  obtain ⟨p, hread, rfl⟩ := h
  simp only [ends_ok_iff, occurs, Run.pattern, hread]
  rfl

theorem catchFor?_append_of_miss {before : List (String × List Stmt)}
    {answer : Except Stop (Option (List Stmt))}
    (hmiss : ∀ clause ∈ before, Searched text clause.1 false)
    (h : (catchFor? text catches).Ends e answer e) :
    (catchFor? text (before ++ catches)).Ends e answer e := by
  induction before with
  | nil => exact h
  | cons clause rest ih =>
    obtain ⟨hclause, hrest⟩ := List.forall_mem_cons.1 hmiss
    exact (occurs_ends hclause e).bind (ih hrest)

theorem catchFor?_ends {answer : Except Stop (Option (List Stmt))}
    (h : Selects text catches answer) (e : Engine) :
    (catchFor? text catches).Ends e answer e := by
  cases h with
  | none hmiss =>
    rw [← List.append_nil catches]
    exact catchFor?_append_of_miss hmiss (ends_ok_iff.2 rfl)
  | found hsplit hmiss hfound =>
    rw [hsplit]
    exact catchFor?_append_of_miss hmiss ((occurs_ends hfound e).bind (ends_ok_iff.2 rfl))
  | malformed hsplit hmiss hread =>
    rw [hsplit]
    refine catchFor?_append_of_miss hmiss (ends_error_iff.2 ?_)
    simp only [catchFor?, occurs, Run.pattern, hread]
    rfl
  | boundTooLarge hsplit hmiss hread =>
    rw [hsplit]
    refine catchFor?_append_of_miss hmiss (ends_error_iff.2 ?_)
    simp only [catchFor?, occurs, Run.pattern, hread]
    rfl

theorem exists_selects (text : String) (catches : List (String × List Stmt)) :
    ∃ answer, Selects text catches answer := by
  induction catches with
  | nil => exact ⟨_, .none (by simp)⟩
  | cons clause rest ih =>
    obtain ⟨pattern, body⟩ := clause
    have hnone : ∀ clause ∈ ([] : List (String × List Stmt)), Searched text clause.1 false := by
      simp
    cases hread : Pattern.ofMagic false pattern with
    | ok p =>
      cases hfound : p.occursIn text with
      | true => exact ⟨_, .found rfl hnone ⟨p, hread, hfound⟩⟩
      | false =>
        obtain ⟨answer, h⟩ := ih
        exact ⟨answer, h.cons ⟨p, hread, hfound⟩⟩
    | error fault =>
      cases fault with
      | malformed => exact ⟨_, .malformed rfl hnone hread⟩
      | boundTooLarge => exact ⟨_, .boundTooLarge rfl hnone hread⟩

/-! ## The block and its catches -/

/-- The block, and the block that catches its error, end in this way and leave this engine. -/
inductive TryPart (i : Interp) (c : Context) (body : List Stmt)
    (catches : List (String × List Stmt)) (e : Engine) : Except Stop Signal → Engine → Prop where
  | passed {ended : Except Stop Signal} {e₁ : Engine}
      (hbody : (block i.exec c body).Ends e ended e₁)
      (hended : ∀ err, ended ≠ .error (.error err)) : TryPart i c body catches e ended e₁
  | uncaught {err : ScriptError} {e₁ : Engine}
      (hbody : (block i.exec c body).Ends e (.error (.error err)) e₁)
      (hnone : Selects err.exceptionText catches (.ok none)) :
      TryPart i c body catches e (.error (.error err)) e₁
  | caught {err : ScriptError} {e₁ e₂ : Engine} {clause : List Stmt} {ended : Except Stop Signal}
      (hbody : (block i.exec c body).Ends e (.error (.error err)) e₁)
      (hfound : Selects err.exceptionText catches (.ok (some clause)))
      (hclause : (block i.exec c clause).Ends (e₁.showing err) ended e₂) :
      TryPart i c body catches e ended (e₁.restoreVim e₂)
  | unreadable {err : ScriptError} {e₁ : Engine} {stop : Stop}
      (hbody : (block i.exec c body).Ends e (.error (.error err)) e₁)
      (hstop : Selects err.exceptionText catches (.error stop)) :
      TryPart i c body catches e (.error stop) e₁

variable {i : Interp} {c : Context} {body : List Stmt} {ended : Except Stop Signal}

theorem catchBlock_ends {err : ScriptError} {clause : List Stmt}
    (h : (block i.exec c clause).Ends (e.showing err) ended e₁) :
    (catchBlock i c err clause).Ends e ended (e.restoreVim e₁) := h.afterwards e.restoreVim

theorem exists_tryPart (i : Interp) (c : Context) (body : List Stmt)
    (catches : List (String × List Stmt)) (e : Engine) :
    ∃ ended e₁, TryPart i c body catches e ended e₁ := by
  obtain ⟨ended, e₁, hbody⟩ := exists_ends (block i.exec c body) e
  by_cases herr : ∃ err, ended = .error (.error err)
  · obtain ⟨err, rfl⟩ := herr
    obtain ⟨answer, hanswer⟩ := exists_selects err.exceptionText catches
    rcases answer with stop | _ | clause
    · exact ⟨_, e₁, .unreadable hbody hanswer⟩
    · exact ⟨_, e₁, .uncaught hbody hanswer⟩
    · obtain ⟨ended, e₂, hclause⟩ := exists_ends (block i.exec c clause) (e₁.showing err)
      exact ⟨ended, _, .caught hbody hanswer hclause⟩
  · exact ⟨ended, e₁, .passed hbody fun err h => herr ⟨err, h⟩⟩

theorem attempt_ends (h : TryPart i c body catches e ended e₁) :
    (attempt i c body catches).Ends e (.ok ended) e₁ := by
  cases h with
  | passed hbody hended =>
    refine (outcome_ends hbody).bind ?_
    rcases ended with (err | _ | _ | _) | signal
    · exact absurd rfl (hended err)
    all_goals exact ends_ok_iff.2 rfl
  | uncaught hbody hnone =>
    refine (outcome_ends hbody).bind (outcome_ends ?_)
    exact (catchFor?_ends hnone _).bind (ends_error_iff.2 rfl)
  | caught hbody hfound hclause =>
    refine (outcome_ends hbody).bind (outcome_ends ?_)
    exact (catchFor?_ends hfound _).bind (catchBlock_ends hclause)
  | unreadable hbody hstop =>
    refine (outcome_ends hbody).bind (outcome_ends ?_)
    exact (catchFor?_ends hstop _).bind_error

/-! ## The final block -/

/-- The run has ended in a way that a script can bring about. -/
def Visible : Except Stop Signal → Prop
  | .error (.internal _) | .error .exhausted => False
  | _ => True

/-- The end of a final block, unless it is normal, takes the place of what came before. -/
def overriding (ended : Except Stop Signal) : Except Stop Signal → Except Stop Signal
  | .ok .normal => ended
  | own => own

theorem finalBlock_ends {final : List Stmt} {own : Except Stop Signal}
    (h : (block i.exec c final).Ends e₁.enterFinal own e₂) :
    (finalBlock i c final).Ends e₁ own (e₁.leaveFinal c final e₂) :=
  (ends_ok_iff.2 rfl : (get : Run Engine).Ends e₁ (.ok e₁) e₁).bind
    ((ends_ok_iff.2 rfl : (modify (·.enterFinal) : Run Unit).Ends e₁ (.ok ()) _).bind
      (h.afterwards _))

theorem tryCatch_ends {final : List Stmt} {own : Except Stop Signal}
    (htry : TryPart i c body catches e ended e₁) (hvisible : Visible ended)
    (hfinal : (block i.exec c final).Ends e₁.enterFinal own e₂) :
    (tryCatch i c body catches (some final)).Ends e (overriding ended own)
      (e₁.leaveFinal c final e₂) := by
  have hown := finalBlock_ends hfinal
  refine (attempt_ends htry).bind ?_
  -- only ends that no script can see skip the final block
  rcases ended with (_ | _ | _ | _) | _
  case error.internal => exact hvisible.elim
  case error.exhausted => exact hvisible.elim
  all_goals
    rcases own with stop | signal
    · exact hown.bind_error
    · refine hown.bind ?_
      cases signal
      case normal => exact Ends.settle _ _
      all_goals exact ends_ok_iff.2 rfl

/-- No final block runs if there is none, or if no script can see how the other parts ended. -/
theorem tryCatch_ends_of_skipped {final : Option (List Stmt)}
    (htry : TryPart i c body catches e ended e₁) (hskipped : final = none ∨ ¬Visible ended) :
    (tryCatch i c body catches final).Ends e ended e₁ := by
  refine (attempt_ends htry).bind ?_
  rcases hskipped with rfl | hinvisible
  · rcases ended with (_ | _ | _ | _) | _ <;> exact Ends.settle _ _
  · rcases ended with (_ | _ | _ | _) | _
    case error.internal => exact Ends.settle _ _
    case error.exhausted => exact Ends.settle _ _
    all_goals exact absurd trivial hinvisible

/-- The final block, if there is one, ends normally. -/
def FinalNormal (i : Interp) (c : Context) (final : Option (List Stmt)) (e : Engine) : Prop :=
  ∀ b ∈ final, ∃ e', (block i.exec c b).Ends e.enterFinal (.ok .normal) e'

/-- What the other parts end in is not changed by a final block that ends normally. -/
theorem tryCatch_ends_of_normal {final : Option (List Stmt)}
    (htry : TryPart i c body catches e ended e₁) (hfinal : FinalNormal i c final e₁) :
    ∃ e', (tryCatch i c body catches final).Ends e ended e' := by
  by_cases hvisible : Visible ended
  · cases final with
    | none => exact ⟨e₁, tryCatch_ends_of_skipped htry (.inl rfl)⟩
    | some b =>
      obtain ⟨e₂, hb⟩ := hfinal b rfl
      exact ⟨_, tryCatch_ends htry hvisible hb⟩
  · exact ⟨e₁, tryCatch_ends_of_skipped htry (.inr hvisible)⟩

/-- An error that leaves a try statement comes from the final block, or from the other parts, and
then the final block has ended normally. -/
theorem tryPart_of_error {final : Option (List Stmt)} {err : ScriptError} {e' : Engine}
    (h : (tryCatch i c body catches final).Ends e (.error (.error err)) e') :
    ∃ ended e₁, TryPart i c body catches e ended e₁ ∧
      (ended = .error (.error err) ∧ FinalNormal i c final e₁ ∨
        Visible ended ∧ ∃ b ∈ final, ∃ e₂,
          (block i.exec c b).Ends e₁.enterFinal (.error (.error err)) e₂) := by
  obtain ⟨ended, e₁, htry⟩ := exists_tryPart i c body catches e
  refine ⟨ended, e₁, htry, ?_⟩
  by_cases hskipped : final = none ∨ ¬Visible ended
  · obtain ⟨rfl, -⟩ := (tryCatch_ends_of_skipped htry hskipped).unique h
    rcases hskipped with rfl | hinvisible
    · exact .inl ⟨rfl, nofun⟩
    · exact absurd trivial hinvisible
  · obtain ⟨hsome, hvisible⟩ := not_or.1 hskipped
    obtain ⟨b, rfl⟩ := Option.ne_none_iff_exists'.1 hsome
    have hvisible := Classical.not_not.1 hvisible
    obtain ⟨own, e₂, hfinal⟩ := exists_ends (block i.exec c b) e₁.enterFinal
    obtain ⟨heq, -⟩ := (tryCatch_ends htry hvisible hfinal).unique h
    rcases own with stop | signal
    · obtain rfl : stop = .error err := by simpa [overriding] using heq
      exact .inr ⟨hvisible, b, rfl, e₂, hfinal⟩
    · cases signal
      case normal =>
        refine .inl ⟨heq, fun other hother => ⟨e₂, ?_⟩⟩
        obtain rfl := Option.some.inj hother
        exact hfinal
      all_goals cases heq

/-! ## Marks -/

theorem marked_error {command : String} {m : Run Signal} {err : ScriptError}
    (h : (m.marked command).Ends e (.error (.error err)) e₁) : err.command.isSome := by
  obtain ⟨ended, e', hm⟩ := exists_ends m e
  have heq : Except.mapError (Stop.mark command e'.throwpoint) ended = .error (.error err) :=
    ((hm.marked command).unique h).1
  rcases ended with (own | _ | _ | _) | _
  case error.error =>
    obtain rfl : own.mark command e'.throwpoint = err := Stop.error.inj (Except.error.inj heq)
    exact own.isSome_command_mark _ _
  all_goals cases heq

theorem block_error_marked {exec : Context → Stmt → Run Signal} {err : ScriptError}
    (hexec : ∀ s e err e', (exec c s).Ends e (.error (.error err)) e' → err.command.isSome)
    (h : (block exec c body).Ends e (.error (.error err)) e₁) : err.command.isSome := by
  induction body generalizing e with
  | nil => simp [block, ends_error_iff, pure, EStateM.pure] at h
  | cons s rest ih =>
    have hpoll : isInterrupted.Ends e (.ok e.interrupted) e := ends_ok_iff.2 rfl
    rcases h.of_bind_error with hfail | ⟨pending, e', hok, hrest⟩
    · cases (hpoll.unique hfail).1
    · obtain ⟨heq, rfl⟩ := hpoll.unique hok
      cases heq
      cases hpending : e.interrupted with
      | true => simp [hpending, ends_error_iff, pure, EStateM.pure] at hrest
      | false =>
        simp only [hpending, Bool.false_eq_true, if_false] at hrest
        rcases hrest.of_bind_error with hfail | ⟨signal, e₂, hok, hrest⟩
        · exact hexec s _ _ _ hfail
        · cases signal
          case normal => exact ih hrest
          all_goals simp [ends_error_iff, pure, EStateM.pure] at hrest

/-- The only error without a mark is that of a pattern that cannot be read. -/
theorem tryPart_error_marked {err : ScriptError}
    (hexec : ∀ s e err e', (i.exec c s).Ends e (.error (.error err)) e' → err.command.isSome)
    (h : TryPart i c body catches e (.error (.error err)) e₁) :
    err.command.isSome ∨ ∃ clause ∈ catches, err = .ofCause (.badPattern clause.1) := by
  cases h with
  | passed hbody hended => exact absurd rfl (hended err)
  | uncaught hbody hnone => exact .inl (block_error_marked hexec hbody)
  | caught hbody hfound hclause => exact .inl (block_error_marked hexec hclause)
  | unreadable hbody hstop =>
    cases hstop with
    | malformed hsplit hmiss hread =>
      exact .inr ⟨_, hsplit ▸ List.mem_append_right _ List.mem_cons_self, rfl⟩

end Run

/-! ## The statement -/

namespace Interp

theorem exec_error_marked (host : Host) (fuel : Nat) (c : Context) (s : Stmt) (e : Engine)
    (err : ScriptError) (e' : Engine)
    (h : ((ofFuel host fuel).exec c s).Ends e (.error (.error err)) e') : err.command.isSome := by
  cases fuel with
  | zero => cases Run.ends_error_iff.1 h
  | succ fuel => exact Run.marked_error h

open Run in
/-- A try statement with a final block: the block and its catches come to an end. If a script can
see that end, the final block runs from there, once, as if no cancellation were pending. The
statement ends as the final block does unless that ends normally, and else as the try part did; a
pattern that cannot be read is an error of this very statement. A cancellation that was pending is
pending again. -/
theorem tryCatch_runs_final (host : Host) (fuel : Nat) (c : Context) (body final : List Stmt)
    (catches : List (String × List Stmt)) (e : Engine) :
    let s := Stmt.tryCatch body catches (some final)
    let i := ofFuel host fuel
    (∃ ended e₁, TryPart i c body catches (e.record (.began c s)) ended e₁) ∧
    ∀ ended e₁, TryPart i c body catches (e.record (.began c s)) ended e₁ → Visible ended →
      ∃ own e₂ e', (block i.exec c final).Ends e₁.enterFinal own e₂ ∧
        e' = e₁.leaveFinal c final e₂ ∧
        ((ofFuel host (fuel + 1)).exec c s).Ends e
          ((overriding ended own).mapError (Stop.mark s.command e'.throwpoint)) e' ∧
        (∀ err, overriding ended own = .error (.error err) →
          err.command.isSome ∨ ∃ clause ∈ catches, err = .ofCause (.badPattern clause.1)) ∧
        e₁.enterFinal.interrupted = false ∧
        e'.history = .final c final e₂.history :: e₁.history ∧
        e'.interrupted = (e₂.interrupted || e₁.interrupted) := by
  intro s i
  refine ⟨exists_tryPart i c body catches _, fun ended e₁ htry hvisible => ?_⟩
  obtain ⟨own, e₂, hfinal⟩ := exists_ends (block i.exec c final) e₁.enterFinal
  have hrecord : (record (.began c s)).Ends e (.ok ()) (e.record (.began c s)) :=
    ends_ok_iff.2 rfl
  have hrun : (do record (.began c s); execute i c s).Ends e (overriding ended own)
      (e₁.leaveFinal c final e₂) := hrecord.bind (tryCatch_ends htry hvisible hfinal)
  refine ⟨own, e₂, _, hfinal, rfl, hrun.marked s.command, fun err herr => ?_, rfl, rfl, rfl⟩
  rcases own with stop | signal
  · obtain rfl : stop = .error err := by simpa [overriding] using herr
    exact .inl (block_error_marked (exec_error_marked host fuel c) hfinal)
  · cases signal
    case normal =>
      obtain rfl : ended = .error (.error err) := herr
      exact tryPart_error_marked (exec_error_marked host fuel c) htry
    all_goals cases herr

/-- A host with one function, which cancels the run. -/
def cancelling : Host := ⟨[⟨"cancel", ⟨0, some 0⟩, false, fun _ _ => ⟨true, some (.int 0)⟩⟩]⟩

/-- A cancellation in the block keeps the return from running, but not the break of the final
block; afterwards it is still pending. -/
theorem tryCatch_runs_final_cancelled :
    ∃ e', ((ofFuel cancelling 4).exec .commandLine (.tryCatch
        [.evaluate (.call none "cancel" []), .giveBack none] [] (some [.breakLoop]))).Ends
          (Session.blank .standard) (.ok .loopBreak) e' ∧ e'.interrupted = true := by
  let body := [Stmt.evaluate (.call none "cancel" []), .giveBack none]
  let e := (Session.blank .standard).record
    (.began .commandLine (.tryCatch body [] (some [.breakLoop])))
  have hbody : ∃ e₁, (Run.block (ofFuel cancelling 3).exec .commandLine body).Ends e
      (.ok .finish) e₁ ∧ e₁.interrupted = true := ⟨_, rfl, rfl⟩
  obtain ⟨e₁, hbody, hcancelled⟩ := hbody
  obtain ⟨own, e₂, e', hfinal, -, hexec, -, -, -, hpending⟩ :=
    (tryCatch_runs_final cancelling 3 .commandLine body [.breakLoop] []
      (Session.blank .standard)).2 _ _ (.passed hbody (by simp)) trivial
  have hown : (Run.block (ofFuel cancelling 3).exec .commandLine [.breakLoop]).Ends
      e₁.enterFinal (.ok .loopBreak) _ := rfl
  obtain ⟨rfl, rfl⟩ := hfinal.unique hown
  exact ⟨e', hexec, by simp [hpending, hcancelled]⟩

end Interp

end VimL
