import VimL.Proofs.Runs.Sessions

/-!
# Failures of the engine

A script sees script errors; it does not see a failure of the engine, which no catch block and no
final block sees either. Well-formed programs that call functions of their own and of the library
fail only in six operations, each of which does not check what it is given.
-/

namespace VimL

namespace Run

variable {α β : Type} {e e' : Engine}

/-- The run ends in this failure of the engine. -/
def FailsWith (m : Run α) (e : Engine) (f : Failure) : Prop := ∃ e', m e = .error (.internal f) e'

theorem failsWith_internal {f g : Failure} : (internal f : Run α).FailsWith e g ↔ f = g :=
  ⟨fun ⟨_, h⟩ => by cases h; rfl, fun h => ⟨e, h ▸ rfl⟩⟩

theorem not_failsWith_pure {a : α} {f : Failure} : ¬(pure a : Run α).FailsWith e f :=
  fun ⟨_, h⟩ => nomatch h

theorem not_failsWith_raise {cause : Cause} {f : Failure} :
    ¬(raise cause : Run α).FailsWith e f := fun ⟨_, h⟩ => nomatch h

theorem not_failsWith_settle {a : α} {f : Failure} : ¬(settle (.ok a)).FailsWith e f :=
  not_failsWith_pure

theorem failsWith_settle {f g : Failure} :
    (settle (.error (.internal f)) : Run α).FailsWith e g ↔ f = g := failsWith_internal

theorem value_eq (r : Ref) : value r e = .ok (e.heap.value r) e := rfl

theorem failsWith_bind {m : Run α} {f : α → Run β} {a : α} {g : Failure} (hm : m e = .ok a e') :
    (m >>= f).FailsWith e g ↔ (f a).FailsWith e' g := by
  have heq : (m >>= f) e = f a e' := by simp only [Bind.bind, EStateM.bind, hm]
  simp only [FailsWith, heq]

theorem failsWith_internal_bind {f : α → Run β} {g g' : Failure} :
    (internal g >>= f).FailsWith e g' ↔ g = g' := failsWith_internal

/-! ## The operations -/

theorem pattern_failsWith_iff {ignoreCase : Bool} {text : String} :
    (pattern ignoreCase text).FailsWith e (.boundTooLarge text) ↔
      Pattern.ofMagic ignoreCase text = .error .boundTooLarge := by
  unfold pattern
  cases Pattern.ofMagic ignoreCase text with
  | ok p => simp [not_failsWith_pure]
  | error fault => cases fault <;> simp [failsWith_internal, not_failsWith_raise]

theorem setItem_failsWith_iff {list r : Ref} {i : Nat} :
    (setItem list i r).FailsWith e .itemGone ↔
      ∀ items, e.heap.value list = .list items → items.length ≤ i := by
  unfold setItem
  rw [failsWith_bind (value_eq list)]
  cases e.heap.value list with
  | list items =>
    by_cases hi : i < items.length
    · have hset : ¬(setValue list (.list (items.set i r))).FailsWith e .itemGone :=
        fun ⟨_, h⟩ => nomatch h
      simp [hi, hset]
    · simp [hi, failsWith_internal, Nat.le_of_not_lt hi]
  | _ => simp [failsWith_internal]

theorem byteAt_failsWith_iff {blob : Ref} {i : Nat} :
    (byteAt blob i).FailsWith e .byteGone ↔
      ∀ bytes, e.heap.value blob = .blob bytes → bytes.length ≤ i := by
  unfold byteAt bytes
  rw [bind_assoc, failsWith_bind (value_eq blob)]
  cases e.heap.value blob with
  | blob bytes =>
    simp only [pure_bind]
    cases hbyte : bytes[i]? with
    | some b => simpa [not_failsWith_pure] using (List.getElem?_eq_some_iff.1 hbyte).1
    | none => simpa [failsWith_internal] using hbyte
  | _ => simp [failsWith_internal_bind]

end Run

namespace Library

open Run

variable {e : Engine}

theorem separatorOf_failsWith_iff {r : Ref} {s : String} (hs : (e.heap.value r).toText = .ok s) :
    (separatorOf (some r)).FailsWith e (.unreadableSeparator s) ↔
      s ≠ "" ∧ ∃ fault, Pattern.ofMagic false s = .error fault := by
  have htext : text r e = .ok s e := by
    change settle (e.heap.value r).toText e = _
    rw [hs]
    rfl
  unfold separatorOf
  dsimp only
  rw [failsWith_bind htext]
  by_cases hempty : s = ""
  · simp [hempty, not_failsWith_pure]
  · cases Pattern.ofMagic false s <;> simp [hempty, not_failsWith_pure, failsWith_internal]

theorem indexInBlob_failsWith_iff {bytes : List UInt8} {byte start : Int} :
    (indexInBlob bytes byte start).FailsWith e (.beforeBlob start) ↔
      start < -(bytes.length : Int) := by
  unfold indexInBlob
  dsimp only
  by_cases hout : start < -(bytes.length : Int)
  · simp [hout, failsWith_internal]
  · by_cases hbefore : start < 0 <;> simp [hout, hbefore, not_failsWith_pure]

theorem readFloat_failsWith_iff {negative : Bool} {chars : List Char} :
    (settle (readFloat negative chars)).FailsWith e .foreignLetter ↔
      (matchesWord ['i', 'n', 'f'] chars ∨ matchesWord ['n', 'a', 'n'] chars) ∧
        ∃ c ∈ chars.take 3, 128 ≤ c.toNat := by
  -- both words have three letters
  have hforeign : (∃ c ∈ chars.take 3, 128 ≤ c.toNat) ↔
      ¬(chars.take 3).all (·.toNat < 128) = true := by simp
  rw [hforeign]
  unfold readFloat
  dsimp only
  by_cases hinf : matchesWord ['i', 'n', 'f'] chars = true
  · by_cases hplain : (chars.take 3).all (·.toNat < 128) = true
    · simp [hinf, hplain, not_failsWith_settle]
    · simp [hinf, hplain, failsWith_settle]
  by_cases hnan : matchesWord ['n', 'a', 'n'] chars = true
  · by_cases hplain : (chars.take 3).all (·.toNat < 128) = true
    · simp [hinf, hnan, hplain, not_failsWith_settle]
    · simp [hinf, hnan, hplain, failsWith_settle]
  · rw [if_neg hinf, if_neg hnan]
    refine iff_of_false ?_ fun h => h.1.elim hinf hnan
    split <;> exact not_failsWith_settle

end Library

/-! ## The engine -/

/-- The operations that do not check what they are given, and when exactly they fail. -/
structure Engine.UncheckedOperations (e : Engine) : Prop where
  pattern : ∀ ignoreCase text, (Run.pattern ignoreCase text).FailsWith e (.boundTooLarge text) ↔
    Pattern.ofMagic ignoreCase text = .error .boundTooLarge
  separator : ∀ r s, (e.heap.value r).toText = .ok s →
    ((Library.separatorOf (some r)).FailsWith e (.unreadableSeparator s) ↔
      s ≠ "" ∧ ∃ fault, Pattern.ofMagic false s = .error fault)
  blobStart : ∀ bytes byte start,
    (Library.indexInBlob bytes byte start).FailsWith e (.beforeBlob start) ↔
      start < -(bytes.length : Int)
  floatWord : ∀ negative chars,
    (Run.settle (Library.readFloat negative chars)).FailsWith e .foreignLetter ↔
      (Library.matchesWord ['i', 'n', 'f'] chars ∨ Library.matchesWord ['n', 'a', 'n'] chars) ∧
        ∃ c ∈ chars.take 3, 128 ≤ c.toNat
  item : ∀ list i r, (Run.setItem list i r).FailsWith e .itemGone ↔
    ∀ items, e.heap.value list = .list items → items.length ≤ i
  byte : ∀ blob i, (Run.byteAt blob i).FailsWith e .byteGone ↔
    ∀ bytes, e.heap.value blob = .blob bytes → bytes.length ≤ i

theorem Engine.uncheckedOperations (e : Engine) : e.UncheckedOperations where
  pattern _ _ := Run.pattern_failsWith_iff
  separator _ _ hs := Library.separatorOf_failsWith_iff hs
  blobStart _ _ _ := Library.indexInBlob_failsWith_iff
  floatWord _ _ := Library.readFloat_failsWith_iff
  item _ _ _ := Run.setItem_failsWith_iff
  byte _ _ := Run.byteAt_failsWith_iff

/-- No catch block and no final block sees a failure of the engine. -/
theorem Run.tryCatch_of_internal {i : Interp} {c : Context} {body : List Stmt} {f : Failure}
    {e e' : Engine} (catches : List (String × List Stmt)) (final : Option (List Stmt))
    (hbody : block i.exec c body e = .error (.internal f) e') :
    tryCatch i c body catches final e = .error (.internal f) e' := by
  have hattempt : attempt i c body catches e = .ok (.error (.internal f)) e' := by
    simp only [attempt, outcome, Bind.bind, EStateM.bind, hbody]
    rfl
  simp only [tryCatch, Bind.bind, EStateM.bind, hattempt]
  rfl

theorem Run.Allows.admitted {host : Host} {α : Type} {m : Run α} {post : α → Engine → Prop}
    {e : Engine} {f : Failure} (hm : Allows (.steps host True) e m post) (he : e.Sound host)
    (h : m.FailsWith e f) : f.Limit ∨ f.Unchecked := by
  obtain ⟨e', h⟩ := h
  have hreaches := hm (fun _ => he) (.refl e)
  simp only [Reaches, h] at hreaches
  exact hreaches.2 f rfl trivial

namespace Session

/-- Well-formed programs that call functions of their own and of the library, in every engine that a
session comes to: an end that scripts cannot see comes from the surroundings, or from one of six
operations that do not check what they are given. -/
theorem Reachable.failsWith_unchecked {e : Engine} (he : Reachable ⟨[]⟩ e) (fuel : Nat)
    (c : Context) :
    (∀ body f, (∀ s ∈ body, s.WellFormed) →
      (Run.block (Interp.ofFuel ⟨[]⟩ fuel).exec c body).FailsWith e f → f.Limit ∨ f.Unchecked) ∧
    (∀ x f, x.WellFormed → ((Interp.ofFuel ⟨[]⟩ fuel).eval c x).FailsWith e f →
      f.Limit ∨ f.Unchecked) ∧
    e.UncheckedOperations ∧
    ∀ body catches final f e', Run.block (Interp.ofFuel ⟨[]⟩ fuel).exec c body e =
        .error (.internal f) e' →
      Run.tryCatch (Interp.ofFuel ⟨[]⟩ fuel) c body catches final e = .error (.internal f) e' := by
  have hsound : e.Sound ⟨[]⟩ := he.sound rfl
  have hsteps : (Interp.ofFuel ⟨[]⟩ fuel).KeepsSteps ⟨[]⟩ True :=
    Interp.keepsSteps_ofFuel (fun _ => rfl) fuel
  refine ⟨fun body f hbody h => ?_, fun x f hx h => ?_, e.uncheckedOperations,
    fun body catches final f e' h => Run.tryCatch_of_internal catches final h⟩
  · exact ((Run.keeps_block hsteps c fun _ => hbody).allows e).admitted hsound h
  · exact ((hsteps.eval c x fun _ => hx).allows e).admitted hsound h

/-- A call that fails, since the register holds no pattern. Neither the catch block nor the final
block runs. -/
def splitting : List Stmt :=
  [.tryCatch [.evaluate (.call none "split" [.register "a", .register "a"])] [(".", [])]
    (some [.echo []])]

theorem wellFormed_splitting : ∀ s ∈ splitting, s.WellFormed := by
  simp only [splitting, List.mem_singleton, forall_eq]
  refine .tryCatch (fun s hs => ?_) (by simp) fun final hfinal s hs => ?_
  · obtain rfl := List.mem_singleton.1 hs
    refine .evaluate (.call _ _ fun x hx => ?_)
    obtain rfl : x = .register "a" := by simpa using hx
    exact .register "a"
  · obtain rfl := Option.some.inj hfinal
    obtain rfl := List.mem_singleton.1 hs
    exact .echo nofun

theorem reachable_holding (text : String) : Reachable ⟨[]⟩ (holding text) :=
  .start (start_holding text)

theorem splitting_failsWith :
    (Run.block (Interp.ofFuel ⟨[]⟩ 4).exec .commandLine splitting).FailsWith (holding "\\(")
      (.unreadableSeparator "\\(") := ⟨_, rfl⟩

theorem failsWith_unchecked_splitting :
    Reachable ⟨[]⟩ (holding "\\(") ∧ (∀ s ∈ splitting, s.WellFormed) ∧
      (Failure.unreadableSeparator "\\(").Unchecked := by
  have hreachable := reachable_holding "\\("
  have hkind := (Reachable.failsWith_unchecked hreachable 4 .commandLine).1 splitting _
    wellFormed_splitting splitting_failsWith
  exact ⟨hreachable, wellFormed_splitting, hkind.resolve_left nofun⟩

/-- Not every end of a well-formed program can be seen by scripts, even if the surroundings take
everything. -/
theorem not_forall_visible : ¬∀ (e : Engine) (fuel : Nat) (c : Context) (body : List Stmt)
    (f : Failure), Reachable ⟨[]⟩ e → (∀ s ∈ body, s.WellFormed) →
    (Run.block (Interp.ofFuel ⟨[]⟩ fuel).exec c body).FailsWith e f → f.Limit := by
  intro hvisible
  cases hvisible _ 4 .commandLine splitting _ (reachable_holding "\\(") wellFormed_splitting
    splitting_failsWith

end Session

end VimL
