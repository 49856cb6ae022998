import Mathlib.Data.List.Infix
import VimL.Proofs.Additions
import VimL.Operators

/-!
# Patterns for texts as they are

A text becomes a pattern for itself if its operators of the magic dialect are quoted. Translation
keeps track of which characters are operators of the one notation and which of the other, so what
is read from it is a row of literal characters. Such a pattern is found in a text exactly where the
row is.
-/

namespace VimL

namespace Pattern

/-- Characters that are operators of the magic dialect without a backslash. -/
def isMagic (c : Char) : Bool := "\\.*[^$".toList.contains c

/-- A character as itself in the magic dialect. -/
def quoted (c : Char) : List Char := if isMagic c then ['\\', c] else [c]

/-- The pattern for a text as it is. -/
def quote (text : String) : String := String.ofList (text.toList.flatMap quoted)

/-- A character as itself in the extended notation. -/
def escaped (c : Char) : List Char := if isMagic c || needsBackslash c then ['\\', c] else [c]

/-! ## Translation -/

theorem toExtended_quoted_append (fuel : Nat) (ignoreCase : Bool) (c : Char) (rest : List Char) :
    toExtended (fuel + 1) ignoreCase (quoted c ++ rest) =
      toExtended.emit (escaped c) (toExtended fuel ignoreCase rest) := by
  by_cases hmagic : isMagic c = true
  · have hc : c = '\\' ∨ c = '.' ∨ c = '*' ∨ c = '[' ∨ c = '^' ∨ c = '$' := by
      simpa [isMagic] using hmagic
    rcases hc with rfl | rfl | rfl | rfl | rfl | rfl <;> rfl
  · have hc : c ≠ '\\' := by
      rintro rfl
      exact hmagic rfl
    have hplain : quoted c ++ rest = c :: rest := by simp [quoted, hmagic]
    have hescaped : escaped c = if needsBackslash c then ['\\', c] else [c] := by
      simp [escaped, hmagic]
    rw [hplain, hescaped]
    simp [toExtended, hc]

theorem toExtended_quoted {fuel : Nat} {text : List Char} (hfuel : text.length < fuel)
    (ignoreCase : Bool) :
    toExtended fuel ignoreCase (text.flatMap quoted) = .ok (text.flatMap escaped, ignoreCase) := by
  induction text generalizing fuel with
  | nil =>
    obtain ⟨fuel, rfl⟩ := Nat.exists_eq_add_one_of_ne_zero (Nat.ne_of_gt hfuel)
    rfl
  | cons c rest ih =>
    obtain ⟨fuel, rfl⟩ := Nat.exists_eq_add_one_of_ne_zero (Nat.ne_of_gt (Nat.zero_lt_of_lt hfuel))
    rw [List.flatMap_cons, toExtended_quoted_append, ih (Nat.lt_of_succ_lt_succ hfuel)]
    rfl

/-! ## Reading -/

/-- The row of literal characters that is read after the items before it. -/
def rowAfter (before : Regex) (last : Option Regex) : List Char → Regex
  | [] => closeSequence before last
  | c :: rest => rowAfter (closeSequence before last) (some (.literal c)) rest

/-- A row of literal characters. -/
def row (text : List Char) : Regex := rowAfter .empty none text

theorem readSequence_escaped_append (fuel : Nat) (before : Regex) (last : Option Regex) (c : Char)
    (rest : List Char) :
    readSequence (fuel + 1) before last (escaped c ++ rest) =
      readSequence fuel (closeSequence before last) (some (.literal c)) rest := by
  by_cases hspecial : (isMagic c || needsBackslash c) = true
  · have hc : c = '\\' ∨ c = '.' ∨ c = '*' ∨ c = '[' ∨ c = '^' ∨ c = '$' ∨ c = '(' ∨ c = ')' ∨
        c = '|' ∨ c = '+' ∨ c = '?' ∨ c = '\x7b' ∨ c = '\x7d' := by
      simpa [isMagic, needsBackslash, or_assoc] using hspecial
    rcases hc with rfl | rfl | rfl | rfl | rfl | rfl | rfl | rfl | rfl | rfl | rfl | rfl | rfl <;>
      rfl
  · have hplain : escaped c ++ rest = c :: rest := by simp [escaped, hspecial]
    have hc : c ≠ '\\' ∧ c ≠ '.' ∧ c ≠ '*' ∧ c ≠ '[' ∧ c ≠ '^' ∧ c ≠ '$' ∧ c ≠ '(' ∧ c ≠ ')' ∧
        c ≠ '|' ∧ c ≠ '+' ∧ c ≠ '?' ∧ c ≠ '\x7b' ∧ c ≠ '\x7d' := by
      simpa [isMagic, needsBackslash, and_assoc] using hspecial
    have hends : endsSequence (c :: rest) = false := by
      unfold endsSequence
      split <;> simp_all
    have hquantifier : readQuantifier? (c :: rest) = none := by
      unfold readQuantifier?
      split <;> simp_all
    have hatom : readAtom (c :: rest) = .ok (.literal c, rest) := by
      unfold readAtom
      split <;> simp_all
    have hgroup : ∀ opened, c :: rest = '(' :: opened → False := by
      intro opened heq
      exact absurd (List.cons.inj heq).1 (by simp [hc])
    rw [hplain, readSequence, hends, hquantifier]
    · simp only [hatom, Bool.false_eq_true, if_false]
    · exact hgroup

theorem readSequence_escaped {fuel : Nat} {text : List Char} (hfuel : text.length < fuel)
    (before : Regex) (last : Option Regex) :
    readSequence fuel before last (text.flatMap escaped) = .ok (rowAfter before last text, []) := by
  induction text generalizing fuel before last with
  | nil =>
    obtain ⟨fuel, rfl⟩ := Nat.exists_eq_add_one_of_ne_zero (Nat.ne_of_gt hfuel)
    rfl
  | cons c rest ih =>
    obtain ⟨fuel, rfl⟩ := Nat.exists_eq_add_one_of_ne_zero (Nat.ne_of_gt (Nat.zero_lt_of_lt hfuel))
    rw [List.flatMap_cons, readSequence_escaped_append, ih (Nat.lt_of_succ_lt_succ hfuel)]
    rfl

theorem length_le_length_flatMap {f : Char → List Char} (hf : ∀ c, 0 < (f c).length)
    (text : List Char) : text.length ≤ (text.flatMap f).length := by
  induction text with
  | nil => exact Nat.zero_le _
  | cons c rest ih =>
    have := hf c
    simp only [List.length_cons, List.flatMap_cons, List.length_append]
    omega

theorem length_quoted_pos (c : Char) : 0 < (quoted c).length := by
  unfold quoted
  split <;> exact Nat.succ_pos _

theorem length_escaped_pos (c : Char) : 0 < (escaped c).length := by
  unfold escaped
  split <;> exact Nat.succ_pos _

theorem ofExtended_escaped (text : List Char) :
    ofExtended (text.flatMap escaped) = .ok (row text) := by
  have hlength := length_le_length_flatMap length_escaped_pos text
  have hread : readSequence (2 * (text.flatMap escaped).length + 1) .empty none
      (text.flatMap escaped) = .ok (row text, []) :=
    readSequence_escaped (by omega) .empty none
  simp only [ofExtended, readChoice, hread]

/-- A quoted text is read as the row of its characters. -/
theorem ofMagic_quote (ignoreCase : Bool) (text : String) :
    ofMagic ignoreCase (quote text) = .ok ⟨row text.toList, ignoreCase⟩ := by
  have hlength := length_le_length_flatMap length_quoted_pos text.toList
  have hchars : (quote text).toList = text.toList.flatMap quoted := String.toList_ofList
  have htranslated : toExtended ((quote text).length + 1) ignoreCase (quote text).toList =
      .ok (text.toList.flatMap escaped, ignoreCase) := by
    rw [← String.length_toList, hchars]
    exact toExtended_quoted (Nat.lt_succ_of_le hlength) ignoreCase
  simp only [ofMagic, htranslated, ofExtended_escaped]

/-! ## Matching -/

/-- The place after a row of characters, if they follow. -/
def Cursor.past? (c : Cursor) : List Char → Option Cursor
  | [] => some c
  | x :: row =>
    match c.next? with
    | some (y, after) => if y = x then after.past? row else none
    | none => none

theorem Cursor.isSome_past? (c : Cursor) (text : List Char) :
    (c.past? text).isSome = true ↔ text <+: c.after := by
  induction text generalizing c with
  | nil => simp [past?]
  | cons x rest ih =>
    obtain ⟨position, before, _ | ⟨y, after⟩⟩ := c
    · simp [past?, next?]
    · by_cases hxy : y = x
      · subst hxy
        simp [past?, next?, ih, List.cons_prefix_cons]
      · simp [past?, next?, hxy, List.cons_prefix_cons, Ne.symm hxy]

theorem run_literal (x : Char) (k : Continuation) (c : Cursor) :
    (Regex.literal x).run false k c = (c.past? [x]).bind k := by
  obtain ⟨position, before, _ | ⟨y, after⟩⟩ := c
  · rfl
  · by_cases hyx : y = x <;>
      simp [Regex.literal, Regex.run, Cursor.next?, Cursor.past?, CharClass.admits,
        ClassItem.admits, hyx]

theorem Cursor.past?_cons (c : Cursor) (x : Char) (rest : List Char) :
    c.past? (x :: rest) = (c.past? [x]).bind (·.past? rest) := by
  obtain ⟨position, before, _ | ⟨y, after⟩⟩ := c
  · rfl
  · by_cases hyx : y = x <;> simp [past?, next?, hyx]

theorem run_rowAfter (before : Regex) (last : Option Regex) (text : List Char) (k : Continuation)
    (c : Cursor) :
    (rowAfter before last text).run false k c =
      (closeSequence before last).run false (fun e => (e.past? text).bind k) c := by
  induction text generalizing before last with
  | nil => rfl
  | cons x rest ih =>
    have hclose : ∀ k : Continuation,
        (closeSequence (closeSequence before last) (some (.literal x))).run false k c =
          (closeSequence before last).run false ((Regex.literal x).run false k) c := fun _ => rfl
    have hcharacter : (Regex.literal x).run false (fun e => (e.past? rest).bind k) =
        fun e => (e.past? (x :: rest)).bind k := by
      funext e
      rw [run_literal, Cursor.past?_cons e x rest, Option.bind_assoc]
    rw [rowAfter, ih, hclose, hcharacter]

/-- A row matches where its characters follow, and ends after them. -/
theorem run_row (text : List Char) (k : Continuation) (c : Cursor) :
    (row text).run false k c = (c.past? text).bind k :=
  run_rowAfter .empty none text k c

theorem isSome_matchAt_row (text : List Char) (c : Cursor) :
    (matchAt ⟨row text, false⟩ some c).isSome = true ↔ text <+: c.after := by
  rw [matchAt, Option.isSome_map, run_row, Option.bind_fun_some, Cursor.isSome_past?]

theorem isSome_findFrom_row (text : List Char) (position : Nat) (before rest : List Char) :
    (findFrom ⟨row text, false⟩ some position before rest).isSome = true ↔ text <:+: rest := by
  induction rest generalizing position before with
  | nil =>
    rw [findFrom, isSome_matchAt_row, List.prefix_nil, List.infix_nil]
  | cons x rest ih =>
    have hhere := isSome_matchAt_row text ⟨position, before, x :: rest⟩
    rw [findFrom, List.infix_cons_iff, ← ih (position + 1) (x :: before), ← hhere]
    cases matchAt ⟨row text, false⟩ some ⟨position, before, x :: rest⟩ <;> simp

theorem occursIn_row (text : List Char) (subject : String) :
    occursIn ⟨row text, false⟩ subject = true ↔ text <:+: subject.toList :=
  isSome_findFrom_row text 0 [] subject.toList

end Pattern

/-- The search for a quoted text does not fail. It succeeds if and only if the text occurs in the
subject, and it changes nothing. -/
theorem Run.occurs_quote (text subject : String) (e : Engine) :
    ∃ found, occurs false (Pattern.quote text) subject e = .ok found e ∧
      (found = true ↔ text.toList <:+: subject.toList) := by
  refine ⟨Pattern.occursIn ⟨Pattern.row text.toList, false⟩ subject, ?_,
    Pattern.occursIn_row text.toList subject⟩
  simp only [occurs, pattern, Pattern.ofMagic_quote]
  rfl

example : Pattern.quote "a.b*(c)" = "a\\.b\\*(c)" := by decide

end VimL
