import VimL.Proofs.FailedChanges
import VimL.Proofs.Literals
import VimL.Proofs.Loops
import VimL.Proofs.Registers

/-!
# Texts joined and split again

A character that occurs in none of the parts shows, in what they are joined to, where each part
ends. The matches of the pattern for this character are the separators, one after the other, and
the texts between them are the parts.
-/

namespace VimL

namespace Pattern

variable {c : Char} {text : List Char}

/-! ## The matches of a character -/

theorem findFrom_row_of_notMem (h : c ∉ text) (position : Nat) (before : List Char) :
    findFrom ⟨row [c], false⟩ some position before text = none := by
  have hinfix := isSome_findFrom_row [c] position before text
  rw [List.singleton_infix_iff, iff_false_right h, Bool.not_eq_true, Option.isSome_eq_false_iff,
    Option.isNone_iff_eq_none] at hinfix
  exact hinfix

theorem matchAt_row_singleton (x : Char) (position : Nat) (before rest : List Char) :
    matchAt ⟨row [c], false⟩ some ⟨position, before, x :: rest⟩ =
      if x = c then some ⟨position, position + 1, [x], ⟨position + 1, x :: before, rest⟩⟩
      else none := by
  rw [matchAt, run_row, Option.bind_fun_some]
  by_cases hx : x = c <;> simp [Cursor.past?, Cursor.next?, hx]

/-- The leftmost match is the first place where the character is. -/
theorem findFrom_row_append (h : c ∉ text) (position : Nat) (before rest : List Char) :
    findFrom ⟨row [c], false⟩ some position before (text ++ c :: rest) =
      some ⟨position + text.length, position + text.length + 1, [c],
        ⟨position + text.length + 1, c :: (text.reverse ++ before), rest⟩⟩ := by
  induction text generalizing position before with
  | nil =>
    rw [List.nil_append, findFrom, matchAt_row_singleton, if_pos rfl]
    rfl
  | cons x text ih =>
    have hx : x ≠ c := fun heq => h (heq ▸ List.mem_cons_self)
    have hrest : c ∉ text := fun hmem => h (List.mem_cons_of_mem x hmem)
    rw [List.cons_append, findFrom, matchAt_row_singleton, if_neg hx]
    dsimp only
    rw [ih hrest, List.length_cons, List.reverse_cons, List.append_assoc, List.singleton_append,
      Nat.add_assoc, Nat.add_comm 1]

theorem partsBetween_findAllFrom {fuel start : Nat} {chars before rest : List Char}
    (hfuel : rest.length < fuel) (hrest : chars.drop start = rest) :
    Library.partsBetween chars start (findAllFrom ⟨row [c], false⟩ fuel false ⟨start, before, rest⟩) =
      rest.splitOn c := by
  induction fuel generalizing start before rest with
  | zero => exact absurd hfuel (Nat.not_lt_zero _)
  | succ fuel ih =>
    by_cases hmem : c ∈ rest
    · obtain ⟨part, after, rfl, hpart⟩ := List.eq_append_cons_of_mem hmem
      have hpartLength : start + part.length - start = part.length := Nat.add_sub_cancel_left ..
      have hafter : chars.drop (start + part.length + 1) = after := by
        rw [Nat.add_assoc, ← List.drop_drop, hrest, ← List.drop_drop, List.drop_left]
        rfl
      have hshorter : after.length < fuel := by
        rw [List.length_append, List.length_cons] at hfuel
        omega
      have hdistinct : (start + part.length == start + part.length + 1) = false := by simp
      simp only [findAllFrom, Bool.false_eq_true, if_false, findFrom_row_append hpart, hdistinct,
        Library.partsBetween, Nat.left_eq_add, Nat.one_ne_zero]
      rw [ih hshorter hafter, List.splitOn_append_cons_self_of_not_mem hpart, hrest, hpartLength,
        List.take_left]
    · simp only [findAllFrom, Bool.false_eq_true, if_false, findFrom_row_of_notMem hmem,
        Library.partsBetween]
      rw [hrest, List.splitOn_eq_singleton hmem]

theorem splitText_row (c : Char) (s : String) :
    Library.splitText ⟨row [c], false⟩ s = s.toList.splitOn c := by
  refine partsBetween_findAllFrom ?_ rfl
  rw [String.length_toList]
  omega

/-- What is between the separators is what was joined. -/
theorem splitText_intercalate {parts : List String} (hparts : parts ≠ [])
    (hc : ∀ s ∈ parts, c ∉ s.toList) :
    Library.splitText ⟨row [c], false⟩ (String.intercalate (String.singleton c) parts) =
      parts.map String.toList := by
  rw [splitText_row, String.toList_intercalate, String.toList_singleton]
  refine List.splitOn_intercalate c ?_ ?_
  · intro l hl
    obtain ⟨s, hs, rfl⟩ := List.mem_map.1 hl
    exact hc s hs
  · rwa [ne_eq, List.map_eq_nil_iff]

end Pattern

/-! ## Empty parts at the ends -/

namespace Texts

/-- Without the first text, if it is empty. -/
def dropFirstEmpty : List String → List String
  | [] => []
  | s :: rest => if s = "" then rest else s :: rest

/-- Without the last text, if it is empty. -/
def dropLastEmpty (texts : List String) : List String := (dropFirstEmpty texts.reverse).reverse

theorem map_dropFirstEmpty (texts : List String) :
    (if (texts.map String.toList).head? = some [] then (texts.map String.toList).tail
      else texts.map String.toList) = (dropFirstEmpty texts).map String.toList := by
  cases texts with
  | nil => rfl
  | cons s rest => by_cases hs : s = "" <;> simp [dropFirstEmpty, hs]

theorem map_dropLastEmpty (texts : List String) :
    (if (texts.map String.toList).getLast? = some [] then (texts.map String.toList).dropLast
      else texts.map String.toList) = (dropLastEmpty texts).map String.toList := by
  have hreversed := congrArg List.reverse (map_dropFirstEmpty texts.reverse)
  rw [List.map_reverse, List.head?_reverse, List.tail_reverse, apply_ite List.reverse,
    List.reverse_reverse, List.reverse_reverse, ← List.map_reverse] at hreversed
  exact hreversed

theorem trimParts_map (texts : List String) :
    Library.trimParts (texts.map String.toList) =
      (dropLastEmpty (dropFirstEmpty texts)).map String.toList := by
  unfold Library.trimParts
  dsimp only
  rw [map_dropFirstEmpty, map_dropLastEmpty]

end Texts

namespace Heap

/-- A List of Strings with these texts. -/
def HoldsTexts (h : Heap) (r : Ref) (texts : List String) : Prop :=
  ∃ items, h.value r = .list items ∧ items.map h.value = texts.map .string

variable {h : Heap} {items : List Ref}

theorem map_plainText {texts : List String} (depth : Nat)
    (hvalues : items.map h.value = texts.map .string) : items.map (h.plainText depth) = texts := by
  induction items generalizing texts with
  | nil =>
    cases texts with
    | nil => rfl
    | cons s texts => cases hvalues
  | cons r items ih =>
    cases texts with
    | nil => cases hvalues
    | cons s texts =>
      obtain ⟨hr, hitems⟩ := List.cons.inj hvalues
      rw [List.map_cons, ih hitems, plainText, hr]

theorem map_value_of_item {values : List Value} (hitems : items.map h.item = values.map .scalar) :
    items.map h.value = values := by
  induction items generalizing values with
  | nil =>
    cases values with
    | nil => rfl
    | cons v values => cases hitems
  | cons r items ih =>
    cases values with
    | nil => cases hitems
    | cons v values =>
      obtain ⟨hr, hrest⟩ := List.cons.inj hitems
      rw [List.map_cons, ih hrest]
      unfold item at hr
      split at hr
      · rw [Item.scalar.inj hr]
      · cases hr

end Heap

namespace Run

variable {host : Host} {i : Interp} {ctx : Context} {receiver : Option Ref} {e : Engine}
  {r separator keep : Ref} {s : String} {c : Char} {parts : List String}

/-! ## Joining -/

theorem join_of_holdsTexts (hr : e.heap.HoldsTexts r parts)
    (hseparator : e.heap.value separator = .string s) :
    Library.join r (some separator) e = newText (String.intercalate s parts) e := by
  obtain ⟨items, hitems, hvalues⟩ := hr
  rw [Library.join, bind_of_ok (value_of_eq hitems)]
  dsimp only
  rw [bind_of_ok (text_of_eq hseparator), bind_of_ok (get_eq e), Heap.map_plainText _ hvalues]

/-! ## Splitting -/

theorem separatorOf_quote
    (hseparator : e.heap.value separator = .string (Pattern.quote (String.singleton c))) :
    Library.separatorOf (some separator) e = .ok ⟨Pattern.row [c], false⟩ e := by
  have hnonempty : (Pattern.quote (String.singleton c)).isEmpty = false := by
    rw [String.isEmpty_eq_false_iff]
    intro hempty
    have hchars : (Pattern.quote (String.singleton c)).toList = Pattern.quoted c := by
      rw [Pattern.quote, String.toList_ofList, String.toList_singleton, List.flatMap_singleton]
    have hlength := Pattern.length_quoted_pos c
    rw [← hchars, hempty] at hlength
    exact Nat.lt_irrefl _ hlength
  have hread : Pattern.ofMagic false (Pattern.quote (String.singleton c)) =
      .ok ⟨Pattern.row [c], false⟩ := by
    rw [Pattern.ofMagic_quote, String.toList_singleton]
  rw [Library.separatorOf, bind_of_ok (text_of_eq hseparator), hnonempty, hread]
  rfl

theorem exists_newTexts (texts : List String) (e : Engine) :
    ∃ made e', (Library.newTexts texts >>= fun items => new (.list items)) e = .ok made e' ∧
      e.OnlyAdds e' ∧ e'.heap.HoldsTexts made texts := by
  obtain ⟨items, e₁, hrun, hadds, hexist, hitems⟩ :=
    @exists_newEach String .string (fun _ => rfl) texts e
  have hextends : e₁.heap.Extends (e₁.heap.new (.list items)).2 := .new e₁.heap (.list items)
  refine ⟨(e₁.heap.new (.list items)).1, e₁.withHeap (e₁.heap.new (.list items)).2, ?_,
    hadds.trans (.withHeap hextends), items, e₁.heap.value_new_self (.list items), ?_⟩
  · rw [newTexts_eq, bind_of_ok hrun]
    rfl
  · have hkept : items.map (e₁.heap.new (.list items)).2.value = items.map e₁.heap.value := by
      refine List.map_congr_left fun t ht => ?_
      rw [Heap.value, hextends.cell t (hexist t ht), Heap.value]
    refine hkept.trans (Heap.map_value_of_item ?_)
    rw [hitems, List.map_map]
    rfl

/-- A new List with the parts, or with those that are left of them. -/
theorem exists_split {keepEmpty : Option Ref} {keeps : Bool} (hparts : parts ≠ [])
    (hc : ∀ s ∈ parts, c ∉ s.toList)
    (hr : e.heap.value r = .string (String.intercalate (String.singleton c) parts))
    (hseparator : e.heap.value separator = .string (Pattern.quote (String.singleton c)))
    (hkeep : Library.flag keepEmpty e = .ok keeps e) :
    ∃ made e', Library.split r (some separator) keepEmpty e = .ok made e' ∧ e.OnlyAdds e' ∧
      e'.heap.HoldsTexts made
        (if keeps then parts else Texts.dropLastEmpty (Texts.dropFirstEmpty parts)) := by
  set kept := if keeps then parts else Texts.dropLastEmpty (Texts.dropFirstEmpty parts) with hkept
  obtain ⟨made, e', hmade, hadds, hholds⟩ := exists_newTexts kept e
  refine ⟨made, e', ?_, hadds, hholds⟩
  have hsplit := Pattern.splitText_intercalate hparts hc
  have htexts : (if keeps then parts.map String.toList
      else Library.trimParts (parts.map String.toList)).map String.ofList = kept := by
    rw [Texts.trimParts_map, ← apply_ite (List.map String.toList), List.map_map,
      ← hkept]
    simp [Function.comp_def, String.ofList_toList]
  rw [Library.split, bind_of_ok (text_of_eq hr), bind_of_ok (separatorOf_quote hseparator),
    bind_of_ok hkeep, hsplit, htexts]
  exact hmade

/-! ## There and back -/

/-- Parts that do not have the separator in them are joined and, in this or a later state, split
again: all of them, if empty parts are kept, and otherwise without an empty part at the start and
without an empty one at the end. -/
theorem split_join (hr : e.heap.HoldsTexts r parts) (hparts : parts ≠ [])
    (hc : ∀ s ∈ parts, c ∉ s.toList)
    (hseparator : e.heap.value separator = .string (String.singleton c)) :
    ∃ joined e₁,
      callHandler host i ctx (.builtin .join) [r, separator] receiver e = .ok joined e₁ ∧
      e.OnlyAdds e₁ ∧ ∀ e₂ pattern, e₁.OnlyAdds e₂ →
        e₂.heap.value pattern = .string (Pattern.quote (String.singleton c)) →
        (∀ keep, e₂.heap.value keep = .number 1 →
          ∃ made e₃, callHandler host i ctx (.builtin .split) [joined, pattern, keep] receiver e₂ =
            .ok made e₃ ∧ e₂.OnlyAdds e₃ ∧ e₃.heap.HoldsTexts made parts) ∧
        ∃ made e₃, callHandler host i ctx (.builtin .split) [joined, pattern] receiver e₂ =
          .ok made e₃ ∧ e₂.OnlyAdds e₃ ∧
            e₃.heap.HoldsTexts made (Texts.dropLastEmpty (Texts.dropFirstEmpty parts)) := by
  set inside := e.enter (.native "join")
  set text := String.intercalate (String.singleton c) parts
  set e₁ := e.leave (inside.withHeap (inside.heap.new (.string text)).2)
  have hjoin : Library.join r (some separator) inside =
      .ok (inside.heap.new (.string text)).1 (inside.withHeap (inside.heap.new (.string text)).2) :=
    join_of_holdsTexts hr hseparator
  have hcall : callHandler host i ctx (.builtin .join) [r, separator] receiver e =
      .ok (inside.heap.new (.string text)).1 e₁ := callHandler_of_ok rfl hjoin
  refine ⟨_, e₁, hcall, Engine.OnlyAdds.leave (.withHeap (.new inside.heap (.string text))), ?_⟩
  intro e₂ pattern hadds hpattern
  -- The text is still there, since the objects of the state after joining are kept.
  have hjoined : e₂.heap.value (inside.heap.new (.string text)).1 = .string text :=
    hadds.heap.value_eq_string (inside.heap.value_new_self (.string text))
  have hsplit : ∀ (keepEmpty : Option Ref) (keeps : Bool),
      Library.flag keepEmpty (e₂.enter (.native "split")) =
        .ok keeps (e₂.enter (.native "split")) →
      ∃ made e₃, callHandler host i ctx (.builtin .split)
          ((inside.heap.new (.string text)).1 :: pattern :: keepEmpty.toList) receiver e₂ =
        .ok made e₃ ∧ e₂.OnlyAdds e₃ ∧ e₃.heap.HoldsTexts made
          (if keeps then parts else Texts.dropLastEmpty (Texts.dropFirstEmpty parts)) := by
    intro keepEmpty keeps hflag
    obtain ⟨made, e₃, hmade, hadds₃, hholds⟩ :=
      exists_split (e := e₂.enter (.native "split")) hparts hc hjoined hpattern hflag
    refine ⟨made, e₂.leave e₃, ?_, hadds₃.leave, hholds⟩
    cases keepEmpty with
    | none => exact callHandler_of_ok rfl hmade
    | some keep => exact callHandler_of_ok rfl hmade
  refine ⟨fun keep hkeep => hsplit (some keep) true ?_, hsplit none false rfl⟩
  have hbool : Library.flag (some keep) (e₂.enter (.native "split")) =
      settle (e₂.heap.value keep).toBool (e₂.enter (.native "split")) := rfl
  rw [hbool, hkeep]
  rfl

end Run

namespace Session

/-- Texts that are empty at both ends, a separator, the pattern for it, and a flag. -/
def holdingTexts : Engine :=
  (blank .standard).withHeap
    ⟨#[.fresh (.list [⟨1⟩, ⟨2⟩, ⟨3⟩, ⟨1⟩]), .fresh (.string ""), .fresh (.string "a"),
      .fresh (.string "(b"), .fresh (.string "."), .fresh (.string "\\."), .fresh (.number 1)]⟩

/-- Around dots, all four texts come back, or the two that are not empty. -/
theorem split_join_holdingTexts :
    ∃ joined e₁, Run.callHandler ⟨[]⟩ .spent .commandLine (.builtin .join) [⟨0⟩, ⟨4⟩] none
        holdingTexts = .ok joined e₁ ∧
      (∃ made e₂, Run.callHandler ⟨[]⟩ .spent .commandLine (.builtin .split) [joined, ⟨5⟩, ⟨6⟩]
        none e₁ = .ok made e₂ ∧ e₂.heap.HoldsTexts made ["", "a", "(b", ""]) ∧
      ∃ made e₂, Run.callHandler ⟨[]⟩ .spent .commandLine (.builtin .split) [joined, ⟨5⟩] none e₁ =
        .ok made e₂ ∧ e₂.heap.HoldsTexts made ["a", "(b"] := by
  have htexts : holdingTexts.heap.HoldsTexts ⟨0⟩ ["", "a", "(b", ""] :=
    ⟨[⟨1⟩, ⟨2⟩, ⟨3⟩, ⟨1⟩], rfl, rfl⟩
  have hquoted : "\\." = Pattern.quote (String.singleton '.') := by decide
  have habsent : ∀ s ∈ ["", "a", "(b", ""], '.' ∉ s.toList := by decide
  obtain ⟨joined, e₁, hjoin, hadds, hsplit⟩ :=
    @Run.split_join ⟨[]⟩ .spent .commandLine none holdingTexts ⟨0⟩ ⟨4⟩ '.' _ htexts
      (List.cons_ne_nil _ _) habsent rfl
  have hkept : ∀ r : Ref, r.index < 7 → e₁.heap.value r = holdingTexts.heap.value r :=
    fun r hr => congrArg Cell.value (hadds.heap.cell r hr)
  have hpattern : e₁.heap.value ⟨5⟩ = .string (Pattern.quote (String.singleton '.')) := by
    rw [hkept ⟨5⟩ (by decide), ← hquoted]
    rfl
  have hflag : e₁.heap.value ⟨6⟩ = .number 1 := hkept ⟨6⟩ (by decide)
  obtain ⟨hall, hsome⟩ := hsplit e₁ ⟨5⟩ (.refl e₁) hpattern
  obtain ⟨made, e₂, hmade, -, hholds⟩ := hall ⟨6⟩ hflag
  obtain ⟨made', e₂', hmade', -, hholds'⟩ := hsome
  exact ⟨joined, e₁, hjoin, ⟨made, e₂, hmade, hholds⟩, made', e₂', hmade', hholds'⟩

end Session

end VimL
