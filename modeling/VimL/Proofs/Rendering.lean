import Mathlib.Data.List.Forall2
import VimL.Proofs.Contents
import VimL.Render

/-!
# The text of data determines it

A text is read back from its start: the first character tells what kind of value is written, and
the end of the value is seen from what follows it, which is a comma, a closing bracket or nothing.
So two values with the same text have the same contents at every position.
-/

namespace VimL

namespace Text

/-! ## Where a value ends -/

/-- The characters that follow a value inside of a List or a Dictionary. -/
def isStop (c : Char) : Bool := c == ',' || c == ']' || c == '\x7d'

/-- A value is at its end here. -/
def Stops (rest : List Char) : Prop := ∀ c ∈ rest.head?, isStop c = true

theorem stops_nil : Stops [] := nofun

theorem stops_cons {c : Char} (hc : isStop c = true) (rest : List Char) : Stops (c :: rest) := by
  intro c' hc'
  rwa [← Option.some.inj hc']

/-- A text without stops is all that comes before the next stop. -/
theorem append_inj_of_stops {word word' rest rest' : List Char}
    (hword : ∀ c ∈ word, isStop c = false) (hword' : ∀ c ∈ word', isStop c = false)
    (hrest : Stops rest) (hrest' : Stops rest') (h : word ++ rest = word' ++ rest') :
    word = word' ∧ rest = rest' := by
  induction word generalizing word' with
  | nil =>
    cases word' with
    | nil => exact ⟨rfl, h⟩
    | cons c tail =>
      obtain rfl : rest = c :: (tail ++ rest') := h
      have hc := hword' c List.mem_cons_self
      simp [hrest c rfl] at hc
  | cons c tail ih =>
    cases word' with
    | nil =>
      obtain rfl : c :: (tail ++ rest) = rest' := h
      have hc := hword c List.mem_cons_self
      simp [hrest' c rfl] at hc
    | cons c' tail' =>
      obtain ⟨rfl, htail⟩ := List.cons.inj h
      obtain ⟨rfl, hrest⟩ := ih (fun x hx => hword x (List.mem_cons_of_mem _ hx))
        (fun x hx => hword' x (List.mem_cons_of_mem _ hx)) htail
      exact ⟨rfl, hrest⟩

/-- A quote that stands alone ends a quoted text. -/
theorem doubleQuotes_append_inj {s t rest rest' : List Char} (hrest : rest.head? ≠ some '\'')
    (hrest' : rest'.head? ≠ some '\'')
    (h : doubleQuotes s ++ '\'' :: rest = doubleQuotes t ++ '\'' :: rest') :
    s = t ∧ rest = rest' := by
  -- a quote inside of a text is doubled, and what follows the closing one is no quote
  have hends {c : Char} {tail rest rest' : List Char} (hrest : rest.head? ≠ some '\'') :
      '\'' :: rest ≠ doubleQuotes (c :: tail) ++ '\'' :: rest' := by
    intro heq
    unfold doubleQuotes at heq
    split at heq
    · obtain rfl := (List.cons.inj heq).2
      exact hrest rfl
    · rename_i hc
      exact hc (List.cons.inj heq).1.symm
  induction s generalizing t with
  | nil =>
    cases t with
    | nil => exact ⟨rfl, (List.cons.inj h).2⟩
    | cons c tail => exact absurd h (hends hrest)
  | cons c tail ih =>
    cases t with
    | nil => exact absurd h.symm (hends hrest')
    | cons c' tail' =>
      unfold doubleQuotes at h
      by_cases hc : c = '\''
      · by_cases hc' : c' = '\''
        · simp only [hc, hc', if_true, List.cons_append, List.cons.injEq, true_and] at h
          obtain ⟨rfl, hrest⟩ := ih h
          exact ⟨by rw [hc, hc'], hrest⟩
        · simp only [hc, hc', if_true, if_false, List.cons_append, List.cons.injEq] at h
          exact absurd h.1.symm hc'
      · by_cases hc' : c' = '\''
        · simp only [hc, hc', if_true, if_false, List.cons_append, List.cons.injEq] at h
          exact h.1.elim
        · simp only [hc, hc', if_false, List.cons_append, List.cons.injEq] at h
          obtain ⟨rfl, hrest⟩ := ih h.2
          exact ⟨by rw [h.1], hrest⟩

/-- Quoted texts are told apart, whatever follows their closing quotes. -/
theorem quote_append_inj {s t : String} {rest rest' : List Char} (hrest : rest.head? ≠ some '\'')
    (hrest' : rest'.head? ≠ some '\'')
    (h : (quote s).toList ++ rest = (quote t).toList ++ rest') : s = t ∧ rest = rest' := by
  simp only [quote, String.toList_ofList, List.cons_append, List.append_assoc, List.cons.injEq,
    true_and, List.nil_append] at h
  obtain ⟨hchars, hrest⟩ := doubleQuotes_append_inj hrest hrest' h
  exact ⟨String.toList_inj.1 hchars, hrest⟩

theorem Stops.head?_ne {rest : List Char} (h : Stops rest) {c : Char} (hc : isStop c = false) :
    rest.head? ≠ some c := by
  intro hhead
  simp [h c hhead] at hc

end Text

open Text

/-! ## Numbers and Blobs -/

namespace Number

theorem isDigit_of_mem_toDigits {n : Nat} {c : Char} (h : c ∈ Nat.toDigits 10 n) :
    c.isDigit = true :=
  Nat.isDigit_of_mem_toDigits (by decide) (by decide) h

theorem mem_toText {n : Int} {c : Char} (h : c ∈ (toText n).toList) :
    c = '-' ∨ c.isDigit = true := by
  unfold toText at h
  split at h
  · rw [String.toList_ofList, List.mem_cons] at h
    exact h.imp_right (isDigit_of_mem_toDigits)
  · rw [String.toList_ofList] at h
    exact .inr (isDigit_of_mem_toDigits h)

theorem isStop_of_mem_toText {n : Int} {c : Char} (h : c ∈ (toText n).toList) :
    isStop c = false := by
  rcases mem_toText h with rfl | hc
  · rfl
  · simp only [isStop, Bool.or_eq_false_iff, beq_eq_false_iff_ne]
    refine ⟨⟨?_, ?_⟩, ?_⟩ <;> rintro rfl <;> simp at hc

theorem toDigits_inj {m n : Nat} (h : Nat.toDigits 10 m = Nat.toDigits 10 n) : m = n := by
  have hvalue := congrArg (Nat.ofDigitChars 10 · 0) h
  simpa using hvalue

theorem toText_inj {m n : Int} (h : toText m = toText n) : m = n := by
  have hminus {k : Nat} {tail : List Char} : Nat.toDigits 10 k ≠ '-' :: tail := by
    intro heq
    have hdigit : '-'.isDigit = true :=
      isDigit_of_mem_toDigits (heq ▸ List.mem_cons_self)
    simp at hdigit
  unfold toText at h
  split at h <;> split at h <;> rw [String.ofList_inj] at h
  · have habs := toDigits_inj (List.cons.inj h).2
    omega
  · exact absurd h.symm hminus
  · exact absurd h hminus
  · have habs := toDigits_inj h
    omega

theorem toText_ne_nil (n : Int) : (toText n).toList ≠ [] := by
  unfold toText
  split
  · simp
  · rw [String.toList_ofList]
    exact Nat.toDigits_ne_nil

/-- No letter comes second, neither in a number nor where it has ended. -/
theorem tail_append_ne_cons (letter : Char) {n : Int} {c : Char} {tail rest : List Char}
    (htext : (toText n).toList = c :: tail) (hrest : Stops rest)
    (hletter : letter ≠ '-' ∧ letter.isDigit = false ∧ isStop letter = false)
    (tail' : List Char) : tail ++ rest ≠ letter :: tail' := by
  obtain ⟨hminus, hdigit, hstop⟩ := hletter
  intro heq
  cases tail with
  | nil => exact hrest.head?_ne hstop (congrArg List.head? heq)
  | cons second others =>
    obtain ⟨rfl, -⟩ := List.cons.inj heq
    have hin : second ∈ (toText n).toList := by simp [htext]
    rcases mem_toText hin with hsame | hsame
    · exact hminus hsame
    · exact Bool.false_ne_true (hdigit.symm.trans hsame)

end Number

/-- A hexadecimal digit of a Blob. -/
def Text.capitalDigits : List Char := "0123456789ABCDEF".toList

namespace Blob

def digitsOf (n : Nat) : List Char := (padZeros 2 (hexDigits n)).map Char.toUpper

/-- The two digits of a byte. -/
def pair (b : UInt8) : List Char := digitsOf b.toNat

theorem groups_cons (count : Nat) (b : UInt8) (rest : List UInt8) :
    blobText.groups count (b :: rest) =
      (if count % 4 = 0 ∧ count ≠ 0 then ['.'] else []) ++ pair b ++
        blobText.groups (count + 1) rest := rfl

theorem pair_spec (b : UInt8) :
    (pair b).length = 2 ∧ (∀ c ∈ pair b, isStop c = false) ∧
      (pair b).foldl (fun n c => 16 * n + capitalDigits.idxOf c) 0 = b.toNat := by
  have hall : ∀ high < 16, ∀ low < 16,
      (digitsOf (16 * high + low)).length = 2 ∧
      (digitsOf (16 * high + low)).all (fun c => !isStop c) = true ∧
      (digitsOf (16 * high + low)).foldl (fun n c => 16 * n + capitalDigits.idxOf c) 0 =
        16 * high + low := by
    decide +kernel
  have hlt := b.toNat_lt
  obtain ⟨hlength, hstops, hvalue⟩ := hall (b.toNat / 16) (by omega) (b.toNat % 16) (by omega)
  rw [Nat.div_add_mod] at hlength hstops hvalue
  refine ⟨hlength, fun c hc => ?_, hvalue⟩
  simpa using List.all_eq_true.1 hstops c hc

theorem groups_inj {count : Nat} {bytes bytes' : List UInt8}
    (h : blobText.groups count bytes = blobText.groups count bytes') : bytes = bytes' := by
  have hnil {count : Nat} {b : UInt8} {rest : List UInt8} :
      [] ≠ blobText.groups count (b :: rest) := by
    intro heq
    have hlength := congrArg List.length heq
    simp only [groups_cons, List.length_append, (pair_spec b).1, List.length_nil] at hlength
    omega
  induction bytes generalizing count bytes' with
  | nil =>
    cases bytes' with
    | nil => rfl
    | cons => exact absurd h hnil
  | cons b rest ih =>
    cases bytes' with
    | nil => exact absurd h.symm hnil
    | cons b' rest' =>
      rw [groups_cons, groups_cons, List.append_assoc, List.append_assoc] at h
      obtain ⟨hpair, hrest⟩ := List.append_inj (List.append_cancel_left h)
        ((pair_spec b).1.trans (pair_spec b').1.symm)
      have hbyte : b.toNat = b'.toNat := by
        rw [← (pair_spec b).2.2, ← (pair_spec b').2.2, hpair]
      rw [UInt8.toNat_inj.1 hbyte, ih hrest]

theorem isStop_of_mem_groups {count : Nat} {bytes : List UInt8} {c : Char}
    (h : c ∈ blobText.groups count bytes) : isStop c = false := by
  induction bytes generalizing count with
  | nil => cases h
  | cons b rest ih =>
    rw [groups_cons, List.mem_append, List.mem_append] at h
    rcases h with (h | h) | h
    · obtain rfl : c = '.' := by
        split at h <;> simp_all
      rfl
    · exact (pair_spec b).2.1 c h
    · exact ih h

theorem toList_blobText (bytes : List UInt8) :
    (blobText bytes).toList = '0' :: 'z' :: blobText.groups 0 bytes := by
  rw [blobText, String.toList_ofList]
  rfl

theorem isStop_of_mem_blobText {bytes : List UInt8} {c : Char}
    (h : c ∈ (blobText bytes).toList) : isStop c = false := by
  rw [toList_blobText, List.mem_cons, List.mem_cons] at h
  rcases h with rfl | rfl | h
  · rfl
  · rfl
  · exact isStop_of_mem_groups h

theorem blobText_inj {bytes bytes' : List UInt8}
    (h : (blobText bytes).toList = (blobText bytes').toList) : bytes = bytes' := by
  rw [toList_blobText, toList_blobText] at h
  exact groups_inj (List.cons.inj (List.cons.inj h).2).2

end Blob

/-! ## Rows -/

/-- What follows the first text of a row. -/
def rowAfter (closer : Char) (rest : List Char) : List String → List Char
  | [] => closer :: rest
  | text :: texts => ',' :: ' ' :: text.toList ++ rowAfter closer rest texts

theorem toList_commaSeparated_cons (closer : Char) (rest : List Char) (text : String)
    (texts : List String) :
    (commaSeparated (text :: texts)).toList ++ closer :: rest =
      text.toList ++ rowAfter closer rest texts := by
  induction texts generalizing text with
  | nil => simp [commaSeparated, rowAfter]
  | cons next texts ih =>
    have htail := ih next
    simp only [commaSeparated, String.toList_intercalate, List.map_cons,
      List.intercalate_cons_cons, List.append_assoc, rowAfter] at htail ⊢
    rw [htail]
    rfl

theorem stops_rowAfter {closer : Char} (hcloser : isStop closer = true) (rest : List Char)
    (texts : List String) : Stops (rowAfter closer rest texts) := by
  cases texts with
  | nil => exact stops_cons hcloser rest
  | cons => exact stops_cons rfl _

/-- The text of an entry of a Dictionary. -/
def entryText {α : Type u} (f : α → String) (entry : String × α) : String :=
  quote entry.1 ++ ": " ++ f entry.2

theorem toList_entryText {α : Type u} (f : α → String) (entry : String × α) (rest : List Char) :
    (entryText f entry).toList ++ rest =
      (quote entry.1).toList ++ ':' :: ' ' :: ((f entry.2).toList ++ rest) := by
  rw [entryText, String.toList_append, String.toList_append, List.append_assoc, List.append_assoc]
  rfl

theorem toList_listText (texts : List String) (rest : List Char) :
    (listText texts).toList ++ rest = '[' :: ((commaSeparated texts).toList ++ ']' :: rest) := by
  rw [listText, String.toList_append, String.toList_append, List.append_assoc, List.append_assoc]
  rfl

theorem toList_dictionaryText {α : Type u} (f : α → String) (entries : List (String × α))
    (rest : List Char) :
    (dictionaryText (entries.map fun (key, v) => (key, f v))).toList ++ rest =
      '\x7b' :: ((commaSeparated (entries.map (entryText f))).toList ++ '\x7d' :: rest) := by
  rw [dictionaryText, List.map_map, String.toList_append, String.toList_append, List.append_assoc,
    List.append_assoc]
  rfl

/-- The text begins, and not with what ends a value. -/
def Text.Begins (text : String) : Prop := ∃ c tail, text.toList = c :: tail ∧ isStop c = false

section Rows

variable {α : Type u} {β : Type v} {R : α → β → Prop} {f : α → String} {g : β → String}
  {closer : Char} {rest rest' : List Char}

/-- The text of one item is read back whatever stops it. -/
def ReadsBack (R : α → β → Prop) (f : α → String) (g : β → String) (x : α) (y : β) : Prop :=
  ∀ {rest rest' : List Char}, Stops rest → Stops rest' →
    (f x).toList ++ rest = (g y).toList ++ rest' → R x y ∧ rest = rest'

theorem rowAfter_inj {xs : List α} {ys : List β} (hcloser : isStop closer = true)
    (hcomma : closer ≠ ',') (hread : ∀ x ∈ xs, ∀ y ∈ ys, ReadsBack R f g x y)
    (h : rowAfter closer rest (xs.map f) = rowAfter closer rest' (ys.map g)) :
    List.Forall₂ R xs ys ∧ rest = rest' := by
  induction xs generalizing ys with
  | nil =>
    cases ys with
    | nil => exact ⟨.nil, (List.cons.inj h).2⟩
    | cons => exact absurd (List.cons.inj h).1 hcomma
  | cons x xs ih =>
    cases ys with
    | nil => exact absurd (List.cons.inj h).1.symm hcomma
    | cons y ys =>
      have htexts := (List.cons.inj (List.cons.inj h).2).2
      obtain ⟨hitem, htail⟩ := hread x List.mem_cons_self y List.mem_cons_self
        (stops_rowAfter hcloser rest _) (stops_rowAfter hcloser rest' _) htexts
      obtain ⟨hitems, hrest⟩ := ih (fun x hx y hy =>
        hread x (List.mem_cons_of_mem _ hx) y (List.mem_cons_of_mem _ hy)) htail
      exact ⟨.cons hitem hitems, hrest⟩

/-- Rows are read back if their items are. -/
theorem commaSeparated_inj {xs : List α} {ys : List β} (hcloser : isStop closer = true)
    (hcomma : closer ≠ ',') (hf : ∀ x ∈ xs, Begins (f x)) (hg : ∀ y ∈ ys, Begins (g y))
    (hread : ∀ x ∈ xs, ∀ y ∈ ys, ReadsBack R f g x y)
    (h : (commaSeparated (xs.map f)).toList ++ closer :: rest =
      (commaSeparated (ys.map g)).toList ++ closer :: rest') :
    List.Forall₂ R xs ys ∧ rest = rest' := by
  have hcloses {text : String} {texts : List String} {rest rest' : List Char}
      (htext : Begins text) : closer :: rest ≠ text.toList ++ rowAfter closer rest' texts := by
    obtain ⟨c, tail, hchars, hc⟩ := htext
    intro heq
    rw [hchars] at heq
    rw [← (List.cons.inj heq).1, hcloser] at hc
    exact absurd hc (by decide)
  cases xs with
  | nil =>
    cases ys with
    | nil => exact ⟨.nil, (List.cons.inj h).2⟩
    | cons y ys =>
      rw [List.map_cons, toList_commaSeparated_cons] at h
      exact absurd h (hcloses (hg y List.mem_cons_self))
  | cons x xs =>
    cases ys with
    | nil =>
      rw [List.map_cons, toList_commaSeparated_cons] at h
      exact absurd h.symm (hcloses (hf x List.mem_cons_self))
    | cons y ys =>
      rw [List.map_cons, List.map_cons, toList_commaSeparated_cons,
        toList_commaSeparated_cons] at h
      obtain ⟨hitem, htail⟩ := hread x List.mem_cons_self y List.mem_cons_self
        (stops_rowAfter hcloser rest _) (stops_rowAfter hcloser rest' _) h
      obtain ⟨hitems, hrest⟩ := rowAfter_inj hcloser hcomma (fun x hx y hy =>
        hread x (List.mem_cons_of_mem _ hx) y (List.mem_cons_of_mem _ hy)) htail
      exact ⟨.cons hitem hitems, hrest⟩

end Rows

/-! ## Kinds -/

/-- The kind of the value whose text begins here, if one does. -/
def Kind.ofText? : List Char → Option Kind
  | [] => none
  | '\'' :: _ => some .string
  | '[' :: _ => some .list
  | '\x7b' :: _ => some .dictionary
  | '0' :: 'z' :: _ => some .blob
  | c :: _ => if isStop c then none else some .number

theorem Kind.begins_of_ofText? {text : String} {kind : Kind}
    (h : Kind.ofText? text.toList = some kind) : Begins text := by
  unfold Kind.ofText? at h
  unfold Begins
  split at h
  · cases h
  · exact ⟨_, _, ‹_›, rfl⟩
  · exact ⟨_, _, ‹_›, rfl⟩
  · exact ⟨_, _, ‹_›, rfl⟩
  · exact ⟨_, _, ‹_›, rfl⟩
  · rename_i c _ _ _ _ _ heq
    split at h
    · cases h
    · exact ⟨_, _, heq, Bool.eq_false_iff.2 ‹_›⟩

theorem Kind.ofText?_number (n : Int) {rest : List Char} (hrest : Stops rest) :
    Kind.ofText? ((Number.toText n).toList ++ rest) = some .number := by
  cases htext : (Number.toText n).toList with
  | nil => exact absurd htext (Number.toText_ne_nil n)
  | cons c tail =>
    have hc : c = '-' ∨ c.isDigit = true := Number.mem_toText (htext ▸ List.mem_cons_self)
    have hz := Number.tail_append_ne_cons 'z' htext hrest (by decide)
    have hstop : isStop c = false := Number.isStop_of_mem_toText (htext ▸ List.mem_cons_self)
    unfold Kind.ofText?
    split <;> simp_all

namespace Heap

variable {h h' : Heap} {depth : Nat} {path : List Ref} {r s : Ref}

theorem textAt_number {n : Int} (hv : h.value r = .number n) :
    h.textAt depth path r = Number.toText n := by
  cases depth <;> simp only [textAt, hv]

theorem textAt_string {text : String} (hv : h.value r = .string text) :
    h.textAt depth path r = quote text := by
  cases depth <;> simp only [textAt, hv]

theorem textAt_blob {bytes : List UInt8} (hv : h.value r = .blob bytes) :
    h.textAt depth path r = blobText bytes := by
  cases depth <;> simp only [textAt, hv]

theorem textAt_list {items : List Ref} (hv : h.value r = .list items) (hr : r ∉ path) :
    h.textAt (depth + 1) path r = listText (items.map (h.textAt depth (r :: path))) := by
  simp only [textAt, hv, if_neg hr]

theorem textAt_dictionary {entries : Table Ref} (hv : h.value r = .dictionary entries)
    (hr : r ∉ path) :
    h.textAt (depth + 1) path r =
      dictionaryText (entries.entries.map fun (key, v) => (key, h.textAt depth (r :: path) v)) := by
  simp only [textAt, hv, if_neg hr]

/-- The value is written out in full: no dots stand for a part of it. -/
structure WrittenOut (h : Heap) (depth : Nat) (path : List Ref) (r : Ref) : Prop where
  made : h.IsMadeOf plainKinds r
  nests : h.NestsWithin depth r
  above : h.Above path r

namespace WrittenOut

theorem not_mem (hr : h.WrittenOut depth path r) : r ∉ path :=
  hr.above.not_mem (hr.nests.not_encloses_self hr.made)

theorem part (hr : h.WrittenOut (depth + 1) path r) (hs : s ∈ (h.value r).parts) :
    h.WrittenOut depth (r :: path) s :=
  ⟨hr.made.part hs, hr.nests s hs, hr.above.part hs⟩

theorem depth_pos (hr : h.WrittenOut depth path r)
    (hv : (h.value r).kind = .list ∨ (h.value r).kind = .dictionary) :
    ∃ depth', depth = depth' + 1 := by
  cases depth with
  | zero => exact (hv.elim hr.nests.1 hr.nests.2).elim
  | succ depth' => exact ⟨depth', rfl⟩

end WrittenOut

/-- The text of a value tells its kind. -/
theorem WrittenOut.ofText? (hr : h.WrittenOut depth path r) {rest : List Char}
    (hrest : Stops rest) :
    Kind.ofText? ((h.textAt depth path r).toList ++ rest) = some (h.value r).kind := by
  cases hv : h.value r with
  | number n =>
    rw [textAt_number hv]
    exact Kind.ofText?_number n hrest
  | string text =>
    rw [textAt_string hv, quote, String.toList_ofList]
    rfl
  | blob bytes =>
    rw [textAt_blob hv, Blob.toList_blobText]
    rfl
  | list items =>
    obtain ⟨depth', rfl⟩ := hr.depth_pos (.inl (congrArg Value.kind hv))
    rw [textAt_list hv hr.not_mem, toList_listText]
    rfl
  | dictionary entries =>
    obtain ⟨depth', rfl⟩ := hr.depth_pos (.inr (congrArg Value.kind hv))
    rw [textAt_dictionary hv hr.not_mem, toList_dictionaryText]
    rfl
  | float x =>
    have hkind := hr.made.kind_mem
    simp [hv, Value.kind, plainKinds] at hkind
  | funcref f =>
    have hkind := hr.made.kind_mem
    simp [hv, Value.kind, plainKinds] at hkind

theorem WrittenOut.begins (hr : h.WrittenOut depth path r) : Begins (h.textAt depth path r) := by
  have hkind := hr.ofText? stops_nil
  rw [List.append_nil] at hkind
  exact Kind.begins_of_ofText? hkind

/-! ## Values -/

theorem forall₂_values {R : Ref → Ref → Prop} {xs ys : Table Ref}
    (hentries : List.Forall₂ (fun x y : String × Ref => x.1 = y.1 ∧ R x.2 y.2)
      xs.entries ys.entries) :
    xs.keys = ys.keys ∧ List.Forall₂ R xs.values ys.values := by
  constructor
  · refine List.forall₂_eq_eq_eq.subst (motive := fun r => r xs.keys ys.keys) ?_
    exact List.forall₂_map_left_iff.2 (List.forall₂_map_right_iff.2
      (hentries.imp fun _ _ hentry => hentry.1))
  · exact List.forall₂_map_left_iff.2 (List.forall₂_map_right_iff.2
      (hentries.imp fun _ _ hentry => hentry.2))

section Containers

variable {path' : List Ref} {r' : Ref} (hr : h.WrittenOut (depth + 1) path r)
  (hr' : h'.WrittenOut (depth + 1) path' r')
  (hparts : ∀ s ∈ (h.value r).parts, ∀ s' ∈ (h'.value r').parts,
    ReadsBack (h.Alike h') (h.textAt depth (r :: path)) (h'.textAt depth (r' :: path')) s s')

include hr hr' hparts

theorem readsBack_list {items items' : List Ref} (hv : h.value r = .list items)
    (hv' : h'.value r' = .list items') :
    ReadsBack (h.Alike h') (h.textAt (depth + 1) path) (h'.textAt (depth + 1) path') r r' := by
  intro rest rest' _ _ htext
  have hbegins : ∀ s ∈ items, Begins (h.textAt depth (r :: path) s) := fun s hs =>
    (hr.part (by rw [hv]; exact hs)).begins
  have hbegins' : ∀ s ∈ items', Begins (h'.textAt depth (r' :: path') s) := fun s hs =>
    (hr'.part (by rw [hv']; exact hs)).begins
  rw [hv, hv'] at hparts
  rw [textAt_list hv hr.not_mem, textAt_list hv' hr'.not_mem, toList_listText,
    toList_listText] at htext
  obtain ⟨hitems, hrest⟩ := commaSeparated_inj (show isStop ']' = true from rfl) (by decide)
    hbegins hbegins' hparts (List.cons.inj htext).2
  exact ⟨.list hv hv' hitems, hrest⟩

theorem readsBack_dictionary {entries entries' : Table Ref} (hv : h.value r = .dictionary entries)
    (hv' : h'.value r' = .dictionary entries') :
    ReadsBack (h.Alike h') (h.textAt (depth + 1) path) (h'.textAt (depth + 1) path') r r' := by
  intro rest rest' _ _ htext
  have hbegins (f : Ref → String) (entry : String × Ref) : Begins (entryText f entry) := by
    have hquote := toList_entryText f entry []
    rw [List.append_nil, quote, String.toList_ofList] at hquote
    exact ⟨'\'', _, hquote, rfl⟩
  rw [hv, hv'] at hparts
  have hentry : ∀ x ∈ entries.entries, ∀ y ∈ entries'.entries,
      ReadsBack (fun x y : String × Ref => x.1 = y.1 ∧ h.Alike h' x.2 y.2)
        (entryText (h.textAt depth (r :: path)))
        (entryText (h'.textAt depth (r' :: path'))) x y := by
    intro x hx y hy rest rest' hrest hrest' heq
    rw [toList_entryText, toList_entryText] at heq
    -- the quote at the end of a key is not doubled, for a colon follows it
    obtain ⟨hkey, hvalue⟩ := quote_append_inj (by simp) (by simp) heq
    obtain ⟨halike, hrest⟩ := hparts _ (List.mem_map_of_mem hx) _ (List.mem_map_of_mem hy)
      hrest hrest' (List.cons.inj (List.cons.inj hvalue).2).2
    exact ⟨⟨hkey, halike⟩, hrest⟩
  rw [textAt_dictionary hv hr.not_mem, textAt_dictionary hv' hr'.not_mem, toList_dictionaryText,
    toList_dictionaryText] at htext
  have hstop : isStop '\x7d' = true := rfl
  obtain ⟨hentries, hrest⟩ := commaSeparated_inj hstop (by decide) (fun x _ => hbegins _ x)
    (fun y _ => hbegins _ y) hentry (List.cons.inj htext).2
  obtain ⟨hkeys, hvalues⟩ := forall₂_values hentries
  exact ⟨.dictionary hv hv' hkeys hvalues, hrest⟩

end Containers

/-- A value is read back from its text, whatever stops it. -/
theorem WrittenOut.readsBack {path' : List Ref} {r' : Ref} (hr : h.WrittenOut depth path r)
    (hr' : h'.WrittenOut depth path' r') :
    ReadsBack (h.Alike h') (h.textAt depth path) (h'.textAt depth path') r r' := by
  induction depth using Nat.strongRecOn generalizing path path' r r' with
  | _ depth ih =>
  intro rest rest' hrest hrest' htext
  have hkind : (h.value r).kind = (h'.value r').kind := by
    have hread := hr.ofText? hrest
    rw [htext, hr'.ofText? hrest'] at hread
    exact (Option.some.inj hread).symm
  have hmade := hr.made.kind_mem
  cases hv : h.value r <;> cases hv' : h'.value r' <;>
    simp only [hv, hv', Value.kind, reduceCtorEq] at hkind
  case number.number m n =>
    rw [textAt_number hv, textAt_number hv'] at htext
    obtain ⟨hword, hrest⟩ := append_inj_of_stops (fun c hc => Number.isStop_of_mem_toText hc)
      (fun c hc => Number.isStop_of_mem_toText hc) hrest hrest' htext
    obtain rfl := Number.toText_inj (String.toList_inj.1 hword)
    exact ⟨.number hv hv', hrest⟩
  case string.string s t =>
    rw [textAt_string hv, textAt_string hv'] at htext
    obtain ⟨rfl, hrest⟩ := quote_append_inj (hrest.head?_ne rfl) (hrest'.head?_ne rfl) htext
    exact ⟨.string hv hv', hrest⟩
  case blob.blob bytes bytes' =>
    rw [textAt_blob hv, textAt_blob hv'] at htext
    obtain ⟨hword, hrest⟩ := append_inj_of_stops (fun c hc => Blob.isStop_of_mem_blobText hc)
      (fun c hc => Blob.isStop_of_mem_blobText hc) hrest hrest' htext
    obtain rfl := Blob.blobText_inj hword
    exact ⟨.blob hv hv', hrest⟩
  case list.list items items' =>
    obtain ⟨depth, rfl⟩ := hr.depth_pos (.inl (congrArg Value.kind hv))
    exact readsBack_list hr hr' (fun s hs s' hs' =>
      ih depth (Nat.lt_succ_self depth) (hr.part hs) (hr'.part hs')) hv hv' hrest hrest' htext
  case dictionary.dictionary entries entries' =>
    obtain ⟨depth, rfl⟩ := hr.depth_pos (.inr (congrArg Value.kind hv))
    exact readsBack_dictionary hr hr' (fun s hs s' hs' =>
      ih depth (Nat.lt_succ_self depth) (hr.part hs) (hr'.part hs')) hv hv' hrest hrest' htext
  case float.float => simp [hv, Value.kind, plainKinds] at hmade
  case funcref.funcref => simp [hv, Value.kind, plainKinds] at hmade

/-- Two values of Numbers, Strings, Blobs, Lists and Dictionaries that are nested at most as deep
as texts show have different texts unless they have the same contents at every position. No
container in them lies in itself, or it would be nested without an end. -/
theorem alike_of_textAt_eq {r' : Ref} (hmade : h.IsMadeOf plainKinds r)
    (hmade' : h'.IsMadeOf plainKinds r') (hnests : h.NestsWithin depth r)
    (hnests' : h'.NestsWithin depth r') (htext : h.textAt depth [] r = h'.textAt depth [] r') :
    h.Alike h' r r' := by
  have hr : h.WrittenOut depth [] r := ⟨hmade, hnests, h.above_nil r⟩
  have hr' : h'.WrittenOut depth [] r' := ⟨hmade', hnests', h'.above_nil r'⟩
  exact (hr.readsBack hr' stops_nil stops_nil (congrArg (·.toList ++ []) htext)).1

/-- Two Lists of a Number and of a Dictionary whose key and entry have quotes. -/
def twoLists : Heap :=
  ⟨#[.fresh (.list [⟨1⟩, ⟨2⟩]), .fresh (.number (-7)),
    .fresh (.dictionary (.ofList [("it's", ⟨3⟩)])),
    .fresh (.string "', '"), .fresh (.list [⟨5⟩, ⟨6⟩]), .fresh (.number (-7)),
    .fresh (.dictionary (.ofList [("it's", ⟨7⟩)])), .fresh (.string "', '")]⟩

theorem twoLists_alike :
    twoLists.textAt 2 [] ⟨0⟩ = twoLists.textAt 2 [] ⟨4⟩ ∧ twoLists.Alike twoLists ⟨0⟩ ⟨4⟩ := by
  have htext : twoLists.textAt 2 [] ⟨0⟩ = twoLists.textAt 2 [] ⟨4⟩ := by decide +kernel
  refine ⟨htext, alike_of_textAt_eq ?_ ?_ (by decide) (by decide) htext⟩
  · exact isMadeOf_of_closed [⟨0⟩, ⟨1⟩, ⟨2⟩, ⟨3⟩] (by decide) (by decide) (by decide)
  · exact isMadeOf_of_closed [⟨4⟩, ⟨5⟩, ⟨6⟩, ⟨7⟩] (by decide) (by decide) (by decide)

end Heap

end VimL
