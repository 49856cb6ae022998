import Mathlib.Data.List.TakeWhile
import Mathlib.Data.Nat.Digits.Defs
import VimL.Proofs.Arithmetic
import VimL.Proofs.JsonText

/-!
# The grammar of numerals

A numeral that begins a text has a sign, if any, and the longest run of digits of its base: after a
letter for the base, or else of decimal digits, which may turn out to be octal. A letter without a
digit after it is no part of the numeral. On ASCII texts reading follows this grammar, and the text
of a Number is read as that Number.
-/

namespace VimL

namespace Numeral

variable {text digits : List Char} {base : Nat}

/-! ## The grammar -/

/-- What a character stands for as a digit, or sixteen if it is none. -/
def digitOf (c : Char) : Nat := "0123456789abcdef".toList.idxOf c.toLower

/-- These are the digits of the base at the start of the text, as many as follow one another, and
there is at least one. -/
structure LongestRun (base : Nat) (text digits : List Char) : Prop where
  ne_nil : digits ≠ []
  begins : digits <+: text
  digit : ∀ c ∈ digits, digitOf c < base
  longest : ∀ more, more <+: text → (∀ c ∈ more, digitOf c < base) → more.length ≤ digits.length

/-- After a zero and one of these letters there are digits of the base. -/
def Prefixed (letters : List Char) (base : Nat) (text digits : List Char) : Prop :=
  ∃ letter ∈ letters, ∃ rest, text = '0' :: letter :: rest ∧ LongestRun base rest digits

def IsOctal (digits : List Char) : Prop :=
  2 ≤ digits.length ∧ digits.head? = some '0' ∧ ∀ c ∈ digits, digitOf c < 8

instance (digits : List Char) : Decidable (IsOctal digits) :=
  have : Decidable (∀ c ∈ digits, digitOf c < 8) := List.decidableBAll _ digits
  inferInstanceAs (Decidable (_ ∧ _ ∧ _))

/-- A numeral without a sign begins the text, with these digits of this base. -/
inductive Spells (text : List Char) : Nat → List Char → Prop where
  | hexadecimal {digits : List Char} (h : Prefixed ['x', 'X'] 16 text digits) :
      Spells text 16 digits
  | binary {digits : List Char} (h : Prefixed ['b', 'B'] 2 text digits) : Spells text 2 digits
  | octal {digits : List Char} (hhex : ∀ digits, ¬Prefixed ['x', 'X'] 16 text digits)
      (hbinary : ∀ digits, ¬Prefixed ['b', 'B'] 2 text digits) (h : LongestRun 10 text digits)
      (hoctal : IsOctal digits) : Spells text 8 digits
  | decimal {digits : List Char} (hhex : ∀ digits, ¬Prefixed ['x', 'X'] 16 text digits)
      (hbinary : ∀ digits, ¬Prefixed ['b', 'B'] 2 text digits) (h : LongestRun 10 text digits)
      (hoctal : ¬IsOctal digits) : Spells text 10 digits

/-- The text after its sign, if it has one. -/
def unsigned : List Char → List Char
  | '-' :: rest | '+' :: rest => rest
  | text => text

/-- The number that the digits write, the first one being the highest. -/
def magnitude (base : Nat) (digits : List Char) : Nat :=
  Nat.ofDigits base (digits.map digitOf).reverse

/-- The integer of the numeral that begins the text, or zero if there is none. -/
inductive Denotes (text : List Char) : Int → Prop where
  | positive {base : Nat} {digits : List Char} (hsign : text.head? ≠ some '-')
      (h : Spells (unsigned text) base digits) : Denotes text (magnitude base digits)
  | negative {base : Nat} {digits : List Char} (hsign : text.head? = some '-')
      (h : Spells (unsigned text) base digits) : Denotes text (-magnitude base digits)
  | absent (h : ∀ base digits, ¬Spells (unsigned text) base digits) : Denotes text 0

/-- The text begins with more decimal digits than are read. -/
def Oversized (text : List Char) : Prop :=
  ∃ digits, Spells (unsigned text) 10 digits ∧ maxDecimalDigits < digits.length

/-! ## Runs of digits -/

/-- The digits at the start of the text. -/
def digitsIn (base : Nat) (text : List Char) : List Char :=
  text.takeWhile fun c => decide (digitOf c < base)

theorem begins_digitsIn (base : Nat) (text : List Char) : digitsIn base text <+: text :=
  List.takeWhile_prefix _

theorem digitOf_lt_of_mem_digitsIn {c : Char} (hc : c ∈ digitsIn base text) : digitOf c < base :=
  of_decide_eq_true (List.mem_takeWhile_imp (p := fun c => decide (digitOf c < base)) hc)

theorem length_le_length_digitsIn (hbegins : digits <+: text)
    (hdigit : ∀ c ∈ digits, digitOf c < base) : digits.length ≤ (digitsIn base text).length := by
  obtain ⟨rest, rfl⟩ := hbegins
  rw [digitsIn, List.takeWhile_append_of_pos fun c hc => decide_eq_true (hdigit c hc),
    List.length_append]
  exact Nat.le_add_right _ _

theorem longestRun_iff :
    LongestRun base text digits ↔ digits = digitsIn base text ∧ digits ≠ [] := by
  constructor
  · intro h
    refine ⟨?_, h.ne_nil⟩
    have hlonger := h.longest _ (begins_digitsIn base text) fun c => digitOf_lt_of_mem_digitsIn
    have hshorter := length_le_length_digitsIn h.begins h.digit
    have hwithin := List.prefix_of_prefix_length_le h.begins (begins_digitsIn base text) hshorter
    exact hwithin.eq_of_length_le hlonger
  · rintro ⟨rfl, hne⟩
    exact ⟨hne, begins_digitsIn base text, fun c => digitOf_lt_of_mem_digitsIn,
      fun more => length_le_length_digitsIn⟩

/-! ## Digits in ASCII texts -/

theorem forall_ascii {P : Char → Prop} (h : ∀ n : Fin 128, P (Char.ofNat n)) (c : Char)
    (hc : c.toNat < 128) : P c := by
  have hchar := h ⟨c.toNat, hc⟩
  rwa [Char.ofNat_toNat] at hchar

/-- Among ASCII characters these are the digits of the base. -/
def ReadsDigits (value? : Char → Option Nat) (base : Nat) : Prop :=
  ∀ c : Char, c.toNat < 128 → value? c = if digitOf c < base then some (digitOf c) else none

theorem readsDigits_hexValue? : ReadsDigits Text.hexValue? 16 :=
  forall_ascii (by decide +kernel)

theorem readsDigits_digitValue? : ReadsDigits Text.digitValue? 10 :=
  forall_ascii (by decide +kernel)

theorem readsDigits_octalValue? : ReadsDigits octalValue? 8 :=
  forall_ascii (by decide +kernel)

theorem readsDigits_binaryValue? : ReadsDigits binaryValue? 2 :=
  forall_ascii (by decide +kernel)

theorem ReadsDigits.digitsWhile_eq {value? : Char → Option Nat} (hvalue : ReadsDigits value? base)
    (hascii : ∀ c ∈ text, c.toNat < 128) :
    digitsWhile value? text = (digitsIn base text).map digitOf := by
  induction text with
  | nil => rfl
  | cons c rest ih =>
    have hrest := ih fun c hc => hascii c (List.mem_cons_of_mem _ hc)
    have hc := hvalue c (hascii c List.mem_cons_self)
    by_cases hdigit : digitOf c < base
    · rw [if_pos hdigit] at hc
      simp only [digitsWhile, hc, hrest, digitsIn, List.takeWhile_cons, hdigit, decide_true,
        if_true, List.map_cons]
    · rw [if_neg hdigit] at hc
      simp [digitsWhile, hc, digitsIn, hdigit]

theorem octal_iff (hascii : ∀ c ∈ digits, c.toNat < 128) :
    scanUnsigned.octal digits = true ↔ IsOctal digits := by
  have hoctal (c : Char) (hc : c.toNat < 128) :
      (octalValue? c).isSome = true ↔ digitOf c < 8 := by
    rw [readsDigits_octalValue? c hc]
    split <;> simp [*]
  unfold scanUnsigned.octal IsOctal
  split
  · rename_i rest
    have hzero : digitOf '0' < 8 := by decide
    have hrest : (rest.all fun c => (octalValue? c).isSome) = true ↔
        ∀ c ∈ rest, digitOf c < 8 := by
      rw [List.all_eq_true]
      exact forall₂_congr fun c hc => hoctal c (hascii c (List.mem_cons_of_mem _ hc))
    rw [Bool.and_eq_true, hrest]
    cases rest <;> simp [hzero]
  · rename_i hne
    simp only [Bool.false_eq_true, false_iff]
    rintro ⟨-, hhead, -⟩
    obtain ⟨rest, rfl⟩ := List.head?_eq_some_iff.1 hhead
    exact hne rest rfl

/-! ## Reading -/

/-- What is read if there is no letter for a base, or no digit after it. -/
theorem decimal_digitsIn (hascii : ∀ c ∈ text, c.toNat < 128) :
    scanUnsigned.decimal text ((digitsIn 10 text).map digitOf) =
      if digitsIn 10 text = [] then none
      else if IsOctal (digitsIn 10 text) then some (8, (digitsIn 10 text).map digitOf)
      else some (10, (digitsIn 10 text).map digitOf) := by
  have hwithin := begins_digitsIn 10 text
  have htake : text.take ((digitsIn 10 text).map digitOf).length = digitsIn 10 text := by
    rw [List.length_map]
    exact (List.prefix_iff_eq_take.1 hwithin).symm
  have hoctal := octal_iff fun c hc => hascii c (hwithin.subset hc)
  unfold scanUnsigned.decimal
  rw [htake]
  simp only [List.isEmpty_map, List.isEmpty_iff, hoctal]

/-- Each of these letters, after a zero, stands for the base. -/
structure StandsFor (letters : List Char) (base : Nat) (value? : Char → Option Nat) : Prop where
  digits : ReadsDigits value? base
  letter : ∀ letter ∈ letters, 10 ≤ digitOf letter
  scan : ∀ letter ∈ letters, ∀ rest, scanUnsigned ('0' :: letter :: rest) =
    scanUnsigned.prefixed base (digitsWhile value? rest)

theorem standsFor_hexadecimal : StandsFor ['x', 'X'] 16 Text.hexValue? := by
  refine ⟨readsDigits_hexValue?, fun letter hletter => ?_, fun letter hletter rest => ?_⟩
  · rcases List.mem_pair.1 hletter with rfl | rfl <;> decide
  · rcases List.mem_pair.1 hletter with rfl | rfl <;> rfl

theorem standsFor_binary : StandsFor ['b', 'B'] 2 binaryValue? := by
  refine ⟨readsDigits_binaryValue?, fun letter hletter => ?_, fun letter hletter rest => ?_⟩
  · rcases List.mem_pair.1 hletter with rfl | rfl <;> decide
  · rcases List.mem_pair.1 hletter with rfl | rfl <;> rfl

namespace StandsFor

variable {letters : List Char} {value? : Char → Option Nat}

theorem scanUnsigned_of_prefixed (hbase : StandsFor letters base value?)
    (hascii : ∀ c ∈ text, c.toNat < 128) (h : Prefixed letters base text digits) :
    scanUnsigned text = some (base, digits.map digitOf) := by
  obtain ⟨letter, hletter, rest, rfl, hrun⟩ := h
  obtain ⟨rfl, hne⟩ := longestRun_iff.1 hrun
  have hrest (c : Char) (hc : c ∈ rest) : c.toNat < 128 :=
    hascii c (List.mem_cons_of_mem _ (List.mem_cons_of_mem _ hc))
  rw [hbase.scan letter hletter, hbase.digits.digitsWhile_eq hrest, scanUnsigned.prefixed, if_neg]
  simpa using hne

/-- Only the zero is read if there is no digit after the letter. -/
theorem scanUnsigned_of_unprefixed (hbase : StandsFor letters base value?) {letter : Char}
    {rest : List Char} (hletter : letter ∈ letters)
    (hascii : ∀ c ∈ '0' :: letter :: rest, c.toNat < 128)
    (hnone : ∀ digits, ¬Prefixed letters base ('0' :: letter :: rest) digits) :
    scanUnsigned ('0' :: letter :: rest) = scanUnsigned.decimal ('0' :: letter :: rest)
      ((digitsIn 10 ('0' :: letter :: rest)).map digitOf) := by
  have hempty : digitsIn base rest = [] := by
    by_contra hne
    exact hnone _ ⟨letter, hletter, rest, rfl, longestRun_iff.2 ⟨rfl, hne⟩⟩
  have hzero : digitsIn 10 ('0' :: letter :: rest) = ['0'] := by
    have hlast := Nat.not_lt.2 (hbase.letter letter hletter)
    have hfirst : digitOf '0' < 10 := by decide
    simp [digitsIn, hfirst, hlast]
  have hrest (c : Char) (hc : c ∈ rest) : c.toNat < 128 :=
    hascii c (List.mem_cons_of_mem _ (List.mem_cons_of_mem _ hc))
  rw [decimal_digitsIn hascii, hzero, hbase.scan letter hletter,
    hbase.digits.digitsWhile_eq hrest, hempty]
  rfl

end StandsFor

theorem scanUnsigned_of_unprefixed (hascii : ∀ c ∈ text, c.toNat < 128)
    (hhex : ∀ digits, ¬Prefixed ['x', 'X'] 16 text digits)
    (hbinary : ∀ digits, ¬Prefixed ['b', 'B'] 2 text digits) :
    scanUnsigned text = scanUnsigned.decimal text ((digitsIn 10 text).map digitOf) := by
  unfold scanUnsigned
  -- the four letters, and any other text
  split
  · exact standsFor_hexadecimal.scanUnsigned_of_unprefixed (by simp) hascii hhex
  · exact standsFor_hexadecimal.scanUnsigned_of_unprefixed (by simp) hascii hhex
  · exact standsFor_binary.scanUnsigned_of_unprefixed (by simp) hascii hbinary
  · exact standsFor_binary.scanUnsigned_of_unprefixed (by simp) hascii hbinary
  · rw [readsDigits_digitValue?.digitsWhile_eq hascii]

theorem Spells.scanUnsigned_eq (hascii : ∀ c ∈ text, c.toNat < 128) (h : Spells text base digits) :
    scanUnsigned text = some (base, digits.map digitOf) := by
  cases h with
  | hexadecimal h => exact standsFor_hexadecimal.scanUnsigned_of_prefixed hascii h
  | binary h => exact standsFor_binary.scanUnsigned_of_prefixed hascii h
  | octal hhex hbinary h hoctal =>
    obtain ⟨rfl, hne⟩ := longestRun_iff.1 h
    rw [scanUnsigned_of_unprefixed hascii hhex hbinary, decimal_digitsIn hascii, if_neg hne,
      if_pos hoctal]
  | decimal hhex hbinary h hoctal =>
    obtain ⟨rfl, hne⟩ := longestRun_iff.1 h
    rw [scanUnsigned_of_unprefixed hascii hhex hbinary, decimal_digitsIn hascii, if_neg hne,
      if_neg hoctal]

theorem scanUnsigned_eq_none (hascii : ∀ c ∈ text, c.toNat < 128)
    (h : ∀ base digits, ¬Spells text base digits) : scanUnsigned text = none := by
  have hhex (digits : List Char) : ¬Prefixed ['x', 'X'] 16 text digits :=
    fun hspelled => h 16 digits (.hexadecimal hspelled)
  have hbinary (digits : List Char) : ¬Prefixed ['b', 'B'] 2 text digits :=
    fun hspelled => h 2 digits (.binary hspelled)
  have hempty : digitsIn 10 text = [] := by
    by_contra hne
    have hrun := longestRun_iff.2 ⟨rfl, hne⟩
    by_cases hoctal : IsOctal (digitsIn 10 text)
    · exact h 8 _ (.octal hhex hbinary hrun hoctal)
    · exact h 10 _ (.decimal hhex hbinary hrun hoctal)
  rw [scanUnsigned_of_unprefixed hascii hhex hbinary, decimal_digitsIn hascii, if_pos hempty]

/-! ## Signs and values -/

theorem scan_eq (text : List Char) :
    scan text = (scanUnsigned (unsigned text)).map fun (base, digits) =>
      ⟨decide (text.head? = some '-'), base, digits⟩ := by
  unfold scan unsigned
  split
  · rfl
  · rfl
  · rename_i hminus hplus
    have hsign : ¬text.head? = some '-' := by
      intro hhead
      obtain ⟨rest, rfl⟩ := List.head?_eq_some_iff.1 hhead
      exact hminus rest rfl
    simp only [hsign, decide_false]

theorem ofDigits_map_digitOf (base : Nat) (digits : List Char) :
    Text.ofDigits base (digits.map digitOf) = magnitude base digits := by
  rw [magnitude, Nat.ofDigits_eq_foldr, List.foldr_reverse, Text.ofDigits]
  simp [Nat.mul_comm, Nat.add_comm]

theorem mem_of_mem_unsigned {c : Char} (hc : c ∈ unsigned text) : c ∈ text := by
  unfold unsigned at hc
  split at hc
  · exact List.mem_cons_of_mem _ hc
  · exact List.mem_cons_of_mem _ hc
  · exact hc

theorem read?_map_digitOf (negative : Bool) (base : Nat) (digits : List Char) :
    read? ⟨negative, base, digits.map digitOf⟩ =
      if base = 10 → digits.length ≤ maxDecimalDigits then
        some (if negative then -(magnitude base digits : Int) else magnitude base digits)
      else none := by
  unfold read? Readable value
  simp only [List.length_map, ofDigits_map_digitOf]

/-- A numeral is spelled in one way, up to the case of its digits. -/
theorem Spells.unique {base' : Nat} {digits' : List Char} (hascii : ∀ c ∈ text, c.toNat < 128)
    (h : Spells text base digits) (h' : Spells text base' digits') :
    base = base' ∧ digits.map digitOf = digits'.map digitOf := by
  have heq := (h.scanUnsigned_eq hascii).symm.trans (h'.scanUnsigned_eq hascii)
  exact Prod.mk.inj (Option.some.inj heq)

theorem denotes_iff_of_spells (hascii : ∀ c ∈ unsigned text, c.toNat < 128)
    (h : Spells (unsigned text) base digits) (n : Int) :
    Denotes text n ↔ n =
      if text.head? = some '-' then -(magnitude base digits : Int) else magnitude base digits := by
  constructor
  · intro hn
    cases hn with
    | absent hnone => exact absurd h (hnone _ _)
    | positive hsign h' =>
      obtain ⟨rfl, hdigits⟩ := h.unique hascii h'
      rw [if_neg hsign, magnitude, magnitude, hdigits]
    | negative hsign h' =>
      obtain ⟨rfl, hdigits⟩ := h.unique hascii h'
      rw [if_pos hsign, magnitude, magnitude, hdigits]
  · rintro rfl
    split
    · exact .negative ‹_› h
    · exact .positive ‹_› h

theorem denotes_iff_of_absent (h : ∀ base digits, ¬Spells (unsigned text) base digits) (n : Int) :
    Denotes text n ↔ n = 0 := by
  constructor
  · intro hn
    cases hn with
    | absent => rfl
    | positive _ h' => exact absurd h' (h _ _)
    | negative _ h' => exact absurd h' (h _ _)
  · rintro rfl
    exact .absent h

theorem oversized_iff (hascii : ∀ c ∈ unsigned text, c.toNat < 128)
    (h : Spells (unsigned text) base digits) :
    Oversized text ↔ base = 10 ∧ maxDecimalDigits < digits.length := by
  constructor
  · rintro ⟨digits', h', hlong⟩
    obtain ⟨rfl, hdigits⟩ := h.unique hascii h'
    have hlength := congrArg List.length hdigits
    rw [List.length_map, List.length_map] at hlength
    exact ⟨rfl, hlength ▸ hlong⟩
  · rintro ⟨rfl, hlong⟩
    exact ⟨digits, h, hlong⟩

end Numeral

namespace Number

open Numeral

theorem ofText?_of_spells {text : String} {base : Nat} {digits : List Char}
    (hascii : ∀ c ∈ unsigned text.toList, c.toNat < 128)
    (h : Spells (unsigned text.toList) base digits)
    (hfits : base = 10 → digits.length ≤ maxDecimalDigits) :
    ofText? text = some (wrap (if text.toList.head? = some '-' then -(magnitude base digits : Int)
      else magnitude base digits)) := by
  simp only [ofText?, scan_eq, h.scanUnsigned_eq hascii, Option.map_some, read?_map_digitOf,
    if_pos hfits, decide_eq_true_eq]

theorem ofText?_of_oversized {text : String} (hascii : ∀ c ∈ unsigned text.toList, c.toNat < 128)
    (h : Oversized text.toList) : ofText? text = none := by
  obtain ⟨digits, hspells, hlong⟩ := h
  have hread (negative : Bool) : read? ⟨negative, 10, digits.map digitOf⟩ = none := by
    rw [read?_map_digitOf, if_neg fun hfits => Nat.not_le.2 hlong (hfits rfl)]
  simp only [ofText?, scan_eq, hspells.scanUnsigned_eq hascii, Option.map_some, hread,
    Option.map_none]

theorem ofText?_of_absent {text : String} (hascii : ∀ c ∈ unsigned text.toList, c.toNat < 128)
    (h : ∀ base digits, ¬Spells (unsigned text.toList) base digits) : ofText? text = some 0 := by
  simp only [ofText?, scan_eq, scanUnsigned_eq_none hascii h, Option.map_none]

/-! ## The text of a Number -/

theorem digitOf_of_isDigit {c : Char} (hc : c.isDigit = true) :
    c.toNat < 128 ∧ digitOf c < 10 ∧ digitOf c = c.toNat - '0'.toNat := by
  have hascii : c.toNat < 128 := by
    simp only [Char.isDigit, Bool.and_eq_true, decide_eq_true_eq] at hc
    exact Nat.lt_of_le_of_lt hc.2 (by decide)
  exact ⟨hascii, forall_ascii (P := fun c => c.isDigit = true →
    digitOf c < 10 ∧ digitOf c = c.toNat - '0'.toNat) (by decide +kernel) c hascii hc⟩

theorem toDigits_ascii {n : Nat} {c : Char} (hc : c ∈ Nat.toDigits 10 n) : c.toNat < 128 :=
  (digitOf_of_isDigit (isDigit_of_mem_toDigits hc)).1

/-- The digits of a Number are read as decimal digits: only a zero that stands alone begins
them. -/
theorem spells_toDigits (n : Nat) : Spells (Nat.toDigits 10 n) 10 (Nat.toDigits 10 n) := by
  have hdigits (c : Char) (hc : c ∈ Nat.toDigits 10 n) : digitOf c < 10 :=
    (digitOf_of_isDigit (isDigit_of_mem_toDigits hc)).2.1
  have hall : digitsIn 10 (Nat.toDigits 10 n) = Nat.toDigits 10 n :=
    List.takeWhile_eq_self_iff.2 fun c hc => decide_eq_true (hdigits c hc)
  have hrun := longestRun_iff.2 ⟨hall.symm, Nat.toDigits_ne_nil⟩
  have hoctal : ¬IsOctal (Nat.toDigits 10 n) := by
    rintro ⟨hlength, hzero, -⟩
    obtain ⟨tail, htext⟩ := List.head?_eq_some_iff.1 hzero
    obtain ⟨-, rfl⟩ := Json.toDigits_eq_zero_cons htext
    rw [htext] at hlength
    exact absurd hlength (by decide)
  have hunprefixed {letters : List Char} {base : Nat} {value? : Char → Option Nat}
      (hbase : StandsFor letters base value?) (digits : List Char) :
      ¬Prefixed letters base (Nat.toDigits 10 n) digits := by
    rintro ⟨letter, hletter, rest, htext, -⟩
    have hlt := hdigits letter (htext ▸ List.mem_cons_of_mem _ List.mem_cons_self)
    exact absurd hlt (Nat.not_lt.2 (hbase.letter letter hletter))
  exact .decimal (hunprefixed standsFor_hexadecimal) (hunprefixed standsFor_binary) hrun hoctal

theorem magnitude_toDigits (n : Nat) : magnitude 10 (Nat.toDigits 10 n) = n := by
  have hmap : (Nat.toDigits 10 n).map digitOf =
      (Nat.toDigits 10 n).map fun c => c.toNat - '0'.toNat :=
    List.map_congr_left fun c hc => (digitOf_of_isDigit (isDigit_of_mem_toDigits hc)).2.2
  rw [← ofDigits_map_digitOf, hmap]
  exact Json.naturalOf_toDigits n

theorem head?_toDigits_ne (n : Nat) {c : Char} (hc : c.isDigit = false) :
    (Nat.toDigits 10 n).head? ≠ some c := by
  intro hhead
  have hdigit := isDigit_of_mem_toDigits (List.mem_of_head? hhead)
  rw [hc] at hdigit
  cases hdigit

theorem unsigned_toText (n : Int) : unsigned (toText n).toList = Nat.toDigits 10 n.natAbs := by
  unfold toText
  split
  · rw [String.toList_ofList, unsigned]
  · rw [String.toList_ofList]
    unfold unsigned
    split
    · rename_i htext
      exact absurd (congrArg List.head? htext) (head?_toDigits_ne _ (c := '-') (by decide))
    · rename_i htext
      exact absurd (congrArg List.head? htext) (head?_toDigits_ne _ (c := '+') (by decide))
    · rfl

theorem head?_toText_iff (n : Int) : (toText n).toList.head? = some '-' ↔ n < 0 := by
  unfold toText
  split
  · simp [*]
  · rw [String.toList_ofList]
    exact iff_of_false (head?_toDigits_ne _ (by decide)) ‹_›

/-- A Number is what its text stands for. -/
theorem ofText?_toText {n : Int} (hn : InRange n) : ofText? (toText n) = some n := by
  have hspells : Spells (unsigned (toText n).toList) 10 (Nat.toDigits 10 n.natAbs) := by
    rw [unsigned_toText]
    exact spells_toDigits n.natAbs
  have hascii : ∀ c ∈ unsigned (toText n).toList, c.toNat < 128 := by
    rw [unsigned_toText]
    exact fun c => toDigits_ascii
  have hlength : (Nat.toDigits 10 n.natAbs).length ≤ maxDecimalDigits := by
    refine Nat.le_trans ((Nat.length_toDigits_le_iff (k := 20) (by decide) (by decide)).2 ?_)
      (by decide)
    unfold InRange minimum maximum at hn
    omega
  rw [ofText?_of_spells hascii hspells fun _ => hlength]
  simp only [head?_toText_iff, magnitude_toDigits]
  have hvalue : (if n < 0 then -(n.natAbs : Int) else n.natAbs) = n := by
    split <;> omega
  rw [hvalue, wrap_of_inRange hn]

/-- A text in ASCII has one reading by the grammar, and it is read as that integer, wrapped, unless
it has too many digits. The decimal text of a Number is read as the Number. -/
theorem reading_follows_grammar :
    (∀ text : String, (∀ c ∈ text.toList, c.toNat < 128) →
      ∃ n, (∀ m, Denotes text.toList m ↔ m = n) ∧
        (¬Oversized text.toList → ∃ v, ofText? text = some v ∧ InRange v ∧ v ≡ n [ZMOD 2 ^ 64]) ∧
        (Oversized text.toList → ofText? text = none)) ∧
    ∀ n, InRange n → ofText? (toText n) = some n := by
  refine ⟨fun text hascii => ?_, fun n hn => ofText?_toText hn⟩
  have hrest : ∀ c ∈ unsigned text.toList, c.toNat < 128 :=
    fun c hc => hascii c (mem_of_mem_unsigned hc)
  by_cases hspells : ∃ base digits, Spells (unsigned text.toList) base digits
  · obtain ⟨base, digits, h⟩ := hspells
    refine ⟨_, denotes_iff_of_spells hrest h, fun hfits => ?_, ofText?_of_oversized hrest⟩
    rw [oversized_iff hrest h] at hfits
    have hread := ofText?_of_spells hrest h fun hbase =>
      Nat.not_lt.1 fun hlong => hfits ⟨hbase, hlong⟩
    exact ⟨_, hread, wrap_inRange _, wrap_modEq _⟩
  · have habsent : ∀ base digits, ¬Spells (unsigned text.toList) base digits :=
      fun base digits h => hspells ⟨base, digits, h⟩
    exact ⟨0, denotes_iff_of_absent habsent,
      fun _ => ⟨0, ofText?_of_absent hrest habsent, by decide, rfl⟩, ofText?_of_oversized hrest⟩

example : ofText? "017" = some 15 ∧ ofText? "019" = some 19 ∧ ofText? "0b2" = some 0 := by
  decide +kernel

/-- A numeral with a sign, of base sixteen, in front of more text; and the smallest Number. -/
theorem reading_follows_grammar_hexadecimal :
    (∀ c ∈ "-0x1Fg".toList, c.toNat < 128) ∧ ¬Oversized "-0x1Fg".toList ∧
    Denotes "-0x1Fg".toList (-31) ∧
    (∃ v, ofText? "-0x1Fg" = some v ∧ InRange v ∧ v ≡ -31 [ZMOD 2 ^ 64]) ∧
    InRange minimum ∧ ofText? (toText minimum) = some minimum := by
  have hascii : ∀ c ∈ "-0x1Fg".toList, c.toNat < 128 := by simp
  have hspells : Spells (unsigned "-0x1Fg".toList) 16 ['1', 'F'] :=
    .hexadecimal ⟨'x', by decide, ['1', 'F', 'g'], by decide,
      longestRun_iff.2 ⟨by decide, by decide⟩⟩
  have hdenotes : Denotes "-0x1Fg".toList (-31) := .negative (by decide) hspells
  have hfits : ¬Oversized "-0x1Fg".toList := by
    rw [oversized_iff (fun c hc => hascii c (mem_of_mem_unsigned hc)) hspells]
    decide
  have hminimum : InRange minimum := by decide
  obtain ⟨n, hn, hread, -⟩ := reading_follows_grammar.1 "-0x1Fg" hascii
  obtain rfl := (hn _).1 hdenotes
  exact ⟨hascii, hfits, hdenotes, hread hfits, hminimum,
    reading_follows_grammar.2 minimum hminimum⟩

end Number

end VimL
