import VimL.Json.Parser
import VimL.Proofs.Rendering
import VimL.Text.Blank

/-!
# Documents are read as they were written

Whatever is made of integers, texts, arrays and objects, however deep, the reader gets it back from
its compact text. A value is read up to the comma, the closing bracket or the end that follows it,
and it takes no more fuel than twice the length of its text.
-/

namespace VimL

namespace Json

/-- A document without truth values, reals and nulls, as values are written. -/
inductive Plain : Json → Prop where
  | integer {n : Int} (hn : Number.InRange n) : Plain (.integer n)
  | text (s : String) : Plain (.text s)
  | array {items : List Json} (hitems : ∀ j ∈ items, Plain j) : Plain (.array items)
  | object {entries : List (String × Json)} (hkeys : (entries.map (·.1)).Nodup)
      (hvalues : ∀ entry ∈ entries, Plain entry.2) : Plain (.object entries)

/-! ## Numbers -/

theorem toDigits_eq_zero_cons {n : Nat} {tail : List Char}
    (h : Nat.toDigits 10 n = '0' :: tail) : n = 0 ∧ tail = [] := by
  have hzero : n = 0 := by
    induction n using Nat.strongRecOn generalizing tail with
    | _ n ih =>
    rw [Nat.toDigits_eq_if (by decide)] at h
    split at h
    · rename_i hlt
      have hdigit : ∀ n < 10, n.digitChar = '0' → n = 0 := by decide
      exact hdigit n hlt (List.cons.inj h).1
    · rename_i hlt
      cases hfirst : Nat.toDigits 10 (n / 10) with
      | nil => exact absurd hfirst Nat.toDigits_ne_nil
      | cons c first =>
        rw [hfirst] at h
        obtain rfl := (List.cons.inj h).1
        have := ih (n / 10) (by omega) hfirst
        omega
  subst hzero
  exact ⟨rfl, (List.cons.inj (h.symm.trans (Nat.toDigits_zero 10))).2⟩

theorem naturalOf_toDigits (n : Nat) : naturalOf (Nat.toDigits 10 n) = n := by
  have hfold : naturalOf (Nat.toDigits 10 n) = Nat.ofDigitChars 10 (Nat.toDigits 10 n) 0 := by
    unfold naturalOf Text.ofDigits Nat.ofDigitChars
    rw [List.foldl_map]
    simp only [Nat.mul_comm]
  rw [hfold, Nat.ofDigitChars_ten_toDigits]

theorem numberOf_toDigits (negative : Bool) {n : Nat} (hn : n ≤ 9223372036854775808) :
    numberOf negative (Nat.toDigits 10 n) none none =
      .ok (.integer (if negative then -(n : Int) else n)) := by
  have hdigits : (Nat.toDigits 10 n).length ≤ 20 :=
    (Nat.length_toDigits_le_iff (by decide) (by decide)).2 (by omega)
  have hlength : (Nat.toDigits 10 n).length ≤ Numeral.maxDecimalDigits :=
    Nat.le_trans hdigits (by decide)
  simp only [numberOf, if_pos hlength, naturalOf_toDigits]

section Numbers

variable {rest : List Char} (hrest : Text.Stops rest)

include hrest

/-- What stops a value neither goes on with a Number nor is white space. -/
theorem head_of_stops {c : Char} {tail : List Char} (h : rest = c :: tail) :
    c = ',' ∨ c = ']' ∨ c = '\x7d' := by
  have hc := hrest c (by rw [h]; rfl)
  simp only [Text.isStop, Bool.or_eq_true, beq_iff_eq] at hc
  exact or_assoc.1 hc

theorem takeWhile_digits {digits : List Char} (hdigits : ∀ c ∈ digits, c.isDigit = true) :
    (digits ++ rest).takeWhile isAsciiDigit = digits ∧
      (digits ++ rest).dropWhile isAsciiDigit = rest := by
  have hall : ∀ c ∈ digits, isAsciiDigit c = true := hdigits
  rw [List.takeWhile_append_of_pos hall, List.dropWhile_append_of_pos hall]
  cases hcases : rest with
  | nil => simp
  | cons c tail => rcases head_of_stops hrest hcases with rfl | rfl | rfl <;> simp [isAsciiDigit]

theorem scanInteger_toDigits (n : Nat) :
    scanInteger (Nat.toDigits 10 n ++ rest) = some (Nat.toDigits 10 n, rest) := by
  have hdigits (c : Char) (hc : c ∈ Nat.toDigits 10 n) : c.isDigit = true :=
    Number.isDigit_of_mem_toDigits hc
  cases htext : Nat.toDigits 10 n with
  | nil => exact absurd htext Nat.toDigits_ne_nil
  | cons c tail =>
    rw [htext] at hdigits
    obtain ⟨htake, hdrop⟩ := takeWhile_digits hrest fun c hc =>
      hdigits c (List.mem_cons_of_mem _ hc)
    by_cases hc : c = '0'
    · subst hc
      obtain ⟨-, rfl⟩ := toDigits_eq_zero_cons htext
      rfl
    · have hdigit : isAsciiDigit c = true := hdigits c List.mem_cons_self
      rw [List.cons_append]
      unfold scanInteger
      split
      · rename_i heq
        exact absurd (List.cons.inj heq).1 hc
      · rename_i heq
        obtain ⟨rfl, rfl⟩ := List.cons.inj heq
        rw [if_pos hdigit, htake, hdrop]
      · rename_i heq
        cases heq

theorem scanFraction_eq_none : scanFraction rest = none := by
  cases hcases : rest with
  | nil => rfl
  | cons c tail => rcases head_of_stops hrest hcases with rfl | rfl | rfl <;> rfl

theorem scanExponent_eq_none : scanExponent rest = none := by
  cases hcases : rest with
  | nil => rfl
  | cons c tail => rcases head_of_stops hrest hcases with rfl | rfl | rfl <;> rfl

theorem readNumber_toDigits {n : Nat} (hn : n ≤ 9223372036854775808) :
    readNumber (Nat.toDigits 10 n ++ rest) = .ok (.integer n, rest) := by
  have hminus (tail : List Char) : Nat.toDigits 10 n ++ rest ≠ '-' :: tail := by
    intro heq
    cases htext : Nat.toDigits 10 n with
    | nil => exact absurd htext Nat.toDigits_ne_nil
    | cons c digits =>
      have hc : c.isDigit = true := Number.isDigit_of_mem_toDigits (htext ▸ List.mem_cons_self)
      rw [htext] at heq
      rw [(List.cons.inj heq).1] at hc
      exact absurd hc (by decide)
  unfold readNumber
  split
  rename_i negative unsigned hsign
  split at hsign
  · exact absurd ‹_› (hminus _)
  · obtain ⟨rfl, rfl⟩ := Prod.mk.inj hsign
    simp only [scanInteger_toDigits hrest, scanFraction_eq_none hrest, scanExponent_eq_none hrest,
      numberOf_toDigits false hn]
    rfl

theorem readNumber_negative {n : Nat} (hn : n ≤ 9223372036854775808) :
    readNumber ('-' :: Nat.toDigits 10 n ++ rest) = .ok (.integer (-n), rest) := by
  unfold readNumber
  simp only [List.cons_append, scanInteger_toDigits hrest, scanFraction_eq_none hrest,
    scanExponent_eq_none hrest, numberOf_toDigits true hn]
  rfl

theorem readNumber_toText {n : Int} (hn : Number.InRange n) :
    readNumber ((Number.toText n).toList ++ rest) = .ok (.integer n, rest) := by
  obtain ⟨hlow, hhigh⟩ := hn
  unfold Number.minimum at hlow
  unfold Number.maximum at hhigh
  unfold Number.toText
  split
  · rename_i hneg
    rw [String.toList_ofList, readNumber_negative hrest (by omega)]
    rw [show -(n.natAbs : Int) = n by omega]
  · rename_i hpos
    rw [String.toList_ofList, readNumber_toDigits hrest (by omega)]
    rw [show (n.natAbs : Int) = n by omega]

end Numbers

/-! ## Strings -/

theorem shortEscapeOf?_of_shortEscape? {c letter : Char} (h : shortEscape? c = some letter) :
    shortEscapeOf? letter = some c := by
  have hcode {n : Nat} (hc : c.toNat = n) : Char.ofNat n = c := by rw [← hc, Char.ofNat_toNat]
  unfold shortEscape? at h
  repeat' split at h
  · subst c
    cases h
    rfl
  · subst c
    cases h
    rfl
  · subst c
    cases h
    rfl
  · cases h
    exact congrArg some (hcode ‹_›)
  · cases h
    exact congrArg some (hcode ‹_›)
  · cases h

theorem partner_of_lt {code : Nat} (hcode : code < 0xD800) (rest : List Char) :
    stringBody.partner code rest = .ok (Char.ofNat code, rest) := by
  have hhigh : isHighSurrogate code = false := by
    simp only [isHighSurrogate, Bool.and_eq_false_iff, decide_eq_false_iff_not]
    omega
  have hchar : charOfCode code = Char.ofNat code := if_neg (by omega)
  unfold stringBody.partner
  rw [hchar]
  split
  · rw [if_neg (by simp [hhigh])]
  · rfl

theorem unicodeEscape?_hexDigits {n : Nat} (hn : n < 0x20) {tail : List Char} (htail : tail ≠ []) :
    unicodeEscape? (Text.padZeros 4 (Text.hexDigits n) ++ tail) = some (n, tail) := by
  have hall : ∀ n < 0x20, (Text.padZeros 4 (Text.hexDigits n)).length = 4 ∧
      hexCode? (Text.padZeros 4 (Text.hexDigits n)) = some n := by
    decide +kernel
  obtain ⟨hlength, hcode⟩ := hall n hn
  match hdigits : Text.padZeros 4 (Text.hexDigits n), hlength with
  | [a, b, c, d], _ =>
    rw [hdigits] at hcode
    simp [unicodeEscape?, hcode, htail]

section Strings

variable (opening : List Char) (fuel : Nat) {tail : List Char}

theorem stringBody_shortEscape {c letter : Char} (h : shortEscapeOf? letter = some c) :
    stringBody opening (fuel + 1) ('\\' :: letter :: tail) =
      stringBody.append c (stringBody opening fuel tail) := by
  have hletter : letter ≠ 'u' := by
    rintro rfl
    cases h
  rw [stringBody]
  · rw [h]
  · exact fun heq => hletter heq

theorem stringBody_plain {c : Char} (hquote : c ≠ '"') (hbackslash : c ≠ '\\')
    (hc : 0x20 ≤ c.toNat) :
    stringBody opening (fuel + 1) (c :: tail) =
      stringBody.append c (stringBody opening fuel tail) := by
  rw [stringBody]
  · rw [if_neg (by omega)]
  all_goals simp_all

theorem stringBody_control {n : Nat} (hn : n < 0x20) (htail : tail ≠ []) :
    stringBody opening (fuel + 1)
        ('\\' :: 'u' :: (Text.padZeros 4 (Text.hexDigits n) ++ tail)) =
      stringBody.append (Char.ofNat n) (stringBody opening fuel tail) := by
  rw [stringBody, unicodeEscape?_hexDigits hn htail]
  simp only [partner_of_lt (show n < 0xD800 by omega)]

theorem stringBody_encodeChar (c : Char) (htail : tail ≠ []) :
    stringBody opening (fuel + 1) (encodeChar c ++ tail) =
      stringBody.append c (stringBody opening fuel tail) := by
  unfold encodeChar
  split
  · rename_i hc
    rcases hc with rfl | rfl <;> exact stringBody_shortEscape opening fuel rfl
  · rename_i hc
    split
    · rename_i letter hletter
      exact stringBody_shortEscape opening fuel (shortEscapeOf?_of_shortEscape? hletter)
    · split
      · rename_i hcontrol
        have := stringBody_control opening fuel hcontrol htail
        rwa [Char.ofNat_toNat] at this
      · exact stringBody_plain opening fuel (fun h => hc (.inl h)) (fun h => hc (.inr h)) (by omega)

theorem encodeChar_ne_nil (c : Char) : encodeChar c ≠ [] := by
  unfold encodeChar
  repeat' split
  all_goals exact List.cons_ne_nil _ _

theorem stringBody_encode {chars : List Char} (hfuel : chars.length < fuel) :
    stringBody opening fuel (chars.flatMap encodeChar ++ '"' :: tail) = .ok (chars, tail) := by
  induction chars generalizing fuel with
  | nil =>
    obtain ⟨fuel, rfl⟩ := Nat.exists_eq_add_one_of_ne_zero (Nat.ne_of_gt hfuel)
    rw [List.flatMap_nil, List.nil_append, stringBody]
  | cons c chars ih =>
    obtain ⟨fuel, rfl⟩ := Nat.exists_eq_add_one_of_ne_zero (Nat.ne_zero_of_lt hfuel)
    rw [List.flatMap_cons, List.append_assoc, stringBody_encodeChar _ _ _ (by simp),
      ih _ (by simpa using hfuel)]
    rfl

end Strings

theorem length_le_flatMap_encodeChar (chars : List Char) :
    chars.length ≤ (chars.flatMap encodeChar).length := by
  induction chars with
  | nil => exact Nat.zero_le _
  | cons c chars ih =>
    have hc := List.length_pos_of_ne_nil (encodeChar_ne_nil c)
    rw [List.flatMap_cons, List.length_append, List.length_cons]
    omega

theorem readString_encodeString (s : String) (rest : List Char) :
    readString (encodeString s ++ rest) = .ok (s, rest) := by
  have hlength := length_le_flatMap_encodeChar s.toList
  simp only [encodeString, List.cons_append, List.append_assoc, List.nil_append, readString]
  rw [stringBody_encode _ _ (by simp only [List.length_append, List.length_cons]; omega)]
  simp only [String.ofList_toList]

/-! ## Values -/

/-- The reader gets the document back, whatever stops it. -/
def Reads (j : Json) : Prop :=
  ∀ {fuel : Nat} {rest : List Char}, Text.Stops rest → 2 * j.encode.length ≤ fuel →
    readValue fuel (j.encode ++ rest) = .ok (j, rest)

/-- The characters that a value begins with. -/
def openers : List Char := "\"[\x7b-0123456789".toList

theorem opener_cases : ∀ c ∈ openers, isSpace c = false ∧ Text.isStop c = false ∧
    Text.isBlank c = false ∧ c ≠ Char.ofNat 0xFEFF := by
  have hall : openers.all (fun c => !isSpace c && !Text.isStop c && !Text.isBlank c &&
      c != Char.ofNat 0xFEFF) = true := by
    decide
  intro c hc
  have h := List.all_eq_true.1 hall c hc
  simp only [Bool.and_eq_true, Bool.not_eq_true', bne_iff_ne] at h
  exact ⟨h.1.1.1, h.1.1.2, h.1.2, h.2⟩

theorem mem_openers_of_isDigit {c : Char} (h : c.isDigit = true) : c ∈ openers := by
  have hall : ∀ d < 10, Char.ofNat (48 + d) ∈ openers := by decide
  simp only [Char.isDigit, Bool.and_eq_true, decide_eq_true_eq] at h
  have hlow : 48 ≤ c.toNat := h.1
  have hhigh : c.toNat ≤ 57 := h.2
  have hc := hall (c.toNat - 48) (by omega)
  rwa [show 48 + (c.toNat - 48) = c.toNat by omega, Char.ofNat_toNat] at hc

/-- A value begins here. -/
def Opens (text : List Char) : Prop := ∃ c tail, text = c :: tail ∧ c ∈ openers

theorem skipSpace_comma (tail : List Char) : skipSpace (',' :: tail) = ',' :: tail := rfl

theorem skipSpace_colon (tail : List Char) : skipSpace (':' :: tail) = ':' :: tail := rfl

theorem skipSpace_of_opens {text : List Char} (h : Opens text) (rest : List Char) :
    skipSpace (text ++ rest) = text ++ rest := by
  obtain ⟨c, tail, rfl, hc⟩ := h
  exact List.dropWhile_cons_of_neg (by simp [(opener_cases c hc).1])

theorem opens_toText (n : Int) : Opens (Number.toText n).toList := by
  cases htext : (Number.toText n).toList with
  | nil => exact absurd htext (Number.toText_ne_nil n)
  | cons c tail =>
    refine ⟨c, tail, rfl, ?_⟩
    rcases Number.mem_toText (htext ▸ List.mem_cons_self) with rfl | hdigit
    · decide
    · exact mem_openers_of_isDigit hdigit

theorem opens_encodeString (s : String) : Opens (encodeString s) := ⟨'"', _, rfl, by decide⟩

theorem Plain.opens {j : Json} (hj : j.Plain) : Opens j.encode := by
  cases hj with
  | integer => exact opens_toText _
  | text s => exact opens_encodeString s
  | array => exact ⟨'[', _, rfl, by decide⟩
  | object => exact ⟨'\x7b', _, rfl, by decide⟩

theorem readScalar_toText (n : Int) {rest : List Char} (hrest : Text.Stops rest) :
    readScalar ((Number.toText n).toList ++ rest) =
      readNumber ((Number.toText n).toList ++ rest) := by
  cases htext : (Number.toText n).toList with
  | nil => exact absurd htext (Number.toText_ne_nil n)
  | cons c tail =>
    have hc : c = '-' ∨ c.isDigit = true := Number.mem_toText (htext ▸ List.mem_cons_self)
    -- no letter comes next, also after a sign
    have hletter := Number.tail_append_ne_cons 'I' htext hrest (by decide)
    unfold readScalar
    split <;> first | rfl | (exfalso; simp_all)

theorem reads_integer {n : Int} (hn : Number.InRange n) : Reads (.integer n) := by
  intro fuel rest hrest hfuel
  obtain ⟨c, tail, htext, -⟩ := opens_toText n
  have hc : c = '-' ∨ c.isDigit = true := Number.mem_toText (htext ▸ List.mem_cons_self)
  obtain ⟨fuel, rfl⟩ : ∃ n, fuel = n + 1 := by
    refine Nat.exists_eq_add_one_of_ne_zero ?_
    simp only [encode, htext, List.length_cons] at hfuel
    omega
  rw [encode, ← readNumber_toText hrest hn, ← readScalar_toText n hrest, htext, List.cons_append,
    readValue]
  all_goals
    intro rest' heq
    rw [(List.cons.inj heq).1] at hc
    exact absurd hc (by decide)

theorem reads_text (s : String) : Reads (.text s) := by
  intro fuel rest _ hfuel
  obtain ⟨fuel, rfl⟩ : ∃ n, fuel = n + 1 := by
    refine Nat.exists_eq_add_one_of_ne_zero ?_
    simp only [encode, encodeString, List.length_append, List.length_cons] at hfuel
    omega
  have hread := readString_encodeString s rest
  rw [encode, encodeString, List.cons_append, List.cons_append] at *
  rw [readValue, hread]

theorem opens_append {text : List Char} (h : Opens text) (rest : List Char) :
    Opens (text ++ rest) := by
  obtain ⟨c, tail, rfl, hc⟩ := h
  exact ⟨c, tail ++ rest, rfl, hc⟩

theorem encodeItems_cons {item : Json} {items : List Json} (h : items ≠ []) :
    encodeItems (item :: items) = item.encode ++ ',' :: encodeItems items := by
  rw [encodeItems]
  exact h

theorem encodeEntries_cons {key : String} {value : Json} {entries : List (String × Json)}
    (h : entries ≠ []) :
    encodeEntries ((key, value) :: entries) =
      encodeString key ++ ':' :: value.encode ++ ',' :: encodeEntries entries := by
  rw [encodeEntries]
  exact h

theorem Opens.ne_stop {text : List Char} (h : Opens text) {c : Char} (hc : Text.isStop c = true)
    (rest tail : List Char) : text ++ rest ≠ c :: tail := by
  obtain ⟨c', tail', rfl, hc'⟩ := h
  intro heq
  have hstop := (opener_cases c' hc').2.1
  rw [(List.cons.inj heq).1, hc] at hstop
  cases hstop

section Arrays

variable {items : List Json} (hopens : ∀ j ∈ items, Opens j.encode)
  (hitems : ∀ j ∈ items, Reads j)

include hopens

theorem opens_encodeItems (hne : items ≠ []) : Opens (encodeItems items) := by
  match items, hne with
  | [item], _ =>
    rw [encodeItems]
    exact hopens item List.mem_cons_self
  | item :: next :: rest, _ =>
    rw [encodeItems_cons (List.cons_ne_nil next rest)]
    exact opens_append (hopens item List.mem_cons_self) _

include hitems

theorem readItems_encodeItems (hne : items ≠ []) {fuel : Nat}
    (hfuel : 2 * (encodeItems items).length + 1 ≤ fuel) (rest : List Char) :
    readItems fuel (encodeItems items ++ ']' :: rest) = .ok (items, rest) := by
  induction items generalizing fuel with
  | nil => exact absurd rfl hne
  | cons item items ih =>
    obtain ⟨fuel, rfl⟩ := Nat.exists_eq_add_one_of_ne_zero (show fuel ≠ 0 by omega)
    have hitem : Reads item := hitems item List.mem_cons_self
    cases items with
    | nil =>
      rw [encodeItems] at hfuel ⊢
      rw [readItems, hitem (Text.stops_cons rfl rest) (by omega)]
      rfl
    | cons next items =>
      have hnext := opens_encodeItems (fun j hj => hopens j (List.mem_cons_of_mem _ hj))
        (List.cons_ne_nil next items)
      rw [encodeItems_cons (List.cons_ne_nil next items), List.length_append, List.length_cons]
        at hfuel
      rw [encodeItems_cons (List.cons_ne_nil next items), List.append_assoc, List.cons_append,
        readItems, hitem (Text.stops_cons rfl _) (by omega)]
      have hrest := ih (fun j hj => hopens j (List.mem_cons_of_mem _ hj))
        (fun j hj => hitems j (List.mem_cons_of_mem _ hj)) (List.cons_ne_nil next items)
        (show 2 * (encodeItems (next :: items)).length + 1 ≤ fuel by omega)
      simp only [skipSpace_comma, skipSpace_of_opens hnext, hrest]

theorem reads_array : Reads (.array items) := by
  intro fuel rest _ hfuel
  simp only [encode, List.length_append, List.length_cons, List.length_nil] at hfuel
  obtain ⟨fuel, rfl⟩ := Nat.exists_eq_add_one_of_ne_zero (show fuel ≠ 0 by omega)
  simp only [encode, List.cons_append, List.append_assoc, List.nil_append]
  rw [readValue]
  by_cases hne : items = []
  · subst hne
    rfl
  · have hopen := opens_encodeItems hopens hne
    rw [skipSpace_of_opens hopen]
    split
    · exact absurd ‹_› (hopen.ne_stop rfl _ _)
    · rw [readItems_encodeItems hopens hitems hne (by omega)]

end Arrays

section Objects

variable {entries : List (String × Json)}
  (hopens : ∀ entry ∈ entries, Opens entry.2.encode) (hvalues : ∀ entry ∈ entries, Reads entry.2)

theorem opens_encodeEntries (hne : entries ≠ []) : Opens (encodeEntries entries) := by
  match entries, hne with
  | [(key, value)], _ =>
    rw [encodeEntries]
    exact opens_append (opens_encodeString key) _
  | (key, value) :: next :: rest, _ =>
    rw [encodeEntries_cons (List.cons_ne_nil next rest), List.append_assoc]
    exact opens_append (opens_encodeString key) _

include hopens hvalues

theorem readEntries_encodeEntries (hne : entries ≠ []) {fuel : Nat}
    (hfuel : 2 * (encodeEntries entries).length + 1 ≤ fuel) (rest : List Char) :
    readEntries fuel (encodeEntries entries ++ '\x7d' :: rest) = .ok (entries, rest) := by
  induction entries generalizing fuel with
  | nil => exact absurd rfl hne
  | cons entry entries ih =>
    obtain ⟨key, value⟩ := entry
    obtain ⟨fuel, rfl⟩ := Nat.exists_eq_add_one_of_ne_zero (show fuel ≠ 0 by omega)
    have hopen : Opens value.encode := hopens _ List.mem_cons_self
    have hvalue : Reads value := hvalues _ List.mem_cons_self
    cases entries with
    | nil =>
      rw [encodeEntries, List.length_append, List.length_cons] at hfuel
      rw [encodeEntries, List.append_assoc, readEntries, readString_encodeString, List.cons_append]
      simp only [skipSpace_colon, skipSpace_of_opens hopen]
      rw [hvalue (Text.stops_cons rfl rest) (by omega)]
      rfl
    | cons next entries =>
      have hnext := opens_encodeEntries (List.cons_ne_nil next entries)
      rw [encodeEntries_cons (List.cons_ne_nil next entries), List.length_append,
        List.length_append, List.length_cons, List.length_cons] at hfuel
      rw [encodeEntries_cons (List.cons_ne_nil next entries), List.append_assoc, List.append_assoc,
        readEntries, readString_encodeString]
      simp only [List.cons_append, skipSpace_colon, skipSpace_of_opens hopen]
      rw [hvalue (Text.stops_cons rfl _) (by omega)]
      have hrest := ih (fun entry hentry => hopens entry (List.mem_cons_of_mem _ hentry))
        (fun entry hentry => hvalues entry (List.mem_cons_of_mem _ hentry))
        (List.cons_ne_nil next entries)
        (show 2 * (encodeEntries (next :: entries)).length + 1 ≤ fuel by omega)
      simp only [skipSpace_comma, skipSpace_of_opens hnext, hrest]

theorem reads_object (hkeys : (entries.map (·.1)).Nodup) : Reads (.object entries) := by
  intro fuel rest _ hfuel
  simp only [encode, List.length_append, List.length_cons, List.length_nil] at hfuel
  obtain ⟨fuel, rfl⟩ := Nat.exists_eq_add_one_of_ne_zero (show fuel ≠ 0 by omega)
  simp only [encode, List.cons_append, List.append_assoc, List.nil_append]
  rw [readValue]
  by_cases hne : entries = []
  · subst hne
    rfl
  · have hopen := opens_encodeEntries hne
    rw [skipSpace_of_opens hopen]
    split
    · exact absurd ‹_› (hopen.ne_stop rfl _ _)
    · rw [readEntries_encodeEntries hopens hvalues hne (by omega)]
      simp only [Table.entries_ofList hkeys]

end Objects

theorem Plain.reads {j : Json} (hj : j.Plain) : Reads j := by
  induction hj with
  | integer hn => exact reads_integer hn
  | text s => exact reads_text s
  | array hitems ih => exact reads_array (fun j hj => (hitems j hj).opens) ih
  | object hkeys hvalues ih =>
    exact reads_object (fun entry hentry => (hvalues entry hentry).opens) ih hkeys

theorem Plain.not_all_isBlank {j : Json} (hj : j.Plain) : j.encode.all Text.isBlank = false := by
  obtain ⟨c, tail, htext, hc⟩ := hj.opens
  rw [htext, List.all_cons, (opener_cases c hc).2.2.1, Bool.false_and]

/-- What is written is read again. -/
theorem Plain.parse_encode {j : Json} (hj : j.Plain) : parse j.encode = .ok j := by
  have hmark : j.encode.head? ≠ some (Char.ofNat 0xFEFF) := by
    obtain ⟨c, tail, htext, hc⟩ := hj.opens
    rw [htext]
    exact fun hhead => (opener_cases c hc).2.2.2 (Option.some.inj hhead)
  have hskip := skipSpace_of_opens hj.opens []
  have hread : readValue (2 * j.encode.length + 2) (j.encode ++ []) = .ok (j, []) :=
    hj.reads Text.stops_nil (by omega)
  rw [List.append_nil] at hskip hread
  rw [parse, if_neg hmark, hskip, hread]
  rfl

end Json

end VimL
