namespace VimL.Text.Utf8

/-!
# Lenient UTF-8

Every row of bytes decodes. The longest start of a character that cannot be completed becomes one
replacement character, and reading goes on at the byte that did not fit.
-/

def replacement : Char := Char.ofNat 0xFFFD

/-- An unfinished character: its bits so far, the bytes it still needs, and the bounds that the
next of them has to keep. -/
structure Pending where
  bits : Nat
  needed : Nat
  low : Nat
  high : Nat

/-- What a first byte begins. -/
inductive Lead where
  | complete (c : Char)
  | begins (pending : Pending)
  | invalid

def lead (b : Nat) : Lead :=
  if b ≤ 0x7F then .complete (Char.ofNat b)
  else if 0xC2 ≤ b ∧ b ≤ 0xDF then .begins ⟨b - 0xC0, 1, 0x80, 0xBF⟩
  else if b = 0xE0 then .begins ⟨0, 2, 0xA0, 0xBF⟩
  else if b = 0xED then .begins ⟨0xD, 2, 0x80, 0x9F⟩
  else if 0xE1 ≤ b ∧ b ≤ 0xEF then .begins ⟨b - 0xE0, 2, 0x80, 0xBF⟩
  else if b = 0xF0 then .begins ⟨0, 3, 0x90, 0xBF⟩
  else if b = 0xF4 then .begins ⟨4, 3, 0x80, 0x8F⟩
  else if 0xF1 ≤ b ∧ b ≤ 0xF3 then .begins ⟨b - 0xF0, 3, 0x80, 0xBF⟩
  else .invalid

/-- Decode the bytes that follow an unfinished character, if there is one. -/
def decodeFrom : Option Pending → List UInt8 → List Char
  | none, [] => []
  | some _, [] => [replacement]
  | none, b :: rest => start b.toNat rest
  | some p, b :: rest =>
    if p.low ≤ b.toNat ∧ b.toNat ≤ p.high then
      let bits := p.bits * 64 + (b.toNat - 0x80)
      if p.needed = 1 then Char.ofNat bits :: decodeFrom none rest
      else decodeFrom (some ⟨bits, p.needed - 1, 0x80, 0xBF⟩) rest
    else replacement :: start b.toNat rest
where
  start (b : Nat) (rest : List UInt8) : List Char :=
    match lead b with
    | .complete c => c :: decodeFrom none rest
    | .begins p => decodeFrom (some p) rest
    | .invalid => replacement :: decodeFrom none rest

def decode (bytes : List UInt8) : String := String.ofList (decodeFrom none bytes)

end VimL.Text.Utf8
