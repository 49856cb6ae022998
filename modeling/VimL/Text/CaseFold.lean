import VimL.Text.CaseMap

namespace VimL.Text

/-!
# Letters that count as equal when case is ignored

Two letters are variants of each other if their small forms are the same, or if the small forms
stand in one of the rows below: small letters that share a capital, or nearly do.
-/

/-- Rows of small letters that are variants of each other. -/
def variantRows : List (List Nat) :=
  [[0x69, 0x131], [0x73, 0x17F], [0xB5, 0x3BC], [0x345, 0x3B9, 0x1FBE], [0x390, 0x1FD3],
   [0x3B0, 0x1FE3], [0x3B2, 0x3D0], [0x3B5, 0x3F5], [0x3B8, 0x3D1], [0x3BA, 0x3F0],
   [0x3C0, 0x3D6], [0x3C1, 0x3F1], [0x3C2, 0x3C3], [0x3C6, 0x3D5], [0x432, 0x1C80],
   [0x434, 0x1C81], [0x43E, 0x1C82], [0x441, 0x1C83], [0x442, 0x1C84, 0x1C85], [0x44A, 0x1C86],
   [0x463, 0x1C87], [0x1C88, 0xA64B], [0x1E61, 0x1E9B], [0xFB05, 0xFB06]]

/-- The small letters that are variants of a small letter, itself among them. -/
def smallVariants (n : Nat) : List Nat :=
  match variantRows.find? (·.contains n) with
  | some row => row
  | none => [n]

/-- The two characters are equal but for case. -/
def sameLetter (a b : Char) : Bool :=
  (smallVariants (lowerLetter a).toNat).contains (lowerLetter b).toNat

/-- The code points whose small form is the given one. -/
def withSmallForm (n : Nat) : List Nat :=
  let capitals := lowerRuns.filterMap fun r =>
    let m := ((n : Int) - r.shift).toNat
    if r.range.contains m ∧ (m : Int) + r.shift = n then some m else none
  let dotted := if n = 'i'.toNat then [0x130] else []
  let itself := if (lowerLetter (Char.ofNat n)).toNat = n then [n] else []
  itself ++ dotted ++ capitals

/-- A variant of the character lies in an interval of code points. -/
def variantBetween (first last : Nat) (c : Char) : Bool :=
  (smallVariants (lowerLetter c).toNat).any fun small =>
    (withSmallForm small).any fun n => decide (first ≤ n) && decide (n ≤ last)

end VimL.Text
