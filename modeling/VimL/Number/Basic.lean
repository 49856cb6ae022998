namespace VimL.Number

/-!
# Numbers

A Number is an integer of 64 bits in two's complement. Sums, differences and products are taken
exactly and then wrapped; division rounds toward zero, and dividing by zero gives the largest
magnitude instead of failing.
-/

def minimum : Int := -9223372036854775808

def maximum : Int := 9223372036854775807

/-- The integer of the signed 64-bit range that is congruent modulo 2 ^ 64. -/
def wrap (n : Int) : Int :=
  (n + 9223372036854775808) % 18446744073709551616 - 9223372036854775808

def InRange (n : Int) : Prop := minimum ≤ n ∧ n ≤ maximum

instance : DecidablePred InRange := fun n => by unfold InRange; infer_instance

theorem wrap_inRange (n : Int) : InRange (wrap n) := by
  unfold InRange wrap minimum maximum; omega

theorem wrap_of_inRange {n : Int} (h : InRange n) : wrap n = n := by
  unfold InRange minimum maximum at h; unfold wrap; omega

theorem wrap_wrap (n : Int) : wrap (wrap n) = wrap n := wrap_of_inRange (wrap_inRange n)

/-- The quotient rounded toward zero. -/
def divide (a b : Int) : Int :=
  if b = 0 then if a > 0 then maximum else -maximum else wrap (Int.tdiv a b)

/-- The remainder, with the sign of the dividend. -/
def modulo (a b : Int) : Int :=
  if b = 0 then 0 else Int.tmod a b

end VimL.Number
