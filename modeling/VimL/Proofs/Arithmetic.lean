import Mathlib.Data.Int.ModEq
import VimL.Proofs.Additions
import VimL.Proofs.Sizes

/-!
# Arithmetic of Numbers

Each sum, difference, product and sign is wrapped by itself. Wrapping keeps what a Number is modulo
2 ^ 64, so it does not matter that it was done on the way: an expression of them has the Number that
its exact integer wraps to. A quotient overflows only if it is that of the smallest Number by minus
one. It wraps as well, and so it makes up the dividend with its remainder even then.
-/

namespace VimL

namespace Number

variable {a b : Int}

theorem wrap_modEq (n : Int) : wrap n ≡ n [ZMOD 2 ^ 64] := by
  unfold wrap Int.ModEq
  omega

/-- Numbers that are congruent are the same. -/
theorem wrap_congr (h : a ≡ b [ZMOD 2 ^ 64]) : wrap a = wrap b := by
  unfold Int.ModEq at h
  unfold wrap
  omega

theorem wrap_add_wrap (a b : Int) : wrap (wrap a + wrap b) = wrap (a + b) :=
  wrap_congr ((wrap_modEq a).add (wrap_modEq b))

theorem wrap_sub_wrap (a b : Int) : wrap (wrap a - wrap b) = wrap (a - b) :=
  wrap_congr ((wrap_modEq a).sub (wrap_modEq b))

theorem wrap_mul_wrap (a b : Int) : wrap (wrap a * wrap b) = wrap (a * b) :=
  wrap_congr ((wrap_modEq a).mul (wrap_modEq b))

theorem wrap_neg_wrap (a : Int) : wrap (-wrap a) = wrap (-a) :=
  wrap_congr (wrap_modEq a).neg

/-! ## Division with remainder -/

theorem natAbs_modulo_lt (a : Int) (hb : b ≠ 0) : (modulo a b).natAbs < b.natAbs := by
  rw [modulo, if_neg hb, Int.natAbs_tmod]
  exact Nat.mod_lt _ (Int.natAbs_pos.2 hb)

theorem abs_modulo_lt (a : Int) (hb : b ≠ 0) : |modulo a b| < |b| := by
  rw [Int.abs_eq_natAbs, Int.abs_eq_natAbs]
  exact Int.ofNat_lt.2 (natAbs_modulo_lt a hb)

theorem sign_modulo (hr : modulo a b ≠ 0) : (modulo a b).sign = a.sign := by
  by_cases hb : b = 0
  · rw [modulo, if_pos hb] at hr
    exact absurd rfl hr
  · rw [modulo, if_neg hb] at hr ⊢
    have hdvd : ¬b ∣ a := fun hdvd => hr (Int.tmod_eq_zero_of_dvd hdvd)
    rw [Int.sign_tmod, if_neg hdvd]

theorem modulo_inRange (hb : InRange b) (a : Int) : InRange (modulo a b) := by
  by_cases hzero : b = 0
  · rw [modulo, if_pos hzero]
    decide
  · have hlt := natAbs_modulo_lt a hzero
    unfold InRange minimum maximum at *
    omega

theorem divide_inRange (hb : b ≠ 0) (a : Int) : InRange (divide a b) := by
  rw [divide, if_neg hb]
  exact wrap_inRange _

/-- A wrapped quotient and the remainder make up the dividend. -/
theorem wrap_divide_mul_add_modulo (ha : InRange a) (hb : b ≠ 0) :
    wrap (wrap (divide a b * b) + modulo a b) = a := by
  have hquotient : divide a b ≡ a.tdiv b [ZMOD 2 ^ 64] := by
    rw [divide, if_neg hb]
    exact wrap_modEq _
  have hproduct : wrap (divide a b * b) ≡ a.tdiv b * b [ZMOD 2 ^ 64] :=
    (wrap_modEq _).trans (hquotient.mul_right b)
  calc
    wrap (wrap (divide a b * b) + modulo a b) = wrap (a.tdiv b * b + a.tmod b) := by
      rw [modulo, if_neg hb]
      exact wrap_congr (hproduct.add_right _)
    _ = a := by rw [Int.tdiv_mul_add_tmod, wrap_of_inRange ha]

end Number

/-! ## Operators on Numbers -/

namespace Run

variable {e : Engine} {r s : Ref} {a b : Int}

theorem binary_of_numbers (op : Arithmetic) (hr : e.heap.value r = .number a)
    (hs : e.heap.value s = .number b) :
    binary (.arithmetic op) r s e = new (.number (Number.apply op a b)) e := by
  have hrun : binary (.arithmetic op) r s e = arithmetic op r s e := rfl
  rw [hrun, arithmetic, bind_of_ok (value_of_eq hr), bind_of_ok (value_of_eq hs)]
  cases op <;> rfl

theorem negate_of_number (hr : e.heap.value r = .number a) :
    unary .negate r e = newInt (-a) e := by
  rw [unary, bind_of_ok (value_of_eq hr)]
  rfl

theorem plus_of_number (hr : e.heap.value r = .number a) : unary .plus r e = newInt a e := by
  rw [unary, bind_of_ok (value_of_eq hr)]
  rfl

end Run

/-! ## Expressions -/

/-- Two expressions joined by an operator of arithmetic. -/
def Expr.arithmetic (op : Arithmetic) (x y : Expr) : Expr := .binary (.arithmetic op) x y

namespace Heap

/-- The expression is built of Number constants with sums, differences, products and signs. The
integer is what it denotes if nothing is wrapped. -/
inductive Denotes (h : Heap) : Expr → Int → Prop where
  | constant {r : Ref} {n : Int} (hr : r.index < h.size) (hn : h.value r = .number n)
      (hrange : Number.InRange n) : Denotes h (.const r) n
  | sum {x y : Expr} {a b : Int} (hx : Denotes h x a) (hy : Denotes h y b) :
      Denotes h (.arithmetic .add x y) (a + b)
  | difference {x y : Expr} {a b : Int} (hx : Denotes h x a) (hy : Denotes h y b) :
      Denotes h (.arithmetic .subtract x y) (a - b)
  | product {x y : Expr} {a b : Int} (hx : Denotes h x a) (hy : Denotes h y b) :
      Denotes h (.arithmetic .multiply x y) (a * b)
  | negative {x : Expr} {a : Int} (hx : Denotes h x a) : Denotes h (.unary .negate x) (-a)
  | positive {x : Expr} {a : Int} (hx : Denotes h x a) : Denotes h (.unary .plus x) a

/-- In every engine that has these objects the expression evaluates to this Number, given fuel for
the size of the tree. Nothing happens but that objects are added. -/
def Computes (h : Heap) (x : Expr) (n : Int) : Prop :=
  ∀ (host : Host) (c : Context) (e : Engine) (fuel : Nat), h.Extends e.heap → sizeOf x ≤ fuel →
    ∃ r e', (Interp.ofFuel host fuel).eval c x e = .ok r e' ∧ e.OnlyAdds e' ∧
      r.index < e'.heap.size ∧ e'.heap.value r = .number n

variable {h : Heap} {x y : Expr} {a b : Int}

/-- One unit of fuel is used up for the expression, and its parts have enough of what is left. -/
theorem exists_evaluate (host : Host) (c : Context) {fuel : Nat} (hfuel : sizeOf x ≤ fuel) :
    ∃ left, (Interp.ofFuel host fuel).eval c x =
        Run.evaluate host (Interp.ofFuel host left) c x ∧
      ∀ y ∈ x.parts, sizeOf y ≤ left := by
  obtain ⟨left, rfl⟩ := Nat.exists_eq_add_one_of_ne_zero
    (Nat.ne_of_gt (Nat.lt_of_lt_of_le x.sizeOf_pos hfuel))
  refine ⟨left, rfl, fun y hy => ?_⟩
  have hlt := Expr.sizeOf_lt_of_parts hy
  omega

theorem exists_new_number (e : Engine) (n : Int) :
    ∃ r e', Run.new (.number n) e = .ok r e' ∧ e.OnlyAdds e' ∧ r.index < e'.heap.size ∧
      e'.heap.value r = .number n := by
  refine ⟨(e.heap.new (.number n)).1, e.withHeap (e.heap.new (.number n)).2, rfl,
    .withHeap (.new e.heap _), ?_, value_new_self e.heap _⟩
  simp [Heap.new, Engine.withHeap, size]

namespace Computes

theorem constant {r : Ref} (hr : r.index < h.size) (hn : h.value r = .number a) :
    h.Computes (.const r) a := by
  intro host c e fuel hext hfuel
  obtain ⟨left, heval, -⟩ := exists_evaluate host c hfuel
  refine ⟨r, e, congrFun heval e, .refl e, Nat.lt_of_lt_of_le hr hext.size, ?_⟩
  rw [value, hext.cell r hr]
  exact hn

theorem arithmetic (op : Arithmetic) (hx : h.Computes x a) (hy : h.Computes y b) :
    h.Computes (.arithmetic op x y) (Number.apply op a b) := by
  intro host c e fuel hext hfuel
  obtain ⟨left, heval, hparts⟩ := exists_evaluate host c hfuel
  obtain ⟨r, e₁, hleft, hadds₁, hr, hra⟩ :=
    hx host c e left hext (hparts x List.mem_cons_self)
  obtain ⟨s, e₂, hright, hadds₂, -, hsb⟩ :=
    hy host c e₁ left (hext.trans hadds₁.heap)
      (hparts y (List.mem_cons_of_mem _ List.mem_cons_self))
  -- the left side is as it was when the right one has been evaluated
  have hra₂ : e₂.heap.value r = .number a := by
    rw [value, hadds₂.heap.cell r hr]
    exact hra
  obtain ⟨t, e₃, hnew, hadds₃, ht, htn⟩ := exists_new_number e₂ (Number.apply op a b)
  refine ⟨t, e₃, ?_, (hadds₁.trans hadds₂).trans hadds₃, ht, htn⟩
  have hrun : Run.evaluate host (Interp.ofFuel host left) c (.arithmetic op x y) =
      Run.evalBinary (Interp.ofFuel host left) c (.arithmetic op) x y := rfl
  rw [heval, hrun, Run.evalBinary, Run.bind_of_ok hleft, Run.bind_of_ok hright,
    Run.binary_of_numbers op hra₂ hsb, hnew]

theorem unary {op : UnaryOperator} {n : Int} (hx : h.Computes x a)
    (hop : ∀ (e : Engine) (r : Ref), e.heap.value r = .number a →
      Run.unary op r e = Run.newInt n e) :
    h.Computes (.unary op x) (Number.wrap n) := by
  intro host c e fuel hext hfuel
  obtain ⟨left, heval, hparts⟩ := exists_evaluate host c hfuel
  obtain ⟨r, e₁, hoperand, hadds₁, -, hra⟩ := hx host c e left hext (hparts x List.mem_cons_self)
  obtain ⟨t, e₂, hnew, hadds₂, ht, htn⟩ := exists_new_number e₁ (Number.wrap n)
  refine ⟨t, e₂, ?_, hadds₁.trans hadds₂, ht, htn⟩
  have hrun : Run.evaluate host (Interp.ofFuel host left) c (.unary op x) =
      ((Interp.ofFuel host left).eval c x >>= fun r => Run.unary op r) := rfl
  rw [heval, hrun, Run.bind_of_ok hoperand, hop e₁ r hra]
  exact hnew

end Computes

/-- What an expression computes is what its integer wraps to, however it is nested. -/
theorem Denotes.computes {n : Int} (hx : h.Denotes x n) : h.Computes x (Number.wrap n) := by
  induction hx with
  | constant hr hn hrange =>
    rw [Number.wrap_of_inRange hrange]
    exact .constant hr hn
  | sum _ _ ihx ihy =>
    rw [← Number.wrap_add_wrap]
    exact .arithmetic .add ihx ihy
  | difference _ _ ihx ihy =>
    rw [← Number.wrap_sub_wrap]
    exact .arithmetic .subtract ihx ihy
  | product _ _ ihx ihy =>
    rw [← Number.wrap_mul_wrap]
    exact .arithmetic .multiply ihx ihy
  | negative _ ih =>
    rw [← Number.wrap_neg_wrap]
    exact ih.unary fun e r hr => Run.negate_of_number hr
  | positive _ ih =>
    rw [← Number.wrap_wrap]
    exact ih.unary fun e r hr => Run.plus_of_number hr

/-- An expression of sums, differences, products and signs computes the Number that is congruent to
its integer modulo 2 ^ 64. A quotient and a remainder make up the dividend, and all that is computed
on the way is in range; the remainder is smaller than the divisor and has the sign of the
dividend. -/
theorem arithmetic_wraps (h : Heap) :
    (∀ x n, h.Denotes x n →
      ∃ v, h.Computes x v ∧ Number.InRange v ∧ v ≡ n [ZMOD 2 ^ 64]) ∧
    ∀ x y a b, h.Computes x a → h.Computes y b → Number.InRange a → Number.InRange b → b ≠ 0 →
      ∃ quotient product remainder,
        h.Computes (.arithmetic .divide x y) quotient ∧
        h.Computes (.arithmetic .multiply (.arithmetic .divide x y) y) product ∧
        h.Computes (.arithmetic .modulo x y) remainder ∧
        h.Computes (.arithmetic .add (.arithmetic .multiply (.arithmetic .divide x y) y)
          (.arithmetic .modulo x y)) a ∧
        Number.InRange quotient ∧ Number.InRange product ∧ Number.InRange remainder ∧
        |remainder| < |b| ∧ (remainder ≠ 0 → remainder.sign = a.sign) := by
  refine ⟨fun x n hx => ⟨_, hx.computes, Number.wrap_inRange n, Number.wrap_modEq n⟩, ?_⟩
  intro x y a b hx hy ha hb hzero
  have hquotient := hx.arithmetic .divide hy
  have hproduct := hquotient.arithmetic .multiply hy
  have hremainder := hx.arithmetic .modulo hy
  have hwhole := hproduct.arithmetic .add hremainder
  have hdividend : Number.apply .add (Number.apply .multiply (Number.apply .divide a b) b)
      (Number.apply .modulo a b) = a := Number.wrap_divide_mul_add_modulo ha hzero
  rw [hdividend] at hwhole
  exact ⟨_, _, _, hquotient, hproduct, hremainder, hwhole, Number.divide_inRange hzero a,
    Number.wrap_inRange _, Number.modulo_inRange hb a, Number.abs_modulo_lt a hzero,
    Number.sign_modulo⟩

/-- The extreme Numbers, one and minus one. -/
def extremes : Heap :=
  ⟨#[.fresh (.number Number.maximum), .fresh (.number Number.minimum), .fresh (.number 1),
    .fresh (.number (-1))]⟩

/-- A sum that overflows is taken back, and the one quotient that overflows is wrapped. -/
theorem arithmetic_wraps_extremes :
    (extremes.Denotes (.arithmetic .multiply (.arithmetic .add (.const ⟨0⟩) (.const ⟨2⟩))
        (.const ⟨3⟩)) Number.minimum ∧
      ∃ v, extremes.Computes (.arithmetic .multiply (.arithmetic .add (.const ⟨0⟩) (.const ⟨2⟩))
          (.const ⟨3⟩)) v ∧
        Number.InRange v ∧ v ≡ Number.minimum [ZMOD 2 ^ 64]) ∧
    extremes.Computes (.const ⟨1⟩) Number.minimum ∧ extremes.Computes (.const ⟨3⟩) (-1) ∧
    Number.InRange Number.minimum ∧ Number.InRange (-1) ∧ (-1 : Int) ≠ 0 ∧
    ∃ quotient product remainder,
      extremes.Computes (.arithmetic .divide (.const ⟨1⟩) (.const ⟨3⟩)) quotient ∧
      extremes.Computes (.arithmetic .multiply (.arithmetic .divide (.const ⟨1⟩) (.const ⟨3⟩))
        (.const ⟨3⟩)) product ∧
      extremes.Computes (.arithmetic .modulo (.const ⟨1⟩) (.const ⟨3⟩)) remainder ∧
      extremes.Computes (.arithmetic .add
        (.arithmetic .multiply (.arithmetic .divide (.const ⟨1⟩) (.const ⟨3⟩)) (.const ⟨3⟩))
        (.arithmetic .modulo (.const ⟨1⟩) (.const ⟨3⟩))) Number.minimum ∧
      Number.InRange quotient ∧ Number.InRange product ∧ Number.InRange remainder ∧
      |remainder| < |(-1 : Int)| ∧
      (remainder ≠ 0 → remainder.sign = Number.minimum.sign) := by
  have hconst {r : Ref} {n : Int} (hr : r.index < 4) (hn : extremes.value r = .number n)
      (hrange : Number.InRange n) : extremes.Denotes (.const r) n := .constant hr hn hrange
  have hmaximum : extremes.Denotes (.const ⟨0⟩) Number.maximum :=
    hconst (by decide) rfl (by decide)
  have hone : extremes.Denotes (.const ⟨2⟩) 1 := hconst (by decide) rfl (by decide)
  have hminus : extremes.Denotes (.const ⟨3⟩) (-1) := hconst (by decide) rfl (by decide)
  have htree := (hmaximum.sum hone).product hminus
  have hdividend : extremes.Computes (.const ⟨1⟩) Number.minimum := .constant (by decide) rfl
  have hdivisor : extremes.Computes (.const ⟨3⟩) (-1) := .constant (by decide) rfl
  exact ⟨⟨htree, (arithmetic_wraps extremes).1 _ _ htree⟩, hdividend, hdivisor, by decide,
    by decide, by decide, (arithmetic_wraps extremes).2 _ _ _ _ hdividend hdivisor (by decide)
      (by decide) (by decide)⟩

end Heap

end VimL
