import FlowGrid.Number.Scalar
import Mathlib.Analysis.Real.Sqrt

/-! Exact arithmetic: the geometry read over the real numbers. Nothing overflows there, so
only a division by zero is refused. No real number stands for a distance without a bound;
none has to, as a ray of length one leaves every outline. -/

namespace FlowGrid

/-- The nearest whole number, the even one of two equally near. -/
noncomputable def nearestEven (x : ℝ) : ℤ :=
  if Int.fract x < 1 / 2 then ⌊x⌋
  else if 1 / 2 < Int.fract x then ⌊x⌋ + 1
  else 2 * ((⌊x⌋ + 1) / 2)

theorem nearestEven_intCast (n : ℤ) : nearestEven n = n := by
  rw [nearestEven, Int.fract_intCast, if_pos (by norm_num), Int.floor_intCast]

/-- Division, so that quotients are not read through the scalar operations. -/
noncomputable instance divReal : Div ℝ := DivInvMonoid.toDiv

noncomputable instance scalarReal : Scalar ℝ where
  decidableLT := inferInstance
  decidableLE := inferInstance
  abs x := |x|
  sqrt := Real.sqrt
  length x y := √(x ^ 2 + y ^ 2)
  square x := .ok (x ^ 2)
  tolerance := 1 / 10 ^ 9
  unbounded := 0
  isBounded _ := true
  rounded x := nearestEven (100 * x) / 100
  truncated x := .ok (if x < 0 then ⌈x⌉ else ⌊x⌋)
  isInt x i := decide (x = i)
  hundredths x := (decide (x < 0), (nearestEven (100 * |x|)).natAbs)

namespace Scalar

@[simp] theorem abs_real (x : ℝ) : abs x = |x| := rfl

@[simp] theorem sqrt_real (x : ℝ) : sqrt x = √x := rfl

@[simp] theorem length_real (x y : ℝ) : length x y = √(x ^ 2 + y ^ 2) := rfl

@[simp] theorem square_real (x : ℝ) : square x = .ok (x ^ 2) := rfl

@[simp] theorem tolerance_real : (tolerance : ℝ) = 1 / 10 ^ 9 := rfl

@[simp] theorem half_real (x : ℝ) : half x = x / 2 := by
  simp [half]

theorem isZero_real (x : ℝ) : isZero x = true ↔ x = 0 := by
  simp only [isZero, Int.cast_zero, Bool.and_eq_true, decide_eq_true_eq]
  exact le_antisymm_iff.symm

theorem quotient_real (x : ℝ) {y : ℝ} (hy : y ≠ 0) : quotient x y = .ok (x / y) :=
  if_neg (mt (isZero_real y).mp hy)

theorem quotient_one {x : ℝ} (hx : x ≠ 0) : quotient ((1 : Int) : ℝ) x = .ok x⁻¹ := by
  rw [quotient_real _ hx, Int.cast_one, one_div]

end Scalar
end FlowGrid
