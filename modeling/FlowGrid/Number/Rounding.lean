/-! Rounding a quotient of natural numbers to the nearest whole number, a tie
going to the even neighbour. Main statements: the rounded quotient is off by at
most one half, and by exactly one half only when it is even. -/

namespace FlowGrid

/-- The whole number nearest to `n / d`; of two equally near ones, the even one. -/
def roundQuotient (n d : Nat) : Nat :=
  let q := n / d
  let r := n % d
  if 2 * r < d || (2 * r = d && q % 2 = 0) then q else q + 1

theorem roundQuotient_near (n : Nat) {d : Nat} (hd : 0 < d) :
    2 * n ≤ 2 * (d * roundQuotient n d) + d ∧ 2 * (d * roundQuotient n d) ≤ 2 * n + d := by
  have h := Nat.div_add_mod n d
  have hr := Nat.mod_lt n hd
  simp only [roundQuotient]
  split
  · rename_i hc
    simp only [Bool.or_eq_true, Bool.and_eq_true, decide_eq_true_eq] at hc
    omega
  · rename_i hc
    simp only [Bool.or_eq_true, Bool.and_eq_true, decide_eq_true_eq] at hc
    rw [Nat.mul_add, Nat.mul_one]
    omega

theorem roundQuotient_even_of_tie {n d : Nat} (hd : 0 < d)
    (h : 2 * n = 2 * (d * roundQuotient n d) + d ∨ 2 * (d * roundQuotient n d) = 2 * n + d) :
    roundQuotient n d % 2 = 0 := by
  have hn := Nat.div_add_mod n d
  have hr := Nat.mod_lt n hd
  revert h
  simp only [roundQuotient]
  split
  · rename_i hc
    simp only [Bool.or_eq_true, Bool.and_eq_true, decide_eq_true_eq] at hc
    intro h
    omega
  · rename_i hc
    simp only [Bool.or_eq_true, Bool.and_eq_true, decide_eq_true_eq] at hc
    rw [Nat.mul_add, Nat.mul_one]
    intro h
    omega

end FlowGrid
