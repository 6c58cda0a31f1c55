import FlowGrid.Number.Rounding
import Mathlib

/-! Rounding to the multiples of a unit. The nearest multiple, of two equally near ones the even
one, is only one; it grows with the number, and it is that of all numbers that are nearer to it. -/

namespace FlowGrid

/-- Of the multiples of the unit `u`, the one by `h` is nearest to `v`, and it is the even one of
two equally near ones. -/
structure IsNearestMultiple (u v : ℚ) (h : ℤ) : Prop where
  nearest (k : ℤ) : |v - h * u| ≤ |v - k * u|
  even_of_tie {k : ℤ} : k ≠ h → |v - k * u| = |v - h * u| → Even h

section Units

variable {u v w : ℚ} {h k : ℤ}

/-- The other multiples are at least one unit away from this one. -/
theorem unit_sub_le_abs_sub (hu : 0 < u) (hk : k ≠ h) : u - |v - h * u| ≤ |v - k * u| := by
  have hone : (1 : ℚ) ≤ |(h : ℚ) - k| := by
    exact_mod_cast Int.one_le_abs (sub_ne_zero.mpr hk.symm)
  calc
    u - |v - h * u| ≤ |(h : ℚ) - k| * u - |v - h * u| :=
      sub_le_sub_right (le_mul_of_one_le_left hu.le hone) _
    _ = |((h : ℚ) - k) * u| - |v - h * u| := by rw [abs_mul, abs_of_pos hu]
    _ = |(v - k * u) - (v - h * u)| - |v - h * u| := by ring_nf
    _ ≤ |v - k * u| := by
      have := abs_sub (v - k * u) (v - h * u)
      linarith

/-- The nearest multiple is off by at most one half of the unit, and by one half only if it is
even. -/
theorem isNearestMultiple_iff (hu : 0 < u) :
    IsNearestMultiple u v h ↔ |v - h * u| ≤ u / 2 ∧ (|v - h * u| = u / 2 → Even h) := by
  constructor
  · intro hv
    have habove := hv.nearest (h + 1)
    have hbelow := hv.nearest (h - 1)
    have htie := hv.even_of_tie (k := h + 1) (by omega)
    have htie' := hv.even_of_tie (k := h - 1) (by omega)
    push_cast at habove hbelow htie htie'
    rw [show v - (h + 1) * u = v - h * u - u by ring] at habove htie
    rw [show v - (h - 1) * u = v - h * u + u by ring] at hbelow htie'
    generalize v - h * u = d at *
    constructor
    · rcases abs_cases d with ⟨hd, -⟩ | ⟨hd, -⟩
      · rcases abs_cases (d - u) with ⟨hd', -⟩ | ⟨hd', -⟩ <;> linarith
      · rcases abs_cases (d + u) with ⟨hd', -⟩ | ⟨hd', -⟩ <;> linarith
    · intro hhalf
      rcases abs_cases d with ⟨hd, -⟩ | ⟨hd, -⟩
      · refine htie ?_
        rw [abs_of_nonpos (by linarith)]
        linarith
      · refine htie' ?_
        rw [abs_of_nonneg (by linarith)]
        linarith
  · rintro ⟨hle, heven⟩
    refine ⟨fun k => ?_, fun hk htie => heven ?_⟩
    · by_cases hk : k = h
      · rw [hk]
      · linarith [unit_sub_le_abs_sub (v := v) hu hk]
    · linarith [unit_sub_le_abs_sub (v := v) hu hk]

namespace IsNearestMultiple

/-- Rounding is monotone. -/
theorem le (hu : 0 < u) (hv : IsNearestMultiple u v h) (hw : IsNearestMultiple u w k)
    (hle : v ≤ w) : h ≤ k := by
  rw [isNearestMultiple_iff hu] at hv hw
  by_contra hlt
  -- then both are one half away from their multiples, which follow each other
  have hone : (k : ℚ) + 1 ≤ h := by exact_mod_cast not_le.mp hlt
  have hmul := mul_le_mul_of_nonneg_right hone hu.le
  have hv' := (abs_le.mp hv.1).1
  have hw' := (abs_le.mp hw.1).2
  have hsucc : h = k + 1 := by
    by_contra hne
    have htwo : (k : ℚ) + 2 ≤ h := by exact_mod_cast (by omega : k + 2 ≤ h)
    have := mul_le_mul_of_nonneg_right htwo hu.le
    linarith
  have hevenh := hv.2 (by
    rw [abs_of_nonpos (by linarith)]
    linarith)
  have hevenk := hw.2 (by
    rw [abs_of_nonneg (by linarith)]
    linarith)
  rw [Int.even_iff] at hevenh hevenk
  omega

theorem unique (hu : 0 < u) (hh : IsNearestMultiple u v h) (hk : IsNearestMultiple u v k) :
    h = k :=
  le_antisymm (hh.le hu hk le_rfl) (hk.le hu hh le_rfl)

/-- What is nearer to the multiple has the same one. -/
theorem of_le (hu : 0 < u) (hv : IsNearestMultiple u v h) (hle : |w - h * u| ≤ |v - h * u|) :
    IsNearestMultiple u w h := by
  rw [isNearestMultiple_iff hu] at hv ⊢
  exact ⟨hle.trans hv.1, fun hw => hv.2 (le_antisymm hv.1 (hw ▸ hle))⟩

theorem neg (hu : 0 < u) (hv : IsNearestMultiple u v h) : IsNearestMultiple u (-v) (-h) := by
  rw [isNearestMultiple_iff hu] at hv ⊢
  have habs : |-v - (-h : ℤ) * u| = |v - h * u| := by
    rw [← abs_neg]
    congr 1
    push_cast
    ring
  rw [habs]
  exact ⟨hv.1, fun htie => (hv.2 htie).neg⟩

/-- A multiple is the nearest one to itself. -/
theorem self (hu : 0 < u) (h : ℤ) : IsNearestMultiple u (h * u) h := by
  rw [isNearestMultiple_iff hu, sub_self, abs_zero]
  exact ⟨by linarith, fun hzero => absurd hzero (by linarith)⟩

end IsNearestMultiple

/-- A rounded quotient is the nearest multiple. -/
theorem isNearestMultiple_roundQuotient (hu : 0 < u) (n : ℕ) {d : ℕ} (hd : 0 < d) :
    IsNearestMultiple u (n / d * u) (roundQuotient n d) := by
  obtain ⟨hup, hdown⟩ := roundQuotient_near n hd
  have heven := roundQuotient_even_of_tie (n := n) hd
  generalize roundQuotient n d = r at *
  have hd' : (0 : ℚ) < d := by exact_mod_cast hd
  have hscale : |(n : ℚ) / d * u - (r : ℤ) * u| = |(n : ℚ) - d * r| * (u / d) := by
    rw [← abs_of_pos (div_pos hu hd'), ← abs_mul]
    congr 1
    push_cast
    field_simp
  have hhalf : u / 2 = d / 2 * (u / d) := by field_simp
  have hpos := div_pos hu hd'
  rw [isNearestMultiple_iff hu, hscale, hhalf, mul_le_mul_iff_left₀ hpos,
    mul_left_inj' hpos.ne']
  have hup' : 2 * (n : ℚ) ≤ 2 * (d * r) + d := by exact_mod_cast hup
  have hdown' : 2 * (d * r : ℚ) ≤ 2 * n + d := by exact_mod_cast hdown
  refine ⟨abs_le.mpr ⟨by linarith, by linarith⟩, fun htie => ?_⟩
  rw [Int.even_coe_nat, Nat.even_iff]
  rcases abs_cases ((n : ℚ) - d * r) with ⟨habs, -⟩ | ⟨habs, -⟩
  · have h : 2 * (n : ℚ) = 2 * (d * r) + d := by linarith
    exact heven (.inl (by exact_mod_cast h))
  · have h : 2 * (d * r : ℚ) = 2 * n + d := by linarith
    exact heven (.inr (by exact_mod_cast h))

end Units
end FlowGrid
