import FlowGrid.Proofs.Number.Rounding
import FlowGrid.Proofs.Number.Value

/-! The number nearest to a quotient. It stands for a multiple of a power of two that no finite
number comes nearer to the quotient than. -/

namespace FlowGrid

/-! ### Powers of two -/

theorem twoTo_div_twoTo (e : ℤ) : (twoTo e.toNat : ℚ) / twoTo (-e).toNat = 2 ^ e := by
  have hcast (n : ℕ) : (twoTo n : ℚ) = 2 ^ (n : ℤ) := by
    rw [zpow_natCast]
    exact_mod_cast rfl
  rw [hcast, hcast, ← zpow_sub₀ two_ne_zero]
  congr 1
  omega

namespace Binary64

variable {n d : ℕ}

theorem le_quotient_iff (hd : 0 < d) (e : ℤ) :
    d * twoTo e.toNat ≤ n * twoTo (-e).toNat ↔ (2 : ℚ) ^ e ≤ n / d := by
  have hd' : (0 : ℚ) < d := by exact_mod_cast hd
  have hpos : (0 : ℚ) < twoTo (-e).toNat := by exact_mod_cast twoTo_pos _
  rw [← twoTo_div_twoTo, div_le_div_iff₀ hpos hd', mul_comm (twoTo e.toNat : ℚ)]
  norm_cast

/-- The logarithm is right. -/
theorem quotientLog2_spec (hn : 0 < n) (hd : 0 < d) :
    (2 : ℚ) ^ quotientLog2 n d ≤ n / d ∧ (n : ℚ) / d < 2 ^ (quotientLog2 n d + 1) := by
  have hd' : (0 : ℚ) < d := by exact_mod_cast hd
  have hnlow : (2 : ℚ) ^ (n.log2 : ℤ) ≤ n := by exact_mod_cast Nat.log2_self_le hn.ne'
  have hnhigh : (n : ℚ) < 2 ^ ((n.log2 : ℤ) + 1) := by exact_mod_cast Nat.lt_log2_self
  have hdlow : (2 : ℚ) ^ (d.log2 : ℤ) ≤ d := by exact_mod_cast Nat.log2_self_le hd.ne'
  have hdhigh : (d : ℚ) < 2 ^ ((d.log2 : ℤ) + 1) := by exact_mod_cast Nat.lt_log2_self
  have hlow : (2 : ℚ) ^ ((n.log2 : ℤ) - d.log2 - 1) ≤ n / d := by
    rw [le_div_iff₀ hd']
    calc
      (2 : ℚ) ^ ((n.log2 : ℤ) - d.log2 - 1) * d
          ≤ 2 ^ ((n.log2 : ℤ) - d.log2 - 1) * 2 ^ ((d.log2 : ℤ) + 1) := by gcongr
      _ = 2 ^ (n.log2 : ℤ) := by
        rw [← zpow_add₀ two_ne_zero]
        congr 1
        omega
      _ ≤ n := hnlow
  have hhigh : (n : ℚ) / d < 2 ^ ((n.log2 : ℤ) - d.log2 + 1) := by
    rw [div_lt_iff₀ hd']
    calc
      (n : ℚ) < 2 ^ ((n.log2 : ℤ) + 1) := hnhigh
      _ = 2 ^ ((n.log2 : ℤ) - d.log2 + 1) * 2 ^ (d.log2 : ℤ) := by
        rw [← zpow_add₀ two_ne_zero]
        congr 1
        omega
      _ ≤ 2 ^ ((n.log2 : ℤ) - d.log2 + 1) * d := by gcongr
  dsimp only [quotientLog2]
  split_ifs with h
  · exact ⟨(le_quotient_iff hd _).mp h, hhigh⟩
  · rw [sub_add_cancel]
    exact ⟨hlow, not_le.mp fun hle => h ((le_quotient_iff hd _).mpr hle)⟩

/-! ### Significands -/

/-- The exponent at which a quotient is rounded. -/
def exponentOf (n d : ℕ) : ℤ := max (quotientLog2 n d - 52) (-1074)

/-- The significand to which a quotient is rounded. -/
def significandOf (n d : ℕ) : ℕ :=
  roundQuotient (n * twoTo (-exponentOf n d).toNat) (d * twoTo (exponentOf n d).toNat)

theorem quotientBits_eq (hn : n ≠ 0) :
    quotientBits n d = min (bitsOf (significandOf n d) (exponentOf n d)) infinityBits := by
  rw [quotientBits, if_neg hn]
  rfl

theorem isNearestMultiple_significandOf (hd : 0 < d) :
    IsNearestMultiple (2 ^ exponentOf n d) (n / d) (significandOf n d) := by
  have hd' : (d : ℚ) ≠ 0 := by exact_mod_cast hd.ne'
  have hpos := twoTo_pos (exponentOf n d).toNat
  have hpos' : (twoTo (exponentOf n d).toNat : ℚ) ≠ 0 := by exact_mod_cast hpos.ne'
  have hneg : (twoTo (-exponentOf n d).toNat : ℚ) ≠ 0 := by exact_mod_cast (twoTo_pos _).ne'
  have h := isNearestMultiple_roundQuotient (u := 2 ^ exponentOf n d) (by positivity)
    (n * twoTo (-exponentOf n d).toNat) (Nat.mul_pos hd hpos)
  rw [← twoTo_div_twoTo] at h ⊢
  push_cast at h
  rwa [show (n * twoTo (-exponentOf n d).toNat : ℚ) / (d * twoTo (exponentOf n d).toNat) *
    (twoTo (exponentOf n d).toNat / twoTo (-exponentOf n d).toNat) = n / d by field_simp] at h

/-- Above the least exponent, the quotient has all digits of a significand before the point. -/
theorem leading_le (hn : 0 < n) (hd : 0 < d) (he : exponentOf n d ≠ -1074) :
    ((2 ^ 52 : ℤ) : ℚ) * 2 ^ exponentOf n d ≤ n / d := by
  have hexponent : exponentOf n d = quotientLog2 n d - 52 :=
    (max_choice _ _).resolve_right he
  calc
    ((2 ^ 52 : ℤ) : ℚ) * 2 ^ exponentOf n d = 2 ^ (52 : ℤ) * 2 ^ exponentOf n d := by norm_cast
    _ = 2 ^ quotientLog2 n d := by
      rw [← zpow_add₀ two_ne_zero, hexponent]
      congr 1
      omega
    _ ≤ n / d := (quotientLog2_spec hn hd).1

theorem fits_significandOf (hn : 0 < n) (hd : 0 < d) :
    Fits (significandOf n d) (exponentOf n d) := by
  have hu : (0 : ℚ) < 2 ^ exponentOf n d := by positivity
  have hnearest := isNearestMultiple_significandOf (n := n) hd
  refine ⟨le_max_right _ _, ?_, ?_⟩
  · have hle : (n : ℚ) / d ≤ ((2 ^ 53 : ℤ) : ℚ) * 2 ^ exponentOf n d := by
      calc
        (n : ℚ) / d ≤ 2 ^ (quotientLog2 n d + 1) := (quotientLog2_spec hn hd).2.le
        _ ≤ 2 ^ (53 + exponentOf n d) :=
          zpow_le_zpow_right₀ (by norm_num) (by
            have := le_max_left (quotientLog2 n d - 52) (-1074)
            rw [exponentOf]
            omega)
        _ = ((2 ^ 53 : ℤ) : ℚ) * 2 ^ exponentOf n d := by
          rw [zpow_add₀ two_ne_zero]
          norm_cast
    exact_mod_cast hnearest.le hu (.self hu (2 ^ 53)) hle
  · by_cases he : exponentOf n d = -1074
    · exact .inr he
    · have hle := IsNearestMultiple.le hu (.self hu (2 ^ 52)) hnearest (leading_le hn hd he)
      exact .inl (by exact_mod_cast hle)

/-- A finite number is a multiple of a power of two, or its size is below all significands with
that exponent. -/
theorem IsMagnitude.multiple_or_le {g : ℚ} (hg : IsMagnitude g) (e : ℤ) :
    (∃ k : ℤ, g = k * 2 ^ e) ∨ -1074 < e ∧ g ≤ ((2 ^ 52 : ℤ) : ℚ) * 2 ^ e := by
  obtain ⟨m, f, hm, hf, -, rfl⟩ := hg
  rcases le_or_gt e f with hle | hlt
  · refine .inl ⟨m * 2 ^ (f - e).toNat, ?_⟩
    push_cast
    rw [mul_assoc, ← zpow_natCast, ← zpow_add₀ two_ne_zero]
    congr 2
    omega
  · refine .inr ⟨by omega, ?_⟩
    have hm' : (m : ℚ) ≤ 2 ^ (53 : ℤ) := by exact_mod_cast hm.le
    calc
      (m : ℚ) * 2 ^ f ≤ 2 ^ (53 : ℤ) * 2 ^ f := by gcongr
      _ = 2 ^ (53 + f) := (zpow_add₀ two_ne_zero _ _).symm
      _ ≤ 2 ^ (52 + e) := zpow_le_zpow_right₀ (by norm_num) (by omega)
      _ = ((2 ^ 52 : ℤ) : ℚ) * 2 ^ e := by
        rw [zpow_add₀ two_ne_zero]
        norm_cast

/-- No finite number comes nearer to the quotient. -/
theorem significandOf_nearest (hn : 0 < n) (hd : 0 < d) {g : ℚ} (hg : IsMagnitude g) :
    |(n : ℚ) / d - significandOf n d * 2 ^ exponentOf n d| ≤ |(n : ℚ) / d - g| := by
  have hnearest := (isNearestMultiple_significandOf (n := n) hd).nearest
  rcases hg.multiple_or_le (exponentOf n d) with ⟨k, rfl⟩ | ⟨he, hbelow⟩
  · exact hnearest k
  · -- the first significand lies between the number and the quotient
    have hleading := leading_le hn hd he.ne'
    refine (hnearest (2 ^ 52)).trans ?_
    rw [abs_of_nonneg (sub_nonneg.mpr hleading),
      abs_of_nonneg (sub_nonneg.mpr (hbelow.trans hleading))]
    exact sub_le_sub_left hbelow _

/-! ### Numbers -/

/-- The bits of a quotient are those of a significand and an exponent that no finite number
beats. -/
theorem exists_fits (n : ℕ) (hd : 0 < d) :
    ∃ s e, Fits s e ∧ quotientBits n d = min (bitsOf s e) infinityBits ∧
      ∀ g, IsMagnitude g → |(n : ℚ) / d - s * 2 ^ e| ≤ |(n : ℚ) / d - g| := by
  rcases n.eq_zero_or_pos with rfl | hn
  · have hbits : bitsOf 0 (-1074) = 0 := by
      rw [bitsOf, neg_add_cancel, Int.toNat_zero, zero_mul]
    refine ⟨0, -1074, ⟨le_rfl, by norm_num, .inr rfl⟩, ?_, fun g _ => ?_⟩
    · rw [quotientBits, if_pos rfl, hbits, Nat.zero_min]
    · simp
  · exact ⟨_, _, fits_significandOf hn hd, quotientBits_eq hn.ne',
      fun _ => significandOf_nearest hn hd⟩

/-- What the bits of a sign, a significand and an exponent make. -/
theorem denotes_ofBits {s : ℕ} {e : ℤ} (h : Fits s e) (hfinite : bitsOf s e < infinityBits)
    (negative : Bool) :
    Denotes (Float.ofBits (UInt64.ofNat ((if negative then twoTo 63 else 0) + bitsOf s e)))
      (signed negative (s * 2 ^ e)) := by
  obtain ⟨m, f, hview, hvalue⟩ := h.viewBits_eq hfinite negative
  have hbits : (UInt64.ofNat ((if negative then twoTo 63 else 0) + bitsOf s e)).toNat =
      (if negative then twoTo 63 else 0) + bitsOf s e := by
    rw [UInt64.toNat_ofNat']
    apply Nat.mod_eq_of_lt
    have hbound : twoTo 63 + infinityBits < 2 ^ 64 := by decide
    split_ifs <;> omega
  rw [← hvalue]
  refine ⟨negative, m, f, ?_, rfl⟩
  rw [view_ofBits (by rw [hbits, hview]; exact View.noConfusion), hbits, hview]

/-- Signs only add to a distance. -/
theorem abs_sub_le_abs_signed_sub {p q : ℚ} (hp : 0 ≤ p) (hq : 0 ≤ q) (a b : Bool) :
    |p - q| ≤ |signed a p - signed b q| := by
  have hsum : |p - q| ≤ |p + q| := by
    rw [abs_of_nonneg (add_nonneg hp hq)]
    exact abs_le.mpr ⟨by linarith, by linarith⟩
  cases a <;> cases b
  · exact le_rfl
  · rwa [signed, signed, if_neg Bool.false_ne_true, if_pos rfl, sub_neg_eq_add]
  · rwa [signed, signed, if_neg Bool.false_ne_true, if_pos rfl, ← neg_add', abs_neg]
  · rw [signed_sub, abs_signed]

/-- A quotient that is not too large is read as a finite number, and no other one is nearer. -/
theorem ofQuotient_nearest (negative : Bool) (n : ℕ) (hd : 0 < d) (hle : (n : ℚ) / d ≤ largest) :
    ∃ v, Denotes (ofQuotient negative n d) v ∧ ∀ x w, Denotes x w →
      |signed negative (n / d) - v| ≤ |signed negative (n / d) - w| := by
  obtain ⟨s, e, hfits, hbits, hnearest⟩ := exists_fits n hd
  have hlargest : (s : ℚ) * 2 ^ e ≤ largest := by
    have h := hnearest _ isMagnitude_largest
    rw [abs_sub_comm _ largest, abs_of_nonneg (sub_nonneg.mpr hle)] at h
    linarith [neg_abs_le ((n : ℚ) / d - s * 2 ^ e)]
  have hfinite := hfits.finite hlargest
  refine ⟨signed negative (s * 2 ^ e), ?_, fun x w hw => ?_⟩
  · rw [ofQuotient, hbits, min_eq_left hfinite.le]
    exact denotes_ofBits hfits hfinite negative
  · obtain ⟨negative', g, hg, rfl⟩ := hw.exists_magnitude
    calc
      |signed negative (n / d) - signed negative (s * 2 ^ e)| = |(n : ℚ) / d - s * 2 ^ e| := by
        rw [signed_sub, abs_signed]
      _ ≤ |(n : ℚ) / d - g| := hnearest g hg
      _ ≤ |signed negative (n / d) - signed negative' g| :=
        abs_sub_le_abs_signed_sub (by positivity) hg.nonneg _ _

end Binary64
end FlowGrid
