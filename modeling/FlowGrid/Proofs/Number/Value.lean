import FlowGrid.Number.Binary64
import Mathlib

/-! The exact values of binary numbers. A number that is made of bits stands for what the bits
stand for, and the bits of a significand and an exponent stand for their product. -/

namespace FlowGrid.Binary64

section Bits

open Float.Model Float.Model.UnpackedFloat

theorem toBitVec_ofBitVec (s : BitVec 1) : (Sign.ofBitVec s).toBitVec = s := by
  revert s
  decide

theorem packComponents_unpack (b : BitVec Format.binary64.numBits) :
    packComponents Format.binary64 (Sign.ofBitVec (unpackSign b)) (unpackExponent b)
      (unpackMantissa b) = b := by
  rw [packComponents, toBitVec_ofBitVec]
  apply BitVec.eq_of_getLsbD_eq
  intro i hi
  simp only [unpackSign, unpackExponent, unpackMantissa, BitVec.cast_eq]
  grind

theorem pack_subnormal (s : UnpackedFloat.Sign) (m : BitVec 52) (hm : 0 < m.toNat) :
    UnpackedFloat.pack Format.binary64 (.finite s m.toNat (-1074) hm) =
      packComponents Format.binary64 s 0#11 m := by
  have hlog : m.toNat.log2 < 52 := (Nat.log2_lt hm.ne').mpr m.isLt
  have hwidth : m.toNat.log2 + 1 ≠ Format.binary64.mantissaBits := by
    change m.toNat.log2 + 1 ≠ 53
    omega
  dsimp only [UnpackedFloat.pack]
  rw [if_neg (by decide), if_neg hwidth, BitVec.ofNat_toNat, BitVec.setWidth_eq]

theorem pack_normal (s : UnpackedFloat.Sign) (e : BitVec 11) (m : BitVec 52)
    (he : e.toNat ≠ 2047) (hm : 0 < (1#1 ++ m).toNat) :
    UnpackedFloat.pack Format.binary64 (.finite s (1#1 ++ m).toNat ((e.toNat : ℤ) - 1075) hm) =
      packComponents Format.binary64 s e m := by
  have hsum : (1#1 ++ m).toNat = 2 ^ 52 + m.toNat := by
    rw [BitVec.toNat_append, ← Nat.shiftLeft_add_eq_or_of_lt m.isLt]
    rfl
  have hlog : (1#1 ++ m).toNat.log2 = 52 := by
    rw [Nat.log2_eq_iff hm.ne', hsum]
    have := m.isLt
    omega
  have hwidth : (1#1 ++ m).toNat.log2 + 1 = Format.binary64.mantissaBits := by
    rw [hlog]
    rfl
  have hbiased : ((e.toNat : ℤ) - 1075 + Format.binary64.exponentBias + (52 : ℕ)).toNat =
      e.toNat := by
    change ((e.toNat : ℤ) - 1075 + 1023 + 52).toNat = e.toNat
    omega
  have hmantissa : BitVec.ofNat 52 (1#1 ++ m).toNat = m := by
    apply BitVec.eq_of_toNat_eq
    rw [BitVec.toNat_ofNat, hsum, Nat.add_mod_left, Nat.mod_eq_of_lt m.isLt]
  have hfits : ¬ 2 ^ 11 ≤ e.toNat + 1 := by
    have := e.isLt
    omega
  dsimp only [UnpackedFloat.pack]
  rw [hbiased, if_neg hfits, if_pos hwidth, hmantissa, BitVec.ofNat_toNat, BitVec.setWidth_eq]

/-- A number is made of its bits, unless they stand for no number. -/
theorem pack_unpack {b : BitVec Format.binary64.numBits}
    (h : unpackExponent b = -1#_ → unpackMantissa b = 0#_) :
    UnpackedFloat.pack Format.binary64 (UnpackedFloat.unpack Format.binary64 b) = b := by
  have hb := packComponents_unpack b
  unfold UnpackedFloat.unpack
  by_cases hinf : unpackExponent b = -1#_
  · rw [if_pos hinf, if_pos (h hinf)]
    rw [hinf, h hinf] at hb
    exact hb
  · simp only [if_neg hinf]
    split_ifs with hzero hmantissa
    · rw [hzero, hmantissa] at hb
      exact hb
    · rw [hzero] at hb ⊢
      exact (pack_subnormal _ _ _).trans hb
    · exact (pack_normal _ _ _ (fun h => hinf (BitVec.eq_of_toNat_eq h)) _).trans hb

theorem unpackMantissa_toNat (b : BitVec Format.binary64.numBits) :
    (unpackMantissa b).toNat = b.toNat % twoTo 52 := by
  simp [unpackMantissa, twoTo]

theorem unpackExponent_toNat (b : BitVec Format.binary64.numBits) :
    (unpackExponent b).toNat = b.toNat / twoTo 52 % twoTo 11 := by
  simp [unpackExponent, twoTo, Nat.shiftRight_eq_div_pow]

/-- A number stands for what its bits stand for. -/
theorem view_ofBits {b : UInt64} (h : viewBits b.toNat ≠ .notANumber) :
    view (Float.ofBits b) = viewBits b.toNat := by
  have hvalid : @unpackExponent Format.binary64 b.toBitVec = -1#_ →
      @unpackMantissa Format.binary64 b.toBitVec = 0#_ := by
    intro hexponent
    apply BitVec.eq_of_toNat_eq
    have hfield : b.toNat / twoTo 52 % twoTo 11 = 2047 := by
      rw [← UInt64.toNat_toBitVec, ← unpackExponent_toNat, hexponent]
      rfl
    rw [unpackMantissa_toNat]
    by_contra hne
    apply h
    dsimp only [viewBits]
    rw [if_pos hfield]
    exact if_neg hne
  have hbits : (Float.ofBits b).toBits = b := congrArg UInt64.ofBitVec (pack_unpack hvalid)
  rw [view, hbits]

end Bits

/-! ### Values -/

def signed (negative : Bool) (q : ℚ) : ℚ := if negative then -q else q

theorem abs_signed (negative : Bool) (q : ℚ) : |signed negative q| = |q| := by
  cases negative
  · rfl
  · exact abs_neg q

theorem signed_sub (negative : Bool) (p q : ℚ) :
    signed negative p - signed negative q = signed negative (p - q) := by
  cases negative
  · rfl
  · simp only [signed, if_true]
    ring

/-- The number is finite, and `v` is what it stands for. -/
def Denotes (x : Float) (v : ℚ) : Prop :=
  ∃ negative m e, view x = .finite negative m e ∧ v = signed negative (m * 2 ^ e)

/-- A finite number has this size. -/
def IsMagnitude (g : ℚ) : Prop :=
  ∃ (m : ℕ) (e : ℤ), m < 2 ^ 53 ∧ -1074 ≤ e ∧ e ≤ 971 ∧ g = m * 2 ^ e

/-- The size of the largest finite number. -/
def largest : ℚ := (2 ^ 53 - 1 : ℕ) * 2 ^ (971 : ℤ)

theorem isMagnitude_largest : IsMagnitude largest :=
  ⟨2 ^ 53 - 1, 971, by norm_num, by norm_num, le_rfl, rfl⟩

theorem IsMagnitude.nonneg {g : ℚ} (h : IsMagnitude g) : 0 ≤ g := by
  obtain ⟨m, e, -, -, -, rfl⟩ := h
  positivity

theorem IsMagnitude.le_largest {g : ℚ} (h : IsMagnitude g) : g ≤ largest := by
  obtain ⟨m, e, hm, -, he, rfl⟩ := h
  have hm' : m ≤ 2 ^ 53 - 1 := by omega
  have he' : (2 : ℚ) ^ e ≤ 2 ^ (971 : ℤ) := zpow_le_zpow_right₀ (by norm_num) he
  exact mul_le_mul (by exact_mod_cast hm') he' (by positivity) (by positivity)

theorem viewBits_finite {b m : ℕ} {negative : Bool} {e : ℤ}
    (h : viewBits b = .finite negative m e) : m < 2 ^ 53 ∧ -1074 ≤ e ∧ e ≤ 971 := by
  dsimp only [viewBits] at h
  simp only [show twoTo 52 = 2 ^ 52 from rfl, show twoTo 11 = 2 ^ 11 from rfl] at h
  split_ifs at h <;> cases h <;> omega

theorem Denotes.exists_magnitude {x : Float} {v : ℚ} (h : Denotes x v) :
    ∃ negative g, IsMagnitude g ∧ v = signed negative g := by
  obtain ⟨negative, m, e, hview, rfl⟩ := h
  obtain ⟨hm, he, he'⟩ := viewBits_finite hview
  exact ⟨negative, _, ⟨m, e, hm, he, he', rfl⟩, rfl⟩

/-! ### Significands and exponents -/

/-- The bits of the number `significand * 2 ^ exponent`. -/
def bitsOf (s : ℕ) (e : ℤ) : ℕ := (e + 1074).toNat * twoTo 52 + s

/-- The significand fits the exponent, or is the first one that does not. -/
structure Fits (s : ℕ) (e : ℤ) : Prop where
  least : -1074 ≤ e
  small : s ≤ 2 ^ 53
  large : 2 ^ 52 ≤ s ∨ e = -1074

/-- The bits of a number tell its sign, its exponent and the digits of its significand. -/
theorem viewBits_add {b : ℕ} (hb : b < infinityBits) (negative : Bool) :
    viewBits ((if negative then twoTo 63 else 0) + b) =
      if b / twoTo 52 = 0 then .finite negative b (-1074)
      else .finite negative (twoTo 52 + b % twoTo 52) ((b / twoTo 52 : ℕ) - 1075) := by
  have hfield : b / twoTo 52 < 2047 := (Nat.div_lt_iff_lt_mul (twoTo_pos 52)).mpr hb
  have hsmall : b < twoTo 63 := lt_trans hb (by decide)
  have hsign : (if negative then twoTo 63 else 0) = twoTo 63 * negative.toNat := by
    cases negative <;> rfl
  have hsign' : (if negative then twoTo 63 else 0) = twoTo 52 * (twoTo 11 * negative.toNat) := by
    cases negative <;> rfl
  dsimp only [viewBits]
  rw [hsign', Nat.mul_add_mod, Nat.mul_add_div (twoTo_pos 52), Nat.mul_add_mod,
    Nat.mod_eq_of_lt (hfield.trans (by decide)), if_neg hfield.ne, ← hsign', hsign,
    Nat.mul_add_div (twoTo_pos 63), Nat.div_eq_of_lt hsmall]
  have hnegative : ((negative.toNat + 0) % 2 == 1) = negative := by cases negative <;> rfl
  rw [hnegative]
  split_ifs with h
  · rw [Nat.mod_eq_of_lt ((Nat.div_eq_zero_iff_lt (twoTo_pos 52)).mp h)]
  · rfl

theorem Fits.viewBits_eq {s : ℕ} {e : ℤ} (h : Fits s e) (hfinite : bitsOf s e < infinityBits)
    (negative : Bool) : ∃ (m : ℕ) (f : ℤ),
      viewBits ((if negative then twoTo 63 else 0) + bitsOf s e) = .finite negative m f ∧
        (m : ℚ) * 2 ^ f = s * 2 ^ e := by
  obtain ⟨hleast, hsmall, hlarge⟩ := h
  have hpos := twoTo_pos 52
  rw [viewBits_add hfinite, bitsOf]
  rcases lt_or_ge s (twoTo 52) with hs | hs
  · -- a significand without its first digit has the least exponent
    obtain rfl : e = -1074 := hlarge.resolve_left (not_le.mpr hs)
    refine ⟨s, -1074, ?_, rfl⟩
    simp only [Int.add_left_neg, Int.toNat_zero, Nat.zero_mul, Nat.zero_add]
    rw [if_pos (Nat.div_eq_of_lt hs)]
  · obtain ⟨r, rfl⟩ := Nat.exists_eq_add_of_le hs
    have hbits : (e + 1074).toNat * twoTo 52 + (twoTo 52 + r) =
        twoTo 52 * ((e + 1074).toNat + 1) + r := by ring
    rw [hbits, Nat.mul_add_div hpos, Nat.mul_add_mod]
    rcases lt_or_ge r (twoTo 52) with hr | hr
    · refine ⟨twoTo 52 + r, e, ?_, rfl⟩
      rw [Nat.div_eq_of_lt hr, Nat.mod_eq_of_lt hr, if_neg (Nat.succ_ne_zero _)]
      congr 1
      omega
    · -- the significand has become a power of two, and the next exponent has it
      obtain rfl : r = twoTo 52 := le_antisymm (by
        have hsum : twoTo 52 + twoTo 52 = 2 ^ 53 := rfl
        omega) hr
      refine ⟨twoTo 52, e + 1, ?_, ?_⟩
      · rw [Nat.div_self hpos, Nat.mod_self, if_neg (Nat.succ_ne_zero _)]
        congr 1
        omega
      · rw [zpow_add_one₀ two_ne_zero]
        push_cast
        ring

theorem Fits.finite {s : ℕ} {e : ℤ} (h : Fits s e) (hle : (s : ℚ) * 2 ^ e ≤ largest) :
    bitsOf s e < infinityBits := by
  obtain ⟨hleast, hsmall, hlarge⟩ := h
  by_contra hlt
  simp only [bitsOf, infinityBits, show twoTo 52 = 2 ^ 52 from rfl, not_lt] at hlt
  have hbig : 2 ^ 52 ≤ s ∧ 972 ≤ e ∨ 2 ^ 53 ≤ s ∧ e = 971 := by omega
  have hpow : (2 : ℚ) ^ (53 : ℤ) * 2 ^ (971 : ℤ) ≤ s * 2 ^ e := by
    rcases hbig with ⟨hs, he⟩ | ⟨hs, rfl⟩
    · have hs' : (2 : ℚ) ^ (52 : ℤ) ≤ s := by exact_mod_cast hs
      have he' : (2 : ℚ) ^ (972 : ℤ) ≤ 2 ^ e := zpow_le_zpow_right₀ (by norm_num) he
      calc
        (2 : ℚ) ^ (53 : ℤ) * 2 ^ (971 : ℤ) = 2 ^ (52 : ℤ) * 2 ^ (972 : ℤ) := by
          rw [← zpow_add₀ two_ne_zero, ← zpow_add₀ two_ne_zero]
          rfl
        _ ≤ s * 2 ^ e := mul_le_mul hs' he' (by positivity) (by positivity)
    · have hs' : (2 : ℚ) ^ (53 : ℤ) ≤ s := by exact_mod_cast hs
      exact mul_le_mul_of_nonneg_right hs' (by positivity)
  have hlargest : largest < (2 : ℚ) ^ (53 : ℤ) * 2 ^ (971 : ℤ) :=
    mul_lt_mul_of_pos_right (by norm_num) (by positivity)
  exact absurd (hpow.trans hle) (not_le.mpr hlargest)

end FlowGrid.Binary64
