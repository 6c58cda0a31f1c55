import FlowGrid.Number.Scalar
import FlowGrid.Proofs.Number.Nearest
import FlowGrid.Proofs.Number.Numeral
import FlowGrid.Proofs.Result

/-! The texts of numbers. A finite number is rounded to hundredths and written either as a whole
number or with two places, from which zeros and a point at the end are dropped. Both ways give the
canonical decimal of its nearest hundredth, and the number read from it has the same text. -/

namespace FlowGrid

namespace Scalar

variable {α : Type} [Scalar α] {x : α}

/-- Both ways of writing a rounded number give the canonical text of its hundredths. -/
theorem text_eq {h i : ℤ} (htruncated : truncated (rounded x) = .ok i)
    (hwhole : isInt (rounded x) i = true → h = 100 * i)
    (hplaces : isInt (rounded x) i = false → hundredths (rounded x) = (decide (h < 0), h.natAbs)) :
    text x = .ok (Decimal.ofHundredths h) := by
  refine Result.bind_eq_ok_iff.mpr ⟨i, htruncated, ?_⟩
  split_ifs with hint
  · rw [hwhole hint, Numeral.toString_eq_ofHundredths]
    rfl
  · rw [hplaces (Bool.eq_false_iff.mpr hint), Decimal.ofHundredths]
    simp only [Numeral.trimmed_signedText, decide_eq_true_eq]
    rfl

/-- A text of a number is that of some hundredths with some sign. -/
theorem exists_of_text {s : String} (h : text x = .ok s) : ∃ (negative : Bool) (n : ℕ),
    s = (if negative then "-" else "") ++ Decimal.hundredthsText n := by
  obtain ⟨i, -, h⟩ := Result.bind_eq_ok_iff.mp h
  split_ifs at h
  · cases h
    refine ⟨decide (100 * i < 0), (100 * i).natAbs, ?_⟩
    rw [Numeral.toString_eq_ofHundredths, Decimal.ofHundredths]
    simp only [decide_eq_true_eq]
  · cases h
    exact ⟨_, _, Numeral.trimmed_signedText _ _⟩

end Scalar

namespace Binary64

/-- One hundredth. -/
def hundredth : ℚ := 1 / 100

theorem hundredth_pos : 0 < hundredth := by norm_num [hundredth]

theorem intCast_mul_hundredth (h : ℤ) : (h : ℚ) * hundredth = h / 100 := by
  rw [hundredth, mul_one_div]

variable {x : Float} {v : ℚ}

/-- The units of a number are its nearest hundredths. -/
theorem isNearestMultiple_units (m : ℕ) (e : ℤ) :
    IsNearestMultiple hundredth (m * 2 ^ e) (Decimal.units 2 m e) := by
  have h := isNearestMultiple_roundQuotient hundredth_pos (m * tenTo 2 * twoTo e.toNat)
    (twoTo_pos (-e).toNat)
  have hvalue : ((m * tenTo 2 * twoTo e.toNat : ℕ) : ℚ) / twoTo (-e).toNat * hundredth =
      m * 2 ^ e := by
    rw [← twoTo_div_twoTo, hundredth, show tenTo 2 = 100 from rfl]
    push_cast
    ring
  rwa [hvalue] at h

/-! ### Rounding -/

/-- The hundredths of a finite number are not larger than all finite numbers. -/
theorem abs_le_largest (hx : Denotes x v) {h : ℤ} (hv : IsNearestMultiple hundredth v h) :
    |h * hundredth| ≤ largest := by
  obtain ⟨k, hk⟩ : ∃ k : ℤ, largest = k * hundredth := by
    refine ⟨100 * ((2 ^ 53 - 1 : ℕ) * 2 ^ (971 : ℤ).toNat), ?_⟩
    rw [intCast_mul_hundredth, Int.cast_mul, Int.cast_ofNat, mul_div_cancel_left₀ _ (by norm_num),
      Int.cast_mul, Int.cast_natCast, Int.cast_pow, Int.cast_ofNat, ← zpow_natCast]
    rfl
  have hself := IsNearestMultiple.self hundredth_pos k
  have habs : |v| ≤ largest := by
    obtain ⟨negative, g, hg, rfl⟩ := hx.exists_magnitude
    rw [abs_signed, abs_of_nonneg hg.nonneg]
    exact hg.le_largest
  rw [hk, abs_le] at habs
  have hhigh := hv.le hundredth_pos hself habs.2
  have hlow := IsNearestMultiple.le hundredth_pos (hself.neg hundredth_pos) hv habs.1
  rw [hk, abs_le, ← neg_mul, mul_le_mul_iff_left₀ hundredth_pos, mul_le_mul_iff_left₀ hundredth_pos]
  exact ⟨by exact_mod_cast hlow, by exact_mod_cast hhigh⟩

/-- The number nearest to the nearest hundredth of a finite number has that nearest hundredth. -/
theorem exists_nearest (hx : Denotes x v) {h : ℤ} (hv : IsNearestMultiple hundredth v h)
    {negative : Bool} {n d : ℕ} (hd : 0 < d) (hvalue : signed negative (n / d) = h * hundredth) :
    ∃ w, Denotes (ofQuotient negative n d) w ∧ IsNearestMultiple hundredth w h ∧
      ∀ y z, Denotes y z → |h * hundredth - w| ≤ |h * hundredth - z| := by
  have hle := abs_le_largest hx hv
  rw [← hvalue, abs_signed, abs_of_nonneg (by positivity)] at hle
  obtain ⟨w, hw, hnearest⟩ := ofQuotient_nearest negative n hd hle
  rw [hvalue] at hnearest
  refine ⟨w, hw, hv.of_le hundredth_pos ?_, hnearest⟩
  rw [abs_sub_comm w, abs_sub_comm v]
  exact hnearest x v hx

/-- The nearest hundredth by the sign and the units of a number. -/
theorem isNearestMultiple_signed (negative : Bool) (m : ℕ) (e : ℤ) :
    IsNearestMultiple hundredth (signed negative (m * 2 ^ e))
      (if negative then -(Decimal.units 2 m e : ℤ) else Decimal.units 2 m e) := by
  cases negative with
  | false => exact isNearestMultiple_units m e
  | true => exact (isNearestMultiple_units m e).neg hundredth_pos

/-- Rounding keeps the nearest hundredth; what rounds to none becomes zero. -/
theorem exists_rounded (hx : Denotes x v) {h : ℤ} (hv : IsNearestMultiple hundredth v h) :
    ∃ w, Denotes (rounded x) w ∧ IsNearestMultiple hundredth w h ∧ (h = 0 → w = 0) := by
  obtain ⟨negative, m, e, hview, rfl⟩ := id hx
  have hunits := hv.unique hundredth_pos (isNearestMultiple_signed negative m e)
  have hvalue : signed negative ((Decimal.units 2 m e : ℚ) / tenTo 2) = h * hundredth := by
    rw [hunits, intCast_mul_hundredth, show tenTo 2 = 100 from rfl]
    cases negative <;> simp [signed, neg_div]
  obtain ⟨w, hw, hnearest, hmin⟩ := exists_nearest hx hv (tenTo_pos 2) hvalue
  refine ⟨w, ?_, hnearest, ?_⟩
  · rw [rounded, hview]
    exact hw
  · rintro rfl
    have hzero : Denotes (ofInt 0) 0 := ⟨false, 0, -1074, by decide +kernel, by simp [signed]⟩
    simpa using hmin _ _ hzero

/-! ### Whole numbers and places -/

theorem exists_truncated (hx : Denotes x v) : ∃ i, truncated x = .ok i := by
  obtain ⟨negative, m, e, hview, -⟩ := hx
  rw [truncated, hview]
  exact ⟨_, rfl⟩

/-- A finite number as a quotient. -/
theorem mul_zpow_eq_div (m : ℕ) (e : ℤ) :
    (m : ℚ) * 2 ^ e = (m * twoTo e.toNat : ℕ) / twoTo (-e).toNat := by
  rw [← twoTo_div_twoTo, Nat.cast_mul, mul_div_assoc]

theorem signed_div_eq_iff (negative : Bool) (n : ℕ) {d : ℕ} (hd : 0 < d) (i : ℤ) :
    signed negative (n / d) = i ↔ (if negative then -(n : ℤ) else n) = i * d := by
  have hd' : (d : ℚ) ≠ 0 := by exact_mod_cast hd.ne'
  cases negative with
  | false =>
    rw [signed, if_neg Bool.false_ne_true, if_neg Bool.false_ne_true, div_eq_iff hd']
    norm_cast
  | true =>
    rw [signed, if_pos rfl, if_pos rfl, ← neg_div, div_eq_iff hd']
    norm_cast

theorem isInt_iff (hx : Denotes x v) (i : ℤ) : isInt x i = true ↔ v = i := by
  obtain ⟨negative, m, e, hview, rfl⟩ := hx
  rw [isInt, hview, mul_zpow_eq_div, signed_div_eq_iff negative _ (twoTo_pos _)]
  exact decide_eq_true_iff

/-- A whole number is not changed when its places are cut off. -/
theorem truncated_of_int {i : ℤ} (hx : Denotes x i) : truncated x = .ok i := by
  obtain ⟨negative, m, e, hview, hvalue⟩ := hx
  have hpos := twoTo_pos (-e).toNat
  rw [mul_zpow_eq_div, eq_comm, signed_div_eq_iff negative _ hpos] at hvalue
  have hd : (twoTo (-e).toNat : ℤ) ≠ 0 := by exact_mod_cast hpos.ne'
  rw [truncated, hview]
  dsimp only
  congr 1
  rw [Int.natCast_div]
  cases negative with
  | false =>
    rw [if_neg Bool.false_ne_true] at hvalue ⊢
    rw [hvalue, Int.mul_ediv_cancel _ hd]
  | true =>
    rw [if_pos rfl] at hvalue ⊢
    rw [← neg_eq_iff_eq_neg.mpr hvalue.symm, ← Int.neg_mul, Int.mul_ediv_cancel _ hd, neg_neg]

/-- The places of a number other than zero tell its nearest hundredth and its sign. -/
theorem hundredths_eq (hx : Denotes x v) {h : ℤ} (hv : IsNearestMultiple hundredth v h)
    (hne : h ≠ 0) : hundredths x = (decide (h < 0), h.natAbs) := by
  obtain ⟨negative, m, e, hview, rfl⟩ := hx
  obtain rfl := hv.unique hundredth_pos (isNearestMultiple_signed negative m e)
  rw [hundredths, hview]
  cases negative with
  | false => simp
  | true =>
    simp only [if_true] at hne ⊢
    simp
    omega

/-- A finite number has the text of its nearest hundredth. -/
theorem exists_text (hx : Denotes x v) : ∃ h, IsNearestMultiple hundredth v h ∧
    Scalar.text x = .ok (Numeral.ofHundredths h).text := by
  obtain ⟨negative, m, e, hview, hvalue⟩ := id hx
  have hv := isNearestMultiple_signed negative m e
  rw [← hvalue] at hv
  obtain ⟨w, hw, hnearest, hzero⟩ := exists_rounded hx hv
  obtain ⟨i, hi⟩ := exists_truncated hw
  refine ⟨_, hv, ?_⟩
  rw [Numeral.text_ofHundredths]
  refine Scalar.text_eq hi (fun hint => ?_) fun hint => hundredths_eq hw hnearest fun hnone => ?_
  · -- a whole number is its own nearest hundredth
    have hself := IsNearestMultiple.self hundredth_pos (100 * i)
    rw [intCast_mul_hundredth, Int.cast_mul, Int.cast_ofNat, mul_div_cancel_left₀ _ (by norm_num),
      ← (isInt_iff hw i).mp hint] at hself
    exact hnearest.unique hundredth_pos hself
  · -- zero is whole, so no sign of it is written
    obtain rfl := hzero hnone
    rw [truncated_of_int (i := 0) (by exact_mod_cast hw)] at hi
    cases hi
    have hwhole := (isInt_iff hw 0).mpr (by norm_num)
    exact absurd (hwhole.symm.trans hint) (by decide)

/-! ### Reading a text again -/

/-- The number that is read from the text of the nearest hundredth is as near to it. -/
theorem exists_read? (hx : Denotes x v) {h : ℤ} (hv : IsNearestMultiple hundredth v h) :
    ∃ y w, Literal.read? (Numeral.ofHundredths h).text = some y ∧ Denotes y w ∧
      IsNearestMultiple hundredth w h := by
  have hvalue : signed (Numeral.ofHundredths h).negative
      (Literal.value ((Numeral.ofHundredths h).whole ++ (Numeral.ofHundredths h).fraction) /
        tenTo (Numeral.ofHundredths h).fraction.length) = h * hundredth := by
    have htenTo (k : ℕ) : (tenTo k : ℚ) = 10 ^ k := by exact_mod_cast rfl
    rw [intCast_mul_hundredth, ← Numeral.value_ofHundredths, Numeral.value, htenTo]
  obtain ⟨w, hw, hnearest, -⟩ := exists_nearest hx hv (tenTo_pos _) hvalue
  exact ⟨_, w, Numeral.read?_text _, hw, hnearest⟩

/-! ### Texts -/

/-- The text of a finite number is canonical and shows its nearest hundredth. So numbers have one
text exactly if they have one nearest hundredth, larger numbers have no smaller texts, and the
number that is read from a text has that text. -/
theorem text_shows_nearest (hx : Denotes x v) :
    ∃ (t : Numeral) (h : ℤ), Scalar.text x = .ok t.text ∧ t.value = h / 100 ∧
      IsNearestMultiple hundredth v h ∧
      (∀ y w, Denotes y w → ∃ u : Numeral, Scalar.text y = .ok u.text ∧
        (t.text = u.text ↔
          ∃ k, IsNearestMultiple hundredth v k ∧ IsNearestMultiple hundredth w k) ∧
        (v ≤ w → t.value ≤ u.value)) ∧
      ∃ y, Literal.read? t.text = some y ∧ Scalar.text y = .ok t.text := by
  obtain ⟨h, hv, htext⟩ := exists_text hx
  refine ⟨_, h, htext, Numeral.value_ofHundredths h, hv, fun y w hy => ?_, ?_⟩
  · obtain ⟨k, hw, htext'⟩ := exists_text hy
    refine ⟨_, htext', ⟨fun heq => ?_, ?_⟩, fun hle => ?_⟩
    · have hvalue := congrArg Numeral.value (Numeral.text_injective heq)
      rw [Numeral.value_ofHundredths, Numeral.value_ofHundredths,
        div_left_inj' (by norm_num), Int.cast_inj] at hvalue
      exact ⟨h, hv, hvalue ▸ hw⟩
    · rintro ⟨l, hv', hw'⟩
      rw [hv.unique hundredth_pos hv', hw.unique hundredth_pos hw']
    · rw [Numeral.value_ofHundredths, Numeral.value_ofHundredths]
      have := hv.le hundredth_pos hw hle
      gcongr
  · obtain ⟨y, w, hread, hy, hw⟩ := exists_read? hx hv
    obtain ⟨k, hw', htext'⟩ := exists_text hy
    rw [hw'.unique hundredth_pos hw] at htext'
    exact ⟨y, hread, htext'⟩

/-- A negative number in the middle between two hundredths. -/
def negativeTie : Float := ofQuotient true 1 8

theorem text_shows_nearest_negativeTie :
    Denotes negativeTie (-1 / 8) ∧ ∃ (t : Numeral) (h : ℤ), Scalar.text negativeTie = .ok t.text ∧
      t.text = "-0.12" ∧ t.value = h / 100 ∧ IsNearestMultiple hundredth (-1 / 8) h ∧
      ∃ y, Literal.read? t.text = some y ∧ Scalar.text y = .ok t.text := by
  have hdenotes : Denotes negativeTie (-1 / 8) :=
    ⟨true, 2 ^ 52, -55, by decide +kernel, by norm_num [signed]⟩
  have htwelve : Scalar.text negativeTie = .ok "-0.12" := by decide +kernel
  obtain ⟨t, h, htext, hvalue, hnearest, -, hread⟩ := text_shows_nearest hdenotes
  exact ⟨hdenotes, t, h, htext, Except.ok.inj (htext.symm.trans htwelve), hvalue, hnearest, hread⟩

end Binary64
end FlowGrid
