import FlowGrid.Number.Decimal
import FlowGrid.Number.Literal
import FlowGrid.Proofs.Number.Value
import Mathlib

/-! Canonical decimals. A text in this form is that of one sign, one whole part and one fraction;
the text of a count of hundredths has this form, and read as a literal it names the quotient that it
shows. -/

namespace FlowGrid

/-! ### Digits and literals -/

theorem exists_digitChar {c : Char} (h : c.isDigit) : ∃ n < 10, c = Nat.digitChar n := by
  simp only [Char.isDigit, ge_iff_le, Bool.and_eq_true, decide_eq_true_eq,
    UInt32.le_iff_toNat_le] at h
  have hlow : 48 ≤ c.toNat := h.1
  have hhigh : c.toNat ≤ 57 := h.2
  refine ⟨c.toNat - 48, by omega, Char.toNat_inj.mp ?_⟩
  rw [Nat.toNat_digitChar_of_lt_ten (by omega)]
  omega

namespace Literal

theorem value_eq (ds : List Char) : value ds = Nat.ofDigitChars 10 ds 0 := rfl

theorem value_append (ds es : List Char) :
    value (ds ++ es) = 10 ^ es.length * value ds + value es := by
  rw [value_eq, value_eq, value_eq, Nat.ofDigitChars_append, Nat.ofDigitChars_eq_ofDigitChars_zero]

theorem value_toDigits (n : ℕ) : value (Nat.toDigits 10 n) = n := by
  rw [value_eq, Nat.ofDigitChars_ten_toDigits]

theorem digits_append {ds cs : List Char} (hds : ∀ c ∈ ds, c.isDigit)
    (hcs : ∀ c ∈ cs.head?, ¬ c.isDigit) : digits (ds ++ cs) = (ds, cs) := by
  have htake : cs.takeWhile Char.isDigit = [] ∧ cs.dropWhile Char.isDigit = cs := by
    cases cs with
    | nil => exact ⟨rfl, rfl⟩
    | cons c cs =>
      have hc := hcs c rfl
      rw [List.takeWhile_cons_of_neg hc, List.dropWhile_cons_of_neg hc]
      exact ⟨rfl, rfl⟩
  rw [digits, List.span_eq_takeWhile_dropWhile, List.takeWhile_append_of_pos hds,
    List.dropWhile_append_of_pos hds, htake.1, htake.2, List.append_nil]

theorem dropUnderscores_eq {cs : List Char} (h : '_' ∉ cs) (before : Char) :
    dropUnderscores before cs = some cs := by
  induction cs generalizing before with
  | nil => rfl
  | cons c cs ih =>
    rw [List.mem_cons, not_or] at h
    rw [dropUnderscores, ih h.2, Option.map_some]
    exact fun hc => h.1 hc.symm

theorem nearest_eq (negative : Bool) (n : ℕ) {count k : ℕ} (hk : k ≤ count) :
    nearest negative n count (0 - k) = Binary64.ofQuotient negative n (tenTo k) := by
  have htop : ¬ ((count : ℤ) + (0 - k) < -400) := by omega
  have hwhole : ((0 : ℤ) - k).toNat = 0 := by omega
  have hplaces : (-((0 : ℤ) - k)).toNat = k := by omega
  dsimp only [nearest]
  rw [decide_eq_false htop, Bool.or_false, if_neg (by omega : ¬ (400 : ℤ) < 0 - k), hwhole,
    hplaces, show tenTo 0 = 1 from rfl, Nat.mul_one]
  split_ifs with hzero
  · rw [decide_eq_true_iff.mp hzero, Binary64.ofQuotient, Binary64.ofQuotient,
      Binary64.quotientBits, Binary64.quotientBits, if_pos rfl, if_pos rfl]
  · rfl

end Literal

theorem trimBoth_eq_self {p : Char → Bool} {cs : List Char} (h : ∀ c ∈ cs, p c = false) :
    Text.trimBoth p cs = cs := by
  have hdrop {ds : List Char} (hds : ∀ c ∈ ds, p c = false) : ds.dropWhile p = ds := by
    cases ds with
    | nil => rfl
    | cons d ds => rw [List.dropWhile_cons_of_neg (by simp [hds d])]
  rw [Text.trimBoth, hdrop h, hdrop (by simpa using h), List.reverse_reverse]

/-- A character that stays keeps all that stands in front of it. -/
theorem trimEnd_append_cons {p : Char → Bool} {c : Char} (hc : p c = false)
    (before after : List Char) :
    Text.trimEnd p (before ++ c :: after) = before ++ c :: Text.trimEnd p after := by
  have hconcat (cs : List Char) (d : Char) :
      Text.trimEnd p (cs ++ [d]) = if p d then Text.trimEnd p cs else cs ++ [d] :=
    List.rdropWhile_concat p cs d
  induction after using List.reverseRecOn with
  | nil => exact List.rdropWhile_concat_neg p before c (by simp [hc])
  | append_singleton after d ih =>
    rw [← List.cons_append, ← List.append_assoc, hconcat, hconcat, ih]
    split_ifs
    · rfl
    · rw [List.append_assoc, List.cons_append]

theorem trimEnd_eq_self {p : Char → Bool} {cs : List Char} (h : ∀ c ∈ cs, p c = false) :
    Text.trimEnd p cs = cs :=
  List.rdropWhile_eq_self_iff.mpr fun hne => by simp [h _ (List.getLast_mem hne)]

/-- The digits of a number other than zero do not begin with a zero. -/
theorem toDigits_eq_of_head? (n : ℕ) (h : (Nat.toDigits 10 n).head? = some '0') :
    Nat.toDigits 10 n = ['0'] := by
  induction n using Nat.strong_induction_on with
  | h n ih =>
    rcases lt_or_ge n 10 with hn | hn
    · rw [Nat.toDigits_of_lt_base hn] at h ⊢
      simpa using h
    · rw [Nat.toDigits_of_base_le (by decide) hn, List.head?_append_of_ne_nil _ Nat.toDigits_ne_nil]
        at h
      have hzero := Literal.value_toDigits (n / 10)
      rw [ih (n / 10) (by omega) h] at hzero
      have : n / 10 = 0 := hzero.symm
      omega

/-! ### Numerals -/

/-- A decimal without a superfluous digit or sign: no zero in front of other digits of the whole
part, at most two digits in the fraction, no zero at its end, and no sign on zero. -/
structure Numeral where
  negative : Bool
  whole : List Char
  fraction : List Char
  whole_digits : ∀ c ∈ whole, c.isDigit
  fraction_digits : ∀ c ∈ fraction, c.isDigit
  whole_ne_nil : whole ≠ []
  first : whole.head? = some '0' → whole = ['0']
  short : fraction.length ≤ 2
  last : fraction.getLast? ≠ some '0'
  unsigned_zero : negative → ¬ (whole = ['0'] ∧ fraction = [])

namespace Numeral

/-- The point and the digits behind it, if there are any. -/
def point (fraction : List Char) : List Char := if fraction = [] then [] else '.' :: fraction

def toList (t : Numeral) : List Char :=
  (if t.negative then ['-'] else []) ++ (t.whole ++ point t.fraction)

def text (t : Numeral) : String := String.ofList t.toList

/-- What a decimal is worth. -/
def value (t : Numeral) : ℚ :=
  Binary64.signed t.negative (Literal.value (t.whole ++ t.fraction) / 10 ^ t.fraction.length)

/-! ### Hundredths -/

/-- The digits behind the point of `n` hundredths, which are less than one. -/
def hundredthDigits (n : ℕ) : List Char :=
  if n = 0 then []
  else if n % 10 = 0 then [Nat.digitChar (n / 10)]
  else [Nat.digitChar (n / 10), Nat.digitChar (n % 10)]

variable {n : ℕ}

theorem hundredthDigits_isDigit (hn : n < 100) : ∀ c ∈ hundredthDigits n, c.isDigit := by
  have hhigh : n / 10 < 10 := by omega
  have hlow : n % 10 < 10 := Nat.mod_lt n (by decide)
  unfold hundredthDigits
  split_ifs
  · exact List.forall_mem_nil _
  · simpa using hhigh
  · simpa using ⟨hhigh, hlow⟩

theorem length_hundredthDigits_le (n : ℕ) : (hundredthDigits n).length ≤ 2 := by
  unfold hundredthDigits
  split_ifs <;> simp

theorem getLast?_hundredthDigits (n : ℕ) : (hundredthDigits n).getLast? ≠ some '0' := by
  unfold hundredthDigits
  split_ifs with hzero hten
  · simp
  · simpa using (by omega : n / 10 ≠ 0)
  · simpa using hten

theorem hundredthDigits_eq_nil_iff : hundredthDigits n = [] ↔ n = 0 := by
  unfold hundredthDigits
  split_ifs with hzero <;> simp [hzero]

theorem value_hundredthDigits (hn : n < 100) :
    (Literal.value (hundredthDigits n) / 10 ^ (hundredthDigits n).length : ℚ) = n / 100 := by
  have hsplit : (n : ℚ) = 10 * (n / 10 : ℕ) + (n % 10 : ℕ) := by
    exact_mod_cast (Nat.div_add_mod n 10).symm
  have hhigh : n / 10 < 10 := by omega
  have hlow : n % 10 < 10 := Nat.mod_lt n (by decide)
  unfold hundredthDigits
  split_ifs with hzero hten
  · simp [hzero, Literal.value]
  · rw [Literal.value_eq, Nat.ofDigitChars_cons_digitChar_of_lt_ten hhigh, Nat.ofDigitChars_nil,
      hsplit, hten, List.length_singleton]
    push_cast
    ring
  · rw [Literal.value_eq, Nat.ofDigitChars_cons_digitChar_of_lt_ten hhigh,
      Nat.ofDigitChars_cons_digitChar_of_lt_ten hlow, Nat.ofDigitChars_nil, hsplit]
    push_cast [List.length_cons, List.length_nil]
    ring

theorem toList_padded (hn : n < 100) :
    (Decimal.padded 2 n).toList = [Nat.digitChar (n / 10), Nat.digitChar (n % 10)] := by
  rw [Decimal.padded, String.toList_ofList]
  rcases lt_or_ge n 10 with hlt | hge
  · rw [Nat.toDigits_of_lt_base hlt, Nat.div_eq_of_lt hlt, Nat.mod_eq_of_lt hlt]
    rfl
  · rw [Nat.toDigits_of_base_le (by decide) hge, Nat.toDigits_of_lt_base (by omega)]
    rfl

/-- The text of some hundredths is the whole part, the point and the digits behind it. -/
theorem toList_hundredthsText (n : ℕ) : (Decimal.hundredthsText n).toList =
    Nat.toDigits 10 (n / 100) ++ point (hundredthDigits (n % 100)) := by
  have hpart : n % 100 < 100 := Nat.mod_lt n (by decide)
  dsimp only [Decimal.hundredthsText]
  rw [hundredthDigits, Nat.toString_eq_ofList_toDigits]
  split_ifs with hzero hten
  · simp [point]
  · rw [Nat.toString_eq_ofList_toDigits,
      Nat.toDigits_of_lt_base (by omega : n % 100 / 10 < 10)]
    simp [point]
  · rw [String.toList_append, toList_padded hpart]
    simp [point]

theorem trimEnd_padded (hn : n < 100) :
    Text.trimEnd (· == '0') (Decimal.padded 2 n).toList = hundredthDigits n := by
  rw [toList_padded hn]
  revert hn
  exact (by decide : ∀ n < 100, Text.trimEnd (· == '0')
    [Nat.digitChar (n / 10), Nat.digitChar (n % 10)] = hundredthDigits n) n

/-- Trimming two places leaves the canonical text: it does not get past the point, and drops the
point only if no digit is left behind it. -/
theorem trimmed_signedText (negative : Bool) (n : ℕ) :
    Decimal.trimmed (Decimal.signedText 2 negative n) =
      (if negative then "-" else "") ++ Decimal.hundredthsText n := by
  let front := (if negative then "-" else "").toList ++ Nat.toDigits 10 (n / 100)
  have hsigned : (Decimal.signedText 2 negative n).toList =
      front ++ '.' :: (Decimal.padded 2 (n % 100)).toList := by
    rw [Decimal.signedText, Decimal.fixedText, show tenTo 2 = 100 from rfl,
      Nat.toString_eq_ofList_toDigits]
    simp [front]
  have hdigit (c : Char) (hc : c.isDigit) : (c == '.') = false :=
    beq_eq_false_iff_ne.mpr fun heq => absurd (heq ▸ hc) (by decide)
  have hfront : ∀ c ∈ front, (c == '.') = false := by
    intro c hc
    rcases List.mem_append.mp hc with hc | hc
    · cases negative with
      | false => cases hc
      | true =>
        rw [List.mem_singleton.mp hc]
        rfl
    · exact hdigit c (Nat.isDigit_of_mem_toDigits (by decide) (by decide) hc)
  have hpoint : Text.trimEnd (· == '.') (front ++ '.' :: hundredthDigits (n % 100)) =
      front ++ point (hundredthDigits (n % 100)) := by
    have hdigits := hundredthDigits_isDigit (Nat.mod_lt n (by decide : 100 > 0))
    cases hcons : hundredthDigits (n % 100) with
    | nil =>
      rw [show point [] = [] from rfl, List.append_nil]
      exact (List.rdropWhile_concat_pos _ _ _ rfl).trans (trimEnd_eq_self hfront)
    | cons d ds =>
      rw [hcons, List.forall_mem_cons] at hdigits
      rw [List.append_cons, trimEnd_append_cons (p := (· == '.')) (hdigit d hdigits.1),
        trimEnd_eq_self fun c hc => hdigit c (hdigits.2 c hc), ← List.append_cons]
      rfl
  apply String.toList_injective
  rw [Decimal.trimmed, String.toList_ofList, hsigned, trimEnd_append_cons rfl,
    trimEnd_padded (Nat.mod_lt n (by decide)), hpoint, String.toList_append,
    toList_hundredthsText, List.append_assoc]

/-- A whole number has the canonical text of its hundredths. -/
theorem toString_eq_ofHundredths (i : ℤ) : toString i = Decimal.ofHundredths (100 * i) := by
  have habs : (100 * i).natAbs = 100 * i.natAbs := Int.natAbs_mul 100 i
  have hpart : 100 * i.natAbs % 100 = 0 := Nat.mul_mod_right 100 i.natAbs
  have hwhole : 100 * i.natAbs / 100 = i.natAbs := Nat.mul_div_cancel_left _ (by decide)
  have htext : Decimal.hundredthsText (100 * i).natAbs = toString i.natAbs := by
    rw [Decimal.hundredthsText, habs, hpart, hwhole, if_pos rfl]
  rw [Decimal.ofHundredths, htext]
  cases i with
  | ofNat n => exact String.empty_append.symm
  | negSucc n => rfl

/-- The numeral of some hundredths. -/
def ofHundredths (h : ℤ) : Numeral where
  negative := h < 0
  whole := Nat.toDigits 10 (h.natAbs / 100)
  fraction := hundredthDigits (h.natAbs % 100)
  whole_digits _ hc := Nat.isDigit_of_mem_toDigits (by decide) (by decide) hc
  fraction_digits := hundredthDigits_isDigit (Nat.mod_lt _ (by decide))
  whole_ne_nil := Nat.toDigits_ne_nil
  first := toDigits_eq_of_head? _
  short := length_hundredthDigits_le _
  last := getLast?_hundredthDigits _
  unsigned_zero := by
    rintro hnegative ⟨hwhole, hfraction⟩
    have hzero := Literal.value_toDigits (h.natAbs / 100)
    rw [hwhole] at hzero
    rw [hundredthDigits_eq_nil_iff] at hfraction
    have hnegative : h < 0 := by simpa using hnegative
    have : h.natAbs / 100 = 0 := hzero.symm
    omega

theorem text_ofHundredths (h : ℤ) : (ofHundredths h).text = Decimal.ofHundredths h := by
  apply String.toList_injective
  rw [text, String.toList_ofList, toList, Decimal.ofHundredths, String.toList_append,
    toList_hundredthsText]
  by_cases hnegative : h < 0 <;> simp [ofHundredths, hnegative]

theorem value_ofHundredths (h : ℤ) : (ofHundredths h).value = h / 100 := by
  have hdigits := value_hundredthDigits (Nat.mod_lt h.natAbs (by decide : 0 < 100))
  have hsplit : (h.natAbs : ℚ) = 100 * (h.natAbs / 100 : ℕ) + (h.natAbs % 100 : ℕ) := by
    exact_mod_cast (Nat.div_add_mod h.natAbs 100).symm
  have hsize : (Literal.value ((ofHundredths h).whole ++ (ofHundredths h).fraction) /
      10 ^ (ofHundredths h).fraction.length : ℚ) = h.natAbs / 100 := by
    rw [Literal.value_append]
    push_cast
    rw [add_div, mul_div_cancel_left₀ _ (by positivity), ofHundredths, hdigits,
      Literal.value_toDigits, hsplit]
    ring
  rw [value, hsize, Binary64.signed, Nat.cast_natAbs, Int.cast_abs]
  by_cases hnegative : h < 0
  · rw [if_pos (by simpa [ofHundredths] using hnegative), abs_of_neg (by exact_mod_cast hnegative)]
    ring
  · rw [if_neg (by simpa [ofHundredths] using hnegative),
      abs_of_nonneg (by exact_mod_cast not_lt.mp hnegative)]

/-! ### Reading -/

section Reading

variable (t : Numeral)

theorem exists_cons : ∃ c cs, t.whole ++ point t.fraction = c :: cs ∧ c.isDigit := by
  obtain ⟨c, cs, h⟩ := List.exists_cons_of_ne_nil t.whole_ne_nil
  refine ⟨c, cs ++ point t.fraction, by rw [h, List.cons_append], t.whole_digits c ?_⟩
  rw [h]
  exact List.mem_cons_self

theorem sign_toList : Literal.sign t.toList = (t.negative, t.whole ++ point t.fraction) := by
  obtain ⟨c, cs, h, hc⟩ := t.exists_cons
  rw [toList, h]
  cases t.negative
  · -- a digit is no sign
    rw [if_neg Bool.false_ne_true, List.nil_append]
    unfold Literal.sign
    split
    · next heq =>
      cases heq
      exact absurd hc (by decide)
    · next heq =>
      cases heq
      exact absurd hc (by decide)
    · rfl
  · rfl

theorem digits_whole :
    Literal.digits (t.whole ++ point t.fraction) = (t.whole, point t.fraction) := by
  refine Literal.digits_append t.whole_digits fun c hc => ?_
  unfold point at hc
  split_ifs at hc
  · cases hc
  · cases hc
    decide

theorem digits_fraction : Literal.digits t.fraction = (t.fraction, []) := by
  have h := @Literal.digits_append t.fraction [] t.fraction_digits (by simp)
  rwa [List.append_nil] at h

end Reading

theorem point_injective : Function.Injective point := by
  intro ds es h
  unfold point at h
  split_ifs at h with hds hes
  · rw [hds, hes]
  · exact List.tail_eq_of_cons_eq h

/-- No other numeral has the text of a numeral. -/
theorem text_injective : Function.Injective text := by
  intro t u h
  have hlist : t.toList = u.toList := String.ofList_injective h
  have hsign := t.sign_toList
  rw [hlist, u.sign_toList, Prod.mk.injEq] at hsign
  have hdigits := t.digits_whole
  rw [← hsign.2, u.digits_whole, Prod.mk.injEq] at hdigits
  have hfraction := point_injective hdigits.2
  cases t
  cases u
  congr
  · exact hsign.1.symm
  · exact hdigits.1.symm
  · exact hfraction.symm

/-- The characters of a numeral are digits, a point and a sign. -/
theorem forall_mem_toList {P : Char → Prop} (hdigit : ∀ n < 10, P (Nat.digitChar n))
    (hpoint : P '.') (hsign : P '-') (t : Numeral) : ∀ c ∈ t.toList, P c := by
  have hdigits {ds : List Char} (hds : ∀ c ∈ ds, c.isDigit) : ∀ c ∈ ds, P c := by
    intro c hc
    obtain ⟨n, hn, rfl⟩ := exists_digitChar (hds c hc)
    exact hdigit n hn
  intro c hc
  unfold toList point at hc
  rcases List.mem_append.mp hc with hc | hc
  · split_ifs at hc
    · rwa [List.mem_singleton.mp hc]
    · cases hc
  · rcases List.mem_append.mp hc with hc | hc
    · exact hdigits t.whole_digits c hc
    · split_ifs at hc
      · cases hc
      · rcases List.mem_cons.mp hc with rfl | hc
        · exact hpoint
        · exact hdigits t.fraction_digits c hc

/-- The whole part and the fraction of a numeral are read as one count of its last places. -/
theorem decimal?_text (t : Numeral) :
    Literal.decimal? t.negative (t.whole ++ point t.fraction) = some (Literal.nearest t.negative
      (Literal.value (t.whole ++ t.fraction)) (t.whole ++ t.fraction).length
      (0 - t.fraction.length)) := by
  have hne : (t.whole ++ t.fraction).isEmpty = false := by simp [t.whole_ne_nil]
  rw [Literal.decimal?, digits_whole]
  by_cases hfraction : t.fraction = []
  · rw [hfraction, List.append_nil] at hne
    simp only [hfraction, point, if_true, List.append_nil, hne]
    rfl
  · simp only [point, if_neg hfraction, digits_fraction, hne]
    rfl

/-- The number that is read from the text of a numeral. -/
theorem read?_text (t : Numeral) : Literal.read? t.text = some (Binary64.ofQuotient t.negative
    (Literal.value (t.whole ++ t.fraction)) (tenTo t.fraction.length)) := by
  have htrim : Text.trimBoth Literal.isOuterBlank t.toList = t.toList :=
    trimBoth_eq_self (t.forall_mem_toList (by decide) (by decide) (by decide))
  have hplain : t.toList.map Literal.plainDigit = t.toList :=
    (List.map_congr_left (t.forall_mem_toList (by decide) (by decide) (by decide))).trans
      (List.map_id _)
  have hunderscore : '_' ∉ t.toList := fun h =>
    t.forall_mem_toList (P := (· ≠ '_')) (by decide) (by decide) (by decide) _ h rfl
  -- a text that begins with a digit is no name
  have hname : ∀ name ∈ ["inf", "infinity", "nan"],
      (t.whole ++ point t.fraction).map Char.toLower ≠ name.toList := by
    have hlower : ∀ n < 10, (Nat.digitChar n).toLower ∉ ['i', 'n'] := by decide
    have hletter : ∀ name ∈ ["inf", "infinity", "nan"], ∃ d ∈ ['i', 'n'],
        name.toList.head? = some d := by simp
    obtain ⟨c, cs, h, hc⟩ := t.exists_cons
    obtain ⟨n, hn, rfl⟩ := exists_digitChar hc
    intro name hmem heq
    obtain ⟨d, hd, hhead⟩ := hletter name hmem
    rw [← heq, h, List.map_cons, List.head?_cons, Option.some.injEq] at hhead
    exact hlower n hn (hhead ▸ hd)
  rw [Literal.read?, text, String.toList_ofList, htrim, hplain,
    Literal.dropUnderscores_eq hunderscore, Option.bind_some, Literal.plain?, sign_toList]
  simp only [hname "inf" (by simp), hname "infinity" (by simp), hname "nan" (by simp),
    decide_false, Bool.or_false, Bool.false_eq_true, if_false]
  rw [decimal?_text, Literal.nearest_eq _ _ (by simp)]

end Numeral
end FlowGrid
