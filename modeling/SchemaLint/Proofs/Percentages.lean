import Mathlib.RingTheory.Int.Basic
import SchemaLint.Number.Decimal
import SchemaLint.Proofs.Number.Rounding
import SchemaLint.Proofs.RunTotals

/-!
# The percentages of a summary

A summary gives the share of the files that passed and the share of those with errors, both
in percent with two decimal places. Each of the two is divided, multiplied by 100 and
rounded to hundredths on its own. Together they make 100.00% except where the exact share
lies in the middle of two hundredths of a percent: there a rounding error decides on each of
the two, and both can go down, or both up. With fewer than 160 files that never happens.
-/

namespace SchemaLint

open Number Text

/-! ## Two shares of a whole -/

/-- The shares `x` and `y` of `n`, known as `v` and `w` but for a small error and then rounded
to `k` and `l`. -/
structure RoundedShares (x y v w ε : ℚ) (k l n : ℤ) : Prop where
  whole : x + y = n
  small : ε ≤ 1 / 8
  first_near : |v - x| < ε
  second_near : |w - y| < ε
  first_nearest : Nearest v k
  second_nearest : Nearest w l

namespace RoundedShares

variable {x y v w ε : ℚ} {k l n : ℤ} (h : RoundedShares x y v w ε k l n)
include h

/-- What is rounded away or added stays within half a unit and the error, for each share. -/
theorem abs_sub_lt : |k - x| < 1 / 2 + ε ∧ |l - y| < 1 / 2 + ε := by
  constructor
  · calc |k - x| = |(k - v) + (v - x)| := by ring_nf
      _ ≤ |k - v| + |v - x| := abs_add_le _ _
      _ < 1 / 2 + ε := add_lt_add_of_le_of_lt h.first_nearest.near h.first_near
  · calc |l - y| = |(l - w) + (w - y)| := by ring_nf
      _ ≤ |l - w| + |w - y| := abs_add_le _ _
      _ < 1 / 2 + ε := add_lt_add_of_le_of_lt h.second_nearest.near h.second_near

/-- Rounding both shares loses or gains one at most. -/
theorem add_cases : k + l = n - 1 ∨ k + l = n ∨ k + l = n + 1 := by
  obtain ⟨hk, hl⟩ := h.abs_sub_lt
  obtain ⟨hklow, hkhigh⟩ := abs_lt.mp hk
  obtain ⟨hllow, hlhigh⟩ := abs_lt.mp hl
  have hsmall := h.small
  have hwhole := h.whole
  have hfrom : ((n - 2 : ℤ) : ℚ) < ((k + l : ℤ) : ℚ) := by push_cast; linarith
  have hto : ((k + l : ℤ) : ℚ) < ((n + 2 : ℤ) : ℚ) := by push_cast; linarith
  have hfrom' : n - 2 < k + l := by exact_mod_cast hfrom
  have hto' : k + l < n + 2 := by exact_mod_cast hto
  omega

/-- One is lost or gained only if the first share lies in a middle, but for the error. -/
theorem exists_middle (hoff : k + l ≠ n) : ∃ j : ℤ, Odd j ∧ |2 * x - j| < 2 * ε := by
  obtain ⟨hk, hl⟩ := h.abs_sub_lt
  obtain ⟨hklow, hkhigh⟩ := abs_lt.mp hk
  obtain ⟨hllow, hlhigh⟩ := abs_lt.mp hl
  have hwhole := h.whole
  rcases h.add_cases with hless | hsame | hmore
  · refine ⟨2 * k + 1, odd_two_mul_add_one k, ?_⟩
    have hcast : (k : ℚ) + l = n - 1 := by exact_mod_cast hless
    push_cast
    exact abs_lt.mpr ⟨by linarith, by linarith⟩
  · exact absurd hsame hoff
  · refine ⟨2 * k - 1, ⟨k - 1, by ring⟩, ?_⟩
    have hcast : (k : ℚ) + l = n + 1 := by exact_mod_cast hmore
    push_cast
    exact abs_lt.mpr ⟨by linarith, by linarith⟩

/-- In a middle the rounded shares add up if one of them is rounded up and the other down. -/
theorem add_eq_iff_of_middle {j : ℤ} (hj : Odd j) (hmiddle : |2 * x - j| < 2 * ε) :
    k + l = n ↔ (RoundsUp v j ↔ ¬ RoundsUp w (2 * n - j)) := by
  obtain ⟨hvlow, hvhigh⟩ := abs_lt.mp h.first_near
  obtain ⟨hwlow, hwhigh⟩ := abs_lt.mp h.second_near
  obtain ⟨hxlow, hxhigh⟩ := abs_lt.mp hmiddle
  have hsmall := h.small
  have hwhole := h.whole
  have hv : |2 * v - j| < 1 := abs_lt.mpr ⟨by linarith, by linarith⟩
  have hw : |2 * w - (2 * n - j : ℤ)| < 1 := by
    push_cast
    exact abs_lt.mpr ⟨by linarith, by linarith⟩
  have hj' : Odd (2 * n - j) := (even_two_mul n).sub_odd hj
  have hkup := h.first_nearest.two_mul_eq_of_roundsUp hj hv
  have hkdown := h.first_nearest.two_mul_eq_of_not_roundsUp hj hv
  have hlup := h.second_nearest.two_mul_eq_of_roundsUp hj' hw
  have hldown := h.second_nearest.two_mul_eq_of_not_roundsUp hj' hw
  by_cases hvup : RoundsUp v j
  · by_cases hwup : RoundsUp w (2 * n - j)
    · simp only [hvup, hwup, not_true_eq_false, iff_false]
      have hk := hkup hvup
      have hl := hlup hwup
      omega
    · simp only [hvup, hwup, not_false_eq_true, iff_true]
      have hk := hkup hvup
      have hl := hldown hwup
      omega
  · by_cases hwup : RoundsUp w (2 * n - j)
    · simp only [hvup, hwup, not_true_eq_false, iff_true]
      have hk := hkdown hvup
      have hl := hlup hwup
      omega
    · simp only [hvup, hwup, not_false_eq_true, iff_true, iff_false]
      have hk := hkdown hvup
      have hl := hldown hwup
      omega

/-- The rounded shares add up unless both are rounded up, or both down, in a middle. -/
theorem add_eq_iff : k + l = n ↔ ∀ j : ℤ, Odd j → |2 * x - j| < 2 * ε →
    (RoundsUp v j ↔ ¬ RoundsUp w (2 * n - j)) := by
  constructor
  · intro hsum j hj hmiddle
    exact (h.add_eq_iff_of_middle hj hmiddle).mp hsum
  · intro hall
    by_contra hoff
    obtain ⟨j, hj, hmiddle⟩ := h.exists_middle hoff
    exact hoff ((h.add_eq_iff_of_middle hj hmiddle).mpr (hall j hj hmiddle))

end RoundedShares

/-! ## The accuracy of a percentage -/

namespace Number

/-- A percentage is finite and its sign is plus; the quotient and the product err by less
than a 2 ^ 38th of a hundredth together, and not at all if the share is a multiple of 1/32. -/
structure AccuratePercentage (part total : ℕ) (x : Binary64) : Prop where
  positive : ∃ (m : ℕ) (e : ℤ), x = .finite false m e
  near : |100 * x.absValue - 10000 * (part / total)| < 1 / 2 ^ 38
  of_multiple : ∀ a : ℤ, (part : ℚ) / total = a / 32 → x.absValue = 100 * (part / total)

theorem accuratePercentage {part total : ℕ} (hle : part ≤ total) (hpos : 0 < total) :
    AccuratePercentage part total (percentage part total) := by
  have htotal : (0 : ℚ) < total := by exact_mod_cast hpos
  have hshare : (part : ℚ) / total ≤ 1 := (div_le_one htotal).mpr (by exact_mod_cast hle)
  obtain ⟨m, e, hratio, hquotient⟩ :=
    Binary64.ofRatio_roundsTo false (j := 0) hpos (by simpa using hle) (by decide)
  have hquotientError : |(m : ℚ) * 2 ^ e - part / total| ≤ 1 / 2 ^ 53 :=
    hquotient.near.trans_eq (by norm_num)
  obtain ⟨hlow, hhigh⟩ := abs_le.mp hquotientError
  -- The quotient may have been rounded up, but a hundred times it is still below 2 ^ 7.
  obtain ⟨m', e', htimes, hproduct⟩ :=
    Binary64.times_roundsTo false m e (k := 100) (j := 7) (by norm_num; linarith) (by decide)
  have hproductError : |(m' : ℚ) * 2 ^ e' - m * 2 ^ e * 100| ≤ 1 / 2 ^ 46 :=
    hproduct.near.trans_eq (by norm_num)
  obtain ⟨hlow', hhigh'⟩ := abs_le.mp hproductError
  have hvalue : percentage part total = .finite false m' e' := by
    rw [percentage, if_neg hpos.ne', hratio, htimes]
  rw [hvalue]
  refine ⟨⟨m', e', rfl⟩, ?_, fun a ha => ?_⟩
  · -- In hundredths the first error counts 10000 times and the second 100 times.
    rw [Binary64.absValue_finite]
    apply abs_lt.mpr
    constructor
    · linarith
    · linarith
  · have hquotientExact := hquotient.of_multiple a (-5) (by decide) (by rw [ha]; norm_num; ring)
    have hproductExact := hproduct.of_multiple (100 * a) (-5) (by decide)
      (by rw [hquotientExact, ha]; push_cast; norm_num; ring)
    rw [Binary64.absValue_finite, hproductExact, hquotientExact]
    push_cast
    ring

/-! ## Reading a percentage -/

/-- The number of hundredths of a percent that a text such as `85.62%` stands for. -/
def hundredthsOf? (text : String) : Option Nat :=
  match text.toList.dropWhile isDigit with
  | ['.', tenths, ones, '%'] => naturalOf? (text.toList.takeWhile isDigit ++ [tenths, ones])
  | _ => none

theorem toList_renderHundredths (n : ℕ) : (renderHundredths n).toList =
    Nat.toDigits 10 (n / 100) ++
      ['.', (n % 100 / 10).digitChar, (n % 100 % 10).digitChar] := by
  have htenths : n % 100 / 10 < 10 := by omega
  have hones : n % 100 % 10 < 10 := by omega
  simp only [renderHundredths, Nat.toString_eq_ofList_toDigits, Nat.toDigits_of_lt_base htenths,
    Nat.toDigits_of_lt_base hones, String.toList_append, String.toList_ofList, List.append_assoc]
  rfl

theorem isDigit_digitChar {d : ℕ} (h : d < 10) : isDigit d.digitChar = true := by
  have hmem : d.digitChar ∈ Nat.toDigits 10 d := by simp [Nat.toDigits_of_lt_base h]
  exact Nat.isDigit_of_mem_toDigits (by decide) (by decide) hmem

theorem digitValue_digitChar {d : ℕ} (h : d < 10) : digitValue d.digitChar = d := by
  have hread : Nat.ofDigitChars 10 (Nat.toDigits 10 d) 0 = d := Nat.ofDigitChars_ten_toDigits
  rw [Nat.toDigits_of_lt_base h] at hread
  simpa [Nat.ofDigitChars, digitValue] using hread

theorem naturalOf?_append_digits (n : ℕ) {d d' : ℕ} (h : d < 10) (h' : d' < 10) :
    naturalOf? (Nat.toDigits 10 n ++ [d.digitChar, d'.digitChar]) =
      some (100 * n + 10 * d + d') := by
  have hdigits : (Nat.toDigits 10 n ++ [d.digitChar, d'.digitChar]).all isDigit = true := by
    rw [List.all_append, Bool.and_eq_true]
    constructor
    · exact List.all_eq_true.mpr fun c hc =>
        Nat.isDigit_of_mem_toDigits (by decide) (by decide) hc
    · simp [isDigit_digitChar h, isDigit_digitChar h']
  have hread : ofDigits (Nat.toDigits 10 n) = n := Nat.ofDigitChars_ten_toDigits
  rw [naturalOf?, hdigits, if_pos (by simp), ofDigits, List.foldl_append]
  rw [ofDigits] at hread
  rw [hread]
  simp only [List.foldl_cons, List.foldl_nil, digitValue_digitChar h, digitValue_digitChar h']
  congr 1
  omega

theorem hundredthsOf?_renderHundredths (n : ℕ) :
    hundredthsOf? (renderHundredths n ++ "%") = some n := by
  have htenths : n % 100 / 10 < 10 := by omega
  have hones : n % 100 % 10 < 10 := by omega
  have hwhole : ∀ c ∈ Nat.toDigits 10 (n / 100), isDigit c = true := fun c hc =>
    Nat.isDigit_of_mem_toDigits (by decide) (by decide) hc
  rw [hundredthsOf?, String.toList_append, toList_renderHundredths, List.append_assoc,
    List.dropWhile_append_of_pos hwhole, List.takeWhile_append_of_pos hwhole]
  show naturalOf? (Nat.toDigits 10 (n / 100) ++ [] ++
    [(n % 100 / 10).digitChar, (n % 100 % 10).digitChar]) = some n
  rw [List.append_nil, naturalOf?_append_digits _ htenths hones]
  congr 1
  omega

/-- A formatted percentage reads as the nearest number of hundredths. -/
theorem hundredthsOf?_formatPercentage {part total : ℕ} (hle : part ≤ total) (hpos : 0 < total) :
    ∃ p : ℕ, hundredthsOf? (formatPercentage (percentage part total)) = some p ∧
      Nearest (100 * (percentage part total).absValue) p := by
  obtain ⟨m, e, hfinite⟩ := (accuratePercentage hle hpos).positive
  rw [hfinite]
  refine ⟨Binary64.hundredths m e, ?_, ?_⟩
  · show hundredthsOf? ("" ++ renderHundredths (Binary64.hundredths m e) ++ "%") = _
    rw [String.empty_append, hundredthsOf?_renderHundredths]
  · have hnearest := nearest_roundDiv ((Binary64.fraction m e).1 * 100) (Binary64.fraction_pos m e)
    have hvalue : (((Binary64.fraction m e).1 * 100 : ℕ) : ℚ) / (Binary64.fraction m e).2 =
        100 * (Binary64.finite false m e).absValue := by
      rw [Binary64.absValue_finite, ← Binary64.fraction_div]
      push_cast
      ring
    rw [hvalue] at hnearest
    exact hnearest

/-! ## The share in the middle of two hundredths -/

/-- The share of `part` in `total` is `j` half hundredths of a percent for an odd `j`, but for
less than a 2 ^ 37th of one. -/
def NearMiddle (part total : ℕ) (j : ℤ) : Prop :=
  Odd j ∧ |20000 * (part : ℤ) - j * total| * 2 ^ 37 < total

theorem nearMiddle_iff {part total : ℕ} (hpos : 0 < total) (j : ℤ) :
    NearMiddle part total j ↔
      Odd j ∧ |2 * (10000 * ((part : ℚ) / total)) - j| < 2 * (1 / 2 ^ 38) := by
  have htotal : (0 : ℚ) < total := by exact_mod_cast hpos
  have hscaled : |2 * (10000 * ((part : ℚ) / total)) - j| * total =
      |20000 * (part : ℚ) - j * total| := by
    rw [← abs_of_pos htotal, ← abs_mul, abs_of_pos htotal]
    congr 1
    field_simp
    ring
  have hcast : |20000 * (part : ℤ) - j * total| * 2 ^ 37 < total ↔
      |20000 * (part : ℚ) - j * total| * 2 ^ 37 < total := by
    exact_mod_cast Iff.rfl
  rw [NearMiddle, hcast, ← hscaled, mul_right_comm, mul_lt_iff_lt_one_left htotal]
  apply and_congr_right
  intro _
  constructor
  · intro hlt
    norm_num at hlt ⊢
    linarith
  · intro hlt
    norm_num at hlt ⊢
    linarith

/-- Up to 2 ^ 37 parts, a share is not near a middle without being in it. -/
theorem NearMiddle.eq {part total : ℕ} {j : ℤ} (h : NearMiddle part total j)
    (hfew : total ≤ 2 ^ 37) : 20000 * (part : ℤ) = j * total := by
  have hlt := h.2
  have hfew' : (total : ℤ) ≤ 2 ^ 37 := by exact_mod_cast hfew
  have hzero : |20000 * (part : ℤ) - j * total| < 1 := by
    generalize |20000 * (part : ℤ) - j * total| = gap at hlt ⊢
    omega
  exact sub_eq_zero.mp (Int.abs_lt_one_iff.mp hzero)

section Middle

variable {part total : ℕ} {j : ℤ} (hmiddle : 20000 * (part : ℤ) = j * total)
include hmiddle

theorem dvd_of_middle (hj : Odd j) : 32 ∣ total := by
  have hdvd : (32 : ℤ) ∣ j * total := ⟨625 * part, by rw [← hmiddle]; ring⟩
  have hcoprime : IsCoprime (32 : ℤ) j := by
    have hpow : IsCoprime ((2 : ℤ) ^ 5) j := (Int.isCoprime_two_left.mpr hj).pow_left
    norm_num at hpow
    exact hpow
  exact_mod_cast hcoprime.dvd_of_dvd_mul_left hdvd

/-- A share in a middle is a multiple of 1/32 if the number of parts has no factor 5. -/
theorem exists_thirtySeconds (hfive : ¬ 5 ∣ total) : ∃ a : ℕ, 32 * part = a * total := by
  have hdvd : total ∣ 5 ^ 4 * (32 * part) := by
    have hdvd' : (total : ℤ) ∣ ((5 ^ 4 * (32 * part) : ℕ) : ℤ) :=
      ⟨j, by push_cast; rw [mul_comm (total : ℤ), ← hmiddle]; ring⟩
    exact_mod_cast hdvd'
  have hcoprime : Nat.Coprime total (5 ^ 4) :=
    Nat.Coprime.pow_right 4 ((Nat.Prime.coprime_iff_not_dvd Nat.prime_five).mpr hfive).symm
  obtain ⟨a, ha⟩ := hcoprime.dvd_of_dvd_mul_left hdvd
  exact ⟨a, by rw [ha, mul_comm]⟩

end Middle

theorem roundsUp_of_eq {x : ℚ} {j : ℤ} (h : 2 * x = j) : RoundsUp x j ↔ j % 4 = 3 := by
  simp [RoundsUp, h]

/-! ## The two percentages of a split -/

/-- Of the percentages of `part` and `rest`, which add up to `total`, one is rounded up and the
other down, where that of `part` is near `j` half hundredths. -/
def RoundedApart (part rest total : ℕ) (j : ℤ) : Prop :=
  RoundsUp (100 * (percentage part total).absValue) j ↔
    ¬ RoundsUp (100 * (percentage rest total).absValue) (20000 - j)

section Split

variable {part rest total : ℕ} (hsplit : part + rest = total) (hpos : 0 < total)
include hsplit hpos

theorem div_add_div_of_split : (part : ℚ) / total + rest / total = 1 := by
  have htotal : (total : ℚ) ≠ 0 := by exact_mod_cast hpos.ne'
  rw [← add_div, ← Nat.cast_add, hsplit, div_self htotal]

/-- The percentages of the two sides of a split, as they are written. -/
theorem exists_roundedShares :
    ∃ p q : ℕ, hundredthsOf? (formatPercentage (percentage part total)) = some p ∧
      hundredthsOf? (formatPercentage (percentage rest total)) = some q ∧
      RoundedShares (10000 * (part / total)) (10000 * (rest / total))
        (100 * (percentage part total).absValue) (100 * (percentage rest total).absValue)
        (1 / 2 ^ 38) p q 10000 := by
  have hpart : part ≤ total := by omega
  have hrest : rest ≤ total := by omega
  obtain ⟨p, hp, hpnearest⟩ := hundredthsOf?_formatPercentage hpart hpos
  obtain ⟨q, hq, hqnearest⟩ := hundredthsOf?_formatPercentage hrest hpos
  refine ⟨p, q, hp, hq, ?_⟩
  constructor
  · rw [← mul_add, div_add_div_of_split hsplit hpos]
    norm_num
  · norm_num
  · exact (accuratePercentage hpart hpos).near
  · exact (accuratePercentage hrest hpos).near
  · exact hpnearest
  · exact hqnearest

/-- In a middle that is a multiple of 1/32 both percentages are exact. -/
theorem roundedApart_of_thirtySeconds {j : ℤ} (hj : Odd j)
    (hmiddle : 20000 * (part : ℤ) = j * total) {a : ℕ} (ha : 32 * part = a * total) :
    RoundedApart part rest total j := by
  have htotal : (total : ℚ) ≠ 0 := by exact_mod_cast hpos.ne'
  have hone := div_add_div_of_split hsplit hpos
  have hpart : (part : ℚ) / total = ((a : ℤ) : ℚ) / 32 := by
    rw [div_eq_div_iff htotal (by norm_num), mul_comm]
    exact_mod_cast ha
  have hrest : (rest : ℚ) / total = ((32 - a : ℤ) : ℚ) / 32 := by
    push_cast at hpart ⊢
    linarith
  have hj' : 20000 * ((part : ℚ) / total) = j := by
    rw [← mul_div_assoc, div_eq_iff htotal]
    exact_mod_cast hmiddle
  have hpartExact := (accuratePercentage (by omega) hpos).of_multiple _ hpart
  have hrestExact := (accuratePercentage (by omega) hpos).of_multiple _ hrest
  rw [RoundedApart, hpartExact, hrestExact, roundsUp_of_eq (by linarith),
    roundsUp_of_eq (by push_cast; linarith)]
  obtain ⟨i, rfl⟩ := hj
  omega

/-- How the percentages of the two sides of a split add up. -/
theorem exists_percentages_of_split :
    ∃ p q : ℕ, hundredthsOf? (formatPercentage (percentage part total)) = some p ∧
      hundredthsOf? (formatPercentage (percentage rest total)) = some q ∧
      (p + q = 9999 ∨ p + q = 10000 ∨ p + q = 10001) ∧
      (p + q = 10000 ↔ ∀ j, NearMiddle part total j → RoundedApart part rest total j) := by
  obtain ⟨p, q, hp, hq, hshares⟩ := exists_roundedShares hsplit hpos
  have hcases := hshares.add_cases
  have hiff := hshares.add_eq_iff
  refine ⟨p, q, hp, hq, by omega, ?_⟩
  constructor
  · intro hsum j hmiddle
    obtain ⟨hj, hnear⟩ := (nearMiddle_iff hpos j).mp hmiddle
    exact hiff.mp (by exact_mod_cast hsum) j hj hnear
  · intro hall
    have hsum := hiff.mpr fun j hj hnear => hall j ((nearMiddle_iff hpos j).mpr ⟨hj, hnear⟩)
    exact_mod_cast hsum

/-- What a number of parts takes for a middle that is not rounded apart. -/
theorem dvd_of_not_roundedApart {j : ℤ} (hj : Odd j)
    (hmiddle : 20000 * (part : ℤ) = j * total) (hapart : ¬ RoundedApart part rest total j) :
    160 ∣ total := by
  have hfive : 5 ∣ total := by
    by_contra hfive
    obtain ⟨a, ha⟩ := exists_thirtySeconds hmiddle hfive
    exact hapart (roundedApart_of_thirtySeconds hsplit hpos hj hmiddle ha)
  have hthirtyTwo := dvd_of_middle hmiddle hj
  omega

end Split

end Number

/-! ## The percentages of a run -/

/-- The two percentages of a summary can be read, and they are off 100.00% by a hundredth at
most. They make 100.00% except in a middle where both are rounded up, or both down; up to
2 ^ 37 files that takes a number of files divisible by 160, and a share of passed files that
lies exactly in the middle of two hundredths of a percent. -/
theorem percentages_add_up_iff (r : RunReport) (h : r.files ≠ []) :
    ∃ passed failed : ℕ, hundredthsOf? r.summary.percentPassed = some passed ∧
      hundredthsOf? r.summary.percentWithErrors = some failed ∧
      (passed + failed = 9999 ∨ passed + failed = 10000 ∨ passed + failed = 10001) ∧
      (passed + failed = 10000 ↔ ∀ j, NearMiddle r.passedFiles r.totalFiles j →
        RoundedApart r.passedFiles r.filesWithErrors r.totalFiles j) ∧
      (passed + failed ≠ 10000 → r.totalFiles ≤ 2 ^ 37 → 160 ∣ r.totalFiles ∧
        ∃ j : ℤ, Odd j ∧ 20000 * (r.passedFiles : ℤ) = j * r.totalFiles) := by
  have hpos : 0 < r.totalFiles := List.length_pos_of_ne_nil h
  have hsplit := r.passedFiles_add_filesWithErrors
  obtain ⟨p, q, hp, hq, hcases, hiff⟩ := exists_percentages_of_split hsplit hpos
  refine ⟨p, q, hp, hq, hcases, hiff, ?_⟩
  intro hoff hfew
  rw [Ne, hiff] at hoff
  push Not at hoff
  obtain ⟨j, hnear, hapart⟩ := hoff
  have hmiddle := hnear.eq hfew
  exact ⟨dvd_of_not_roundedApart hsplit hpos hnear.1 hmiddle hapart, j, hnear.1, hmiddle⟩

/-- A report on `passed` clean files, and on `failed` files with an error each. -/
def reportOf (passed failed : ℕ) : RunReport where
  files := List.replicate passed ⟨"clean.graphql", [], 0⟩ ++
    List.replicate failed ⟨"broken.graphql",
      [Diagnostic.make "broken.graphql" 1 "undefined-type" "problem" "" none], 0⟩

/-- Thirds have no last decimal place, and still add up. -/
theorem percentages_add_up_iff_thirds :
    (reportOf 2 1).files ≠ [] ∧ (reportOf 2 1).totalFiles ≤ 2 ^ 37 ∧
      ∃ passed failed : ℕ, hundredthsOf? (reportOf 2 1).summary.percentPassed = some passed ∧
        hundredthsOf? (reportOf 2 1).summary.percentWithErrors = some failed ∧
        passed + failed = 10000 := by
  have hfiles : (reportOf 2 1).files ≠ [] := by decide
  have hfew : (reportOf 2 1).totalFiles ≤ 2 ^ 37 := by decide
  obtain ⟨passed, failed, hpassed, hfailed, -, -, hoff⟩ :=
    percentages_add_up_iff (reportOf 2 1) hfiles
  refine ⟨hfiles, hfew, passed, failed, hpassed, hfailed, ?_⟩
  by_contra hnot
  exact absurd (hoff hnot hfew).1 (by decide)

/-- 137 of 160 files are 85.625%, which the division hits, and 23 of them are 14.375%, which it
misses from below: both are rounded down. -/
theorem percentages_lose_hundredth :
    (reportOf 137 23).files ≠ [] ∧ (reportOf 137 23).summary.percentPassed = "85.62%" ∧
      (reportOf 137 23).summary.percentWithErrors = "14.37%" ∧
      hundredthsOf? "85.62%" = some 8562 ∧ hundredthsOf? "14.37%" = some 1437 ∧
      8562 + 1437 ≠ 10000 := by
  decide +kernel

end SchemaLint
