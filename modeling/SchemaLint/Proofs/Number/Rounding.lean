import Mathlib.Algebra.Order.Field.Power
import Mathlib.Algebra.Order.Field.Rat
import Mathlib.Tactic.FieldSimp
import Mathlib.Tactic.Linarith
import Mathlib.Tactic.Positivity
import Mathlib.Tactic.Ring
import SchemaLint.Number.Binary64

/-!
# Rounding to binary floating point

A fraction becomes a floating point number by one rounding: it is scaled by a power of two
and then taken to the nearest whole number, a tie going to the even one. So the error is at
most half of that power of two, and there is none if the scaled fraction is whole. How large
the power is follows from the size of the fraction alone.
-/

namespace SchemaLint.Number

/-! ## The nearest whole number -/

/-- `k` is nearest to `x`, and the even one if another is as near. -/
structure Nearest (x : ℚ) (k : ℤ) : Prop where
  near : |(k : ℚ) - x| ≤ 1 / 2
  tie : |(k : ℚ) - x| = 1 / 2 → Even k

/-- A number that lies near `j / 2`, the middle of two whole numbers, is rounded up: it lies
above the middle, or in the middle while the number above is the even one. -/
def RoundsUp (x : ℚ) (j : ℤ) : Prop := j < 2 * x ∨ (2 * x = j ∧ j % 4 = 3)

namespace Nearest

variable {x y : ℚ} {k l : ℤ}

theorem of_intCast (k : ℤ) : Nearest k k where
  near := by norm_num
  tie h := by norm_num at h

theorem le (hk : Nearest x k) (hl : Nearest x l) : l ≤ k := by
  by_contra hnot
  have hlt : k < l := not_le.mp hnot
  obtain ⟨hklow, hkhigh⟩ := abs_le.mp hk.near
  obtain ⟨hllow, hlhigh⟩ := abs_le.mp hl.near
  have hstep : (k : ℚ) + 1 ≤ l := by exact_mod_cast hlt
  -- Both are half a unit away, on the two sides, so both would be even.
  have hkdist : (k : ℚ) - x = -(1 / 2) := by linarith
  have hldist : (l : ℚ) - x = 1 / 2 := by linarith
  have hkeven : Even k := hk.tie (by rw [hkdist]; norm_num)
  have hleven : Even l := hl.tie (by rw [hldist]; norm_num)
  have hnext : l = k + 1 := by
    have hcast : (l : ℚ) = k + 1 := by linarith
    exact_mod_cast hcast
  rw [hnext] at hleven
  exact (Int.not_even_iff_odd.mpr hkeven.add_one) hleven

theorem unique (hk : Nearest x k) (hl : Nearest x l) : k = l :=
  le_antisymm (hl.le hk) (hk.le hl)

section Middle

variable {j : ℤ} (h : Nearest x k) (hj : Odd j) (hclose : |2 * x - j| < 1)
include h hj hclose

/-- Close to the middle of two whole numbers, the nearest one is one of the two. -/
theorem two_mul_eq_or : 2 * k = j - 1 ∨ 2 * k = j + 1 := by
  obtain ⟨hlow, hhigh⟩ := abs_le.mp h.near
  obtain ⟨hbelow, habove⟩ := abs_lt.mp hclose
  have hfrom : ((j - 2 : ℤ) : ℚ) < ((2 * k : ℤ) : ℚ) := by push_cast; linarith
  have hto : ((2 * k : ℤ) : ℚ) < ((j + 2 : ℤ) : ℚ) := by push_cast; linarith
  have hfrom' : j - 2 < 2 * k := by exact_mod_cast hfrom
  have hto' : 2 * k < j + 2 := by exact_mod_cast hto
  obtain ⟨i, rfl⟩ := hj
  omega

theorem two_mul_eq_of_roundsUp (hup : RoundsUp x j) : 2 * k = j + 1 := by
  rcases h.two_mul_eq_or hj hclose with hdown | hdone
  · have hcast : 2 * (k : ℚ) = j - 1 := by exact_mod_cast hdown
    obtain ⟨hlow, -⟩ := abs_le.mp h.near
    rcases hup with habove | ⟨hmiddle, hmod⟩
    · linarith
    · have hdist : (k : ℚ) - x = -(1 / 2) := by linarith
      obtain ⟨i, hi⟩ := h.tie (by rw [hdist]; norm_num)
      omega
  · exact hdone

theorem two_mul_eq_of_not_roundsUp (hup : ¬ RoundsUp x j) : 2 * k = j - 1 := by
  rcases h.two_mul_eq_or hj hclose with hdone | hupward
  · exact hdone
  · have hcast : 2 * (k : ℚ) = j + 1 := by exact_mod_cast hupward
    obtain ⟨-, hhigh⟩ := abs_le.mp h.near
    have hnotabove : 2 * x ≤ j := not_lt.mp fun habove => hup (.inl habove)
    have hmiddle : 2 * x = j := by linarith
    have hdist : (k : ℚ) - x = 1 / 2 := by linarith
    obtain ⟨i, hi⟩ := h.tie (by rw [hdist]; norm_num)
    exact absurd (.inr ⟨hmiddle, by omega⟩) hup

end Middle

end Nearest

/-- The remainder of a division as a fraction of the divisor. -/
theorem div_eq_add_mod_div (num : ℕ) {den : ℕ} (hden : 0 < den) :
    (num : ℚ) / den = (num / den : ℕ) + ((num % den : ℕ) : ℚ) / den := by
  have hne : (den : ℚ) ≠ 0 := by exact_mod_cast hden.ne'
  have hcast : ((den * (num / den) + num % den : ℕ) : ℚ) = num := by rw [Nat.div_add_mod]
  push_cast at hcast
  field_simp
  linarith

/-- Rounding goes down from below the middle and up from above it; in the middle it goes to
the even side. -/
theorem roundDiv_cases (num den : ℕ) :
    (roundDiv num den = num / den ∧ 2 * (num % den) ≤ den ∧
      (2 * (num % den) = den → Even (num / den))) ∨
    (roundDiv num den = num / den + 1 ∧ den ≤ 2 * (num % den) ∧
      (2 * (num % den) = den → Even (num / den + 1))) := by
  unfold roundDiv
  dsimp only
  simp only [Nat.even_iff]
  split
  · next h =>
    simp only [Bool.or_eq_true, decide_eq_true_eq, Bool.and_eq_true, beq_iff_eq] at h
    exact .inl ⟨rfl, by omega, by omega⟩
  · next h =>
    simp only [Bool.or_eq_true, decide_eq_true_eq, Bool.and_eq_true, beq_iff_eq] at h
    exact .inr ⟨rfl, by omega, by omega⟩

theorem nearest_roundDiv (num : ℕ) {den : ℕ} (hden : 0 < den) :
    Nearest ((num : ℚ) / den) (roundDiv num den) := by
  have hpos : (0 : ℚ) < den := by exact_mod_cast hden
  have hmod : ((num % den : ℕ) : ℚ) / den < 1 := by
    rw [div_lt_one hpos]
    exact_mod_cast Nat.mod_lt num hden
  have htie : ((num % den : ℕ) : ℚ) / den = 1 / 2 ↔ 2 * (num % den) = den := by
    rw [div_eq_div_iff hpos.ne' two_ne_zero, one_mul, mul_comm]
    exact_mod_cast Iff.rfl
  rcases roundDiv_cases num den with ⟨hround, hhalf, heven⟩ | ⟨hround, hhalf, heven⟩
  · have hdist : |((roundDiv num den : ℤ) : ℚ) - num / den| = ((num % den : ℕ) : ℚ) / den := by
      rw [hround, div_eq_add_mod_div num hden, Int.cast_natCast, sub_add_cancel_left, abs_neg,
        abs_of_nonneg (by positivity)]
    constructor
    · rw [hdist, div_le_div_iff₀ hpos two_pos, one_mul, mul_comm]
      exact_mod_cast hhalf
    · intro h
      rw [hround]
      exact (Int.even_coe_nat _).mpr (heven (htie.mp (hdist ▸ h)))
  · have hdist : |((roundDiv num den : ℤ) : ℚ) - num / den| =
        1 - ((num % den : ℕ) : ℚ) / den := by
      rw [hround, div_eq_add_mod_div num hden, ← abs_of_pos (sub_pos.mpr hmod), Int.cast_natCast,
        Nat.cast_add_one]
      congr 1
      ring
    constructor
    · have hge : 1 / 2 ≤ ((num % den : ℕ) : ℚ) / den := by
        rw [div_le_div_iff₀ two_pos hpos, one_mul, mul_comm]
        exact_mod_cast hhalf
      rw [hdist]
      linarith
    · intro h
      rw [hround]
      exact (Int.even_coe_nat _).mpr (heven (htie.mp (by rw [hdist] at h; linarith)))

/-! ## Floating point numbers as fractions -/

namespace Binary64

theorem two_zpow_pos (e : ℤ) : (0 : ℚ) < 2 ^ e := zpow_pos two_pos e

/-- A finite number stands for mantissa · 2 ^ exponent. -/
theorem fraction_div (m : ℕ) (e : ℤ) :
    ((fraction m e).1 : ℚ) / (fraction m e).2 = m * 2 ^ e := by
  cases e with
  | ofNat k => simp [fraction]
  | negSucc k => simp [fraction, zpow_negSucc, div_eq_mul_inv]

/-- The value of a number without its sign; what is not finite counts as 0. -/
def absValue (x : Binary64) : ℚ := (x.magnitude.1 : ℚ) / x.magnitude.2

theorem absValue_finite (negative : Bool) (m : ℕ) (e : ℤ) :
    (finite negative m e).absValue = m * 2 ^ e := fraction_div m e

theorem fraction_pos (m : ℕ) (e : ℤ) : 0 < (fraction m e).2 := by
  cases e with
  | ofNat k => exact Nat.one_pos
  | negSucc k => exact Nat.two_pow_pos _

theorem scaleBy_div (num den : ℕ) (e : ℤ) :
    ((scaleBy num den e).1 : ℚ) / (scaleBy num den e).2 = (num : ℚ) / den / 2 ^ e := by
  cases e with
  | ofNat k => simp [scaleBy, div_div]
  | negSucc k => simp [scaleBy, zpow_negSucc, div_mul_eq_mul_div]

theorem scaleBy_pos (num : ℕ) {den : ℕ} (hden : 0 < den) (e : ℤ) : 0 < (scaleBy num den e).2 := by
  cases e with
  | ofNat k => exact Nat.mul_pos hden (Nat.two_pow_pos _)
  | negSucc k => exact hden

/-- A fraction up to `2 ^ j` is scaled by at most `2 ^ (j - 52)`. -/
theorem exponentOf_le {num den j : ℕ} (h : num ≤ 2 ^ j * den) :
    exponentOf num den ≤ (j : ℤ) - 52 := by
  have hlog : num.log2 ≤ j + den.log2 := by
    by_cases hnum : num = 0
    · simp [hnum]
    · apply Nat.lt_succ_iff.mp
      apply (Nat.pow_lt_pow_iff_right Nat.one_lt_two).mp
      calc 2 ^ num.log2 ≤ num := Nat.log2_self_le hnum
        _ ≤ 2 ^ j * den := h
        _ < 2 ^ j * 2 ^ (den.log2 + 1) :=
          Nat.mul_lt_mul_of_pos_left Nat.lt_log2_self (Nat.two_pow_pos j)
        _ = 2 ^ (j + den.log2 + 1) := by rw [← Nat.pow_add, Nat.add_assoc]
  unfold exponentOf roughExponent leastExponent
  dsimp only
  split <;> omega

/-- The mantissa of a fraction at an exponent is the whole number nearest to what the
fraction is there. -/
theorem nearest_scaled (num : ℕ) {den : ℕ} (hden : 0 < den) (e : ℤ) :
    Nearest ((num : ℚ) / den / 2 ^ e)
      (roundDiv (scaleBy num den e).1 (scaleBy num den e).2) := by
  rw [← scaleBy_div]
  exact nearest_roundDiv _ (scaleBy_pos num hden e)

/-- A fraction of moderate size becomes a finite number, by one rounding. -/
theorem ofRatio_eq_finite (negative : Bool) (num : ℕ) {den : ℕ} (hden : 0 < den)
    (h : exponentOf num den < greatestExponent) :
    ∃ (m : ℕ) (e k : ℤ), ofRatio negative num den = .finite negative m e ∧
      (m : ℚ) * 2 ^ e = k * 2 ^ exponentOf num den ∧
      Nearest ((num : ℚ) / den / 2 ^ exponentOf num den) k := by
  by_cases hzero : num = 0
  · refine ⟨0, leastExponent, 0, by rw [ofRatio, if_pos hzero], by simp, ?_⟩
    simpa [hzero] using Nearest.of_intCast 0
  · have hnearest := nearest_scaled num hden (exponentOf num den)
    rw [ofRatio, if_neg hzero]
    extract_lets e
    have he : exponentOf num den = e := rfl
    -- From here on the exponent and the scaled fraction are variables: unfolded, they
    -- multiply by large powers of two.
    rw [he] at h hnearest ⊢
    clear_value e
    generalize scaleBy num den e = scaled at hnearest ⊢
    obtain ⟨n, d⟩ := scaled
    dsimp only at hnearest ⊢
    generalize roundDiv n d = m at hnearest ⊢
    by_cases hfull : m = Nat.pow 2 mantissaBits
    · rw [if_pos hfull]
      dsimp only
      rw [if_neg (not_lt.mpr (Int.add_one_le_iff.mpr h))]
      refine ⟨Nat.pow 2 (mantissaBits - 1), e + 1, m, rfl, ?_, hnearest⟩
      have hdouble : Nat.pow 2 mantissaBits = 2 * Nat.pow 2 (mantissaBits - 1) := by decide
      rw [hfull, hdouble, zpow_add_one₀ two_ne_zero]
      generalize Nat.pow 2 (mantissaBits - 1) = half
      push_cast
      ring
    · rw [if_neg hfull]
      dsimp only
      rw [if_neg (not_lt.mpr h.le)]
      exact ⟨m, e, m, rfl, by rw [Int.cast_natCast], hnearest⟩

/-- `v` is `x` rounded to a multiple of `2 ^ b` or more finely. -/
structure RoundsTo (x : ℚ) (b : ℤ) (v : ℚ) : Prop where
  near : |v - x| ≤ 2 ^ b / 2
  of_multiple : ∀ a c : ℤ, b ≤ c → x = a * 2 ^ c → v = x

theorem roundsTo_of_nearest {x : ℚ} {e b k : ℤ} (hk : Nearest (x / 2 ^ e) k) (h : e ≤ b) :
    RoundsTo x b (k * 2 ^ e) := by
  have hpos := two_zpow_pos e
  constructor
  · calc |(k : ℚ) * 2 ^ e - x| = |(k : ℚ) - x / 2 ^ e| * 2 ^ e := by
          rw [← abs_of_pos hpos, ← abs_mul, abs_of_pos hpos, sub_mul, div_mul_cancel₀ x hpos.ne']
      _ ≤ 1 / 2 * 2 ^ e := by gcongr; exact hk.near
      _ = 2 ^ e / 2 := by ring
      _ ≤ 2 ^ b / 2 := by gcongr; norm_num
  · intro a c hc ha
    -- A multiple of the coarser power is a whole number of the finer ones.
    obtain ⟨i, rfl⟩ := Int.le.dest (h.trans hc)
    have hwhole : x / 2 ^ e = ((a * 2 ^ i : ℤ) : ℚ) := by
      rw [ha, zpow_add₀ two_ne_zero, div_eq_iff hpos.ne']
      push_cast
      rw [zpow_natCast]
      ring
    rw [hwhole] at hk
    rw [hk.unique (.of_intCast _), ← hwhole, div_mul_cancel₀ x hpos.ne']

/-- A fraction up to `2 ^ j` becomes a finite number with the accuracy that 53 bits give it. -/
theorem ofRatio_roundsTo (negative : Bool) {num den j : ℕ} (hden : 0 < den)
    (h : num ≤ 2 ^ j * den) (hj : j < 1023) :
    ∃ (m : ℕ) (e : ℤ), ofRatio negative num den = .finite negative m e ∧
      RoundsTo ((num : ℚ) / den) (j - 52) (m * 2 ^ e) := by
  have hexponent := exponentOf_le h
  have hrange : exponentOf num den < greatestExponent := by
    unfold greatestExponent
    omega
  obtain ⟨m, e, k, heq, hvalue, hnearest⟩ := ofRatio_eq_finite negative num hden hrange
  refine ⟨m, e, heq, ?_⟩
  rw [hvalue]
  exact roundsTo_of_nearest hnearest hexponent

/-- Multiplying by a whole number rounds the exact product. -/
theorem times_roundsTo (negative : Bool) (m : ℕ) (e : ℤ) {k j : ℕ}
    (h : (m : ℚ) * 2 ^ e * k ≤ 2 ^ j) (hj : j < 1023) :
    ∃ (m' : ℕ) (e' : ℤ), (finite negative m e).times k = .finite negative m' e' ∧
      RoundsTo (m * 2 ^ e * k) (j - 52) (m' * 2 ^ e') := by
  have hden := fraction_pos m e
  have hpos : (0 : ℚ) < (fraction m e).2 := by exact_mod_cast hden
  have hvalue : (((fraction m e).1 * k : ℕ) : ℚ) / (fraction m e).2 = m * 2 ^ e * k := by
    rw [← fraction_div]
    push_cast
    ring
  have hsize : (fraction m e).1 * k ≤ 2 ^ j * (fraction m e).2 := by
    rw [← hvalue, div_le_iff₀ hpos] at h
    exact_mod_cast h
  rw [← hvalue]
  exact ofRatio_roundsTo negative hden hsize hj

end Binary64

end SchemaLint.Number
