import LispScript.Proofs.Nearest
import LispScript.Proofs.Shortest

/-!
This module contains the proof that a quotient is rounded to the real that is nearest to it. It is computed to
more digits than are needed, and the rest only has to tell on which side of a half it is.
-/

namespace LispScript

open Float.Model (UnpackedFloat totalExponent)
open Float.Model.Format (binary64)
open Float.Model.UnpackedFloat (ExtendedMantissa Sign shiftToTargetExponent)

/--
A number with 53 binary digits.
-/
structure Decimal.Binary.Normal (b : Binary) : Prop extends b.Fits where
  above : -1074 < b.exponent
  narrowed : b.mantissa = 2 ^ 52 → b.narrowBelow

theorem Decimal.Binary.Normal.low {b : Binary} (hb : b.Normal) : 2 ^ 52 ≤ b.mantissa :=
  hb.first hb.above

open Decimal (Binary two_zpow_pos quotient_bounds)

namespace Rounding

/--
How a number is marked by the significand of its whole part and two more digits.
-/
inductive Marks (y : ℚ) : Nat → Prop where
  | exact {k : Nat} (h : 2 * y = k) : Marks y (2 * k)
  | between {k : Nat} (h : k < 2 * y) (h' : 2 * y < k + 1) : Marks y (2 * k + 1)

theorem Marks.shiftRightOne {y : ℚ} {em : ExtendedMantissa} (h : Marks y (quarters em)) :
    Marks (y / 2) (quarters em.shiftRightOne) := by
  rw [quarters_shiftRightOne]
  generalize quarters em = q at h
  cases h with
  | @exact k h =>
    rcases Nat.even_or_odd' k with ⟨j, rfl | rfl⟩
    . rw [show 2 * (2 * (2 * j) / 4) + min 1 (2 * (2 * j) % 4) = 2 * j by omega]
      push_cast at h
      exact .exact (by linarith)
    . rw [show 2 * (2 * (2 * j + 1) / 4) + min 1 (2 * (2 * j + 1) % 4) = 2 * j + 1 by omega]
      push_cast at h
      exact .between (by linarith) (by linarith)
  | @between k h h' =>
    rcases Nat.even_or_odd' k with ⟨j, rfl | rfl⟩
    . rw [show 2 * ((2 * (2 * j) + 1) / 4) + min 1 ((2 * (2 * j) + 1) % 4) = 2 * j + 1 by omega]
      push_cast at h h'
      exact .between (by linarith) (by linarith)
    . rw [show 2 * ((2 * (2 * j + 1) + 1) / 4) + min 1 ((2 * (2 * j + 1) + 1) % 4) = 2 * j + 1 by omega]
      push_cast at h h'
      exact .between (by linarith) (by linarith)

theorem Marks.shiftRight {y : ℚ} {em : ExtendedMantissa} (h : Marks y (quarters em)) (k : Nat) :
    Marks (y / 2 ^ k) (quarters (em >>> k)) := by
  induction k with
  | zero =>
    rw [pow_zero, div_one]
    exact h
  | succ k ih =>
    rw [shiftRight_succ, pow_succ, ← div_div]
    exact ih.shiftRightOne

theorem marks_fraction (a : Nat) {b : Nat} (hb : 0 < b) :
    let accuracy := UnpackedFloat.accuracyOfFraction (a % b) b
    Marks (a / b) (quarters (.ofMantissaAndAccuracy (a / b) accuracy)) := by
  intro accuracy
  have hpos : (0 : ℚ) < b := Nat.cast_pos.2 hb
  have hdiv : (a : ℚ) = b * (a / b : Nat) + (a % b : Nat) := by
    exact_mod_cast (Nat.div_add_mod a b).symm
  have hless := Nat.mod_lt a hb
  simp only [accuracy, UnpackedFloat.accuracyOfFraction]
  generalize a / b = q at hdiv
  generalize a % b = r at hdiv hless
  -- What the rest adds to the halves in the quotient.
  have hhalves : 2 * ((a : ℚ) / b) = (2 * q : Nat) + (2 * r : Nat) / b := by
    rw [hdiv]
    field_simp
    push_cast
    ring
  split
  . next hr =>
    rw [hr, Nat.mul_zero, Nat.cast_zero, zero_div, add_zero] at hhalves
    have hquarters : quarters (.ofMantissaAndAccuracy q .exact) = 2 * (2 * q) := by
      rw [← Nat.mul_assoc]
      rfl
    rw [hquarters]
    exact .exact hhalves
  . next hr =>
    rcases Nat.lt_trichotomy (2 * r) b with h | h | h
    . have hquarters : quarters (.ofMantissaAndAccuracy q (.inexact .lt)) = 2 * (2 * q) + 1 := by
        rw [← Nat.mul_assoc]
        rfl
      have hrest : 0 < ((2 * r : Nat) : ℚ) / b := div_pos (Nat.cast_pos.2 (by omega)) hpos
      have hrest' : ((2 * r : Nat) : ℚ) / b < 1 := (div_lt_one hpos).2 (Nat.cast_lt.2 h)
      rw [Nat.compare_eq_lt.2 h, hquarters]
      exact .between (by linarith) (by linarith)
    . have hquarters : quarters (.ofMantissaAndAccuracy q (.inexact .eq)) = 2 * (2 * q + 1) := by
        rw [Nat.mul_add, ← Nat.mul_assoc]
        rfl
      rw [Nat.compare_eq_eq.2 h, hquarters]
      rw [h, div_self hpos.ne'] at hhalves
      exact .exact (by rw [hhalves, Nat.cast_succ])
    . have hquarters : quarters (.ofMantissaAndAccuracy q (.inexact .gt)) = 2 * (2 * q + 1) + 1 := by
        rw [Nat.mul_add, ← Nat.mul_assoc]
        rfl
      have hrest : 1 < ((2 * r : Nat) : ℚ) / b := (one_lt_div hpos).2 (Nat.cast_lt.2 h)
      have hrest' : ((2 * r : Nat) : ℚ) / b < 2 := by
        rw [div_lt_iff₀ hpos]
        exact_mod_cast Nat.mul_lt_mul_of_pos_left hless Nat.two_pos
      rw [Nat.compare_eq_gt.2 h, hquarters]
      exact .between (by push_cast at *; linarith) (by push_cast at *; linarith)

/--
A number that is no more than one half away from `m` is rounded to it, and a half to the even one.
-/
theorem Marks.roundedMantissa {y : ℚ} {em : ExtendedMantissa} (h : Marks y (quarters em)) {m : Nat}
    (hlow : m - 1 / 2 ≤ y) (hhigh : y ≤ m + 1 / 2)
    (hodd : m % 2 = 1 → m - 1 / 2 < y ∧ y < m + 1 / 2) : em.roundedMantissa = m := by
  rw [roundedMantissa_eq]
  generalize quarters em = q at h
  cases h with
  | @exact k h =>
    have hlow' : 2 * m ≤ k + 1 := by
      have : (2 * m : ℚ) ≤ k + 1 := by linarith
      exact_mod_cast this
    have hhigh' : k ≤ 2 * m + 1 := by
      have : (k : ℚ) ≤ 2 * m + 1 := by linarith
      exact_mod_cast this
    have hodd' : m % 2 = 1 → 2 * m < k + 1 ∧ k < 2 * m + 1 := by
      intro hm
      have hlow : (2 * m : ℚ) < k + 1 := by linarith [hodd hm]
      have hhigh : (k : ℚ) < 2 * m + 1 := by linarith [hodd hm]
      exact ⟨by exact_mod_cast hlow, by exact_mod_cast hhigh⟩
    split <;> omega
  | @between k h h' =>
    have hlow' : 2 * m < k + 2 := by
      have : (2 * m : ℚ) < k + 2 := by linarith
      exact_mod_cast this
    have hhigh' : k < 2 * m + 1 := by
      have : (k : ℚ) < 2 * m + 1 := by linarith
      exact_mod_cast this
    split <;> omega

/-! Quotients. -/

/--
A quotient has been computed to the digit with exponent `e`, with at least one digit.
-/
theorem log2_add {y : ℚ} {q : Nat} {e p : Int} (hq : q ≤ y / 2 ^ e) (hq' : y / 2 ^ e < q + 1)
    (hpos : q ≠ 0) (hp : 2 ^ p ≤ y) (hp' : y < 2 ^ (p + 1)) : q.log2 + e = p := by
  have hlow : (2 : ℚ) ^ (q.log2 + e) ≤ y := by
    rw [zpow_add₀ two_ne_zero, ← le_div_iff₀ (two_zpow_pos e), zpow_natCast]
    calc
      (2 : ℚ) ^ q.log2 ≤ q := by exact_mod_cast Nat.log2_self_le hpos
      _ ≤ y / 2 ^ e := hq
  have hhigh : y < (2 : ℚ) ^ (q.log2 + 1 + e) := by
    rw [zpow_add₀ two_ne_zero, ← div_lt_iff₀ (two_zpow_pos e)]
    calc
      y / 2 ^ e < q + 1 := hq'
      _ ≤ 2 ^ (q.log2 + 1 : Int) := by exact_mod_cast Nat.lt_log2_self
  have h := (zpow_lt_zpow_iff_right₀ one_lt_two).1 (hlow.trans_lt hp')
  have h' := (zpow_lt_zpow_iff_right₀ one_lt_two).1 (hp.trans_lt hhigh)
  omega

/--
The digits beyond the 53rd one are dropped.
-/
theorem exists_shiftToTargetExponent {y : ℚ} {q : Nat} {e p : Int} {accuracy : UnpackedFloat.Accuracy}
    (hmarks : Marks (y / 2 ^ e) (quarters (.ofMantissaAndAccuracy q accuracy))) (hlog : q.log2 + e = p)
    (hp : -1022 ≤ p) (he : e ≤ p - 52) :
    ∃ em, shiftToTargetExponent binary64 q e accuracy = (em, p - 52) ∧
      Marks (y / 2 ^ (p - 52)) (quarters em) := by
  obtain ⟨k, hk⟩ := Int.le.dest he
  have hamount : (p - 52 - e).toNat = k := by omega
  refine ⟨ExtendedMantissa.ofMantissaAndAccuracy q accuracy >>> k, ?_, ?_⟩
  . rw [shiftToTargetExponent, targetExponent_eq q e (by omega), hlog, UnpackedFloat.shiftToExponent,
      hamount, hk]
  . rw [← hk, zpow_add₀ two_ne_zero, zpow_natCast, ← div_div]
    exact hmarks.shiftRight k

variable {b : Binary} {y : ℚ}

theorem scaled (y : ℚ) (e : Int) (k : Nat) : y / 2 ^ e = y / 2 ^ (e + k) * 2 ^ k := by
  have hpow : (2 : ℚ) ^ e ≠ 0 := (two_zpow_pos e).ne'
  rw [zpow_add₀ two_ne_zero, zpow_natCast]
  field_simp

/--
The place of the first binary digit. It is one lower for the numbers that are rounded up to a power of two.
-/
theorem exists_magnitude (hb : b.Normal) (h : b.Covers y) : ∃ p : Int, 2 ^ p ≤ y ∧ y < 2 ^ (p + 1) ∧
    (p = b.exponent + 52 ∨ p + 1 = b.exponent + 52 ∧ b.mantissa = 2 ^ 52 ∧ b.narrowBelow) := by
  have hpow := two_zpow_pos b.exponent
  have hlow := h.low
  have hhigh : y < 2 ^ (b.exponent + 53) := by
    have hdigits : (b.mantissa : ℚ) + 1 ≤ 2 ^ 53 := by exact_mod_cast hb.digits
    rw [zpow_add₀ two_ne_zero, mul_comm, ← div_lt_iff₀ hpow]
    norm_num at hdigits ⊢
    linarith [h.high]
  by_cases hy : 2 ^ (b.exponent + 52) ≤ y
  . exact ⟨_, hy, by rwa [Int.add_assoc], .inl rfl⟩
  . have hless : y / 2 ^ b.exponent < 2 ^ 52 := by
      rw [div_lt_iff₀ hpow, mul_comm, ← zpow_natCast, ← zpow_add₀ two_ne_zero]
      exact not_le.1 hy
    have hmantissa : b.mantissa = 2 ^ 52 := by
      have hbound : (b.mantissa : ℚ) < 2 ^ 52 + 1 := by
        split at hlow <;> linarith
      have hbound : b.mantissa < 2 ^ 52 + 1 := by exact_mod_cast hbound
      exact Nat.le_antisymm (Nat.le_of_lt_succ hbound) hb.low
    have hnarrow := hb.narrowed hmantissa
    rw [if_pos hnarrow, hmantissa] at hlow
    refine ⟨b.exponent + 51, ?_, ?_, .inr ⟨by omega, hmantissa, hnarrow⟩⟩
    . rw [zpow_add₀ two_ne_zero, mul_comm, ← le_div_iff₀ hpow]
      norm_num at hlow ⊢
      linarith
    . rw [Int.add_assoc]
      exact not_le.1 hy

theorem roundedMantissa_normal (h : b.Covers y) {em : ExtendedMantissa}
    (hmarks : Marks (y / 2 ^ b.exponent) (quarters em)) : em.roundedMantissa = b.mantissa := by
  refine hmarks.roundedMantissa ?_ h.high h.odd
  have hlow := h.low
  split at hlow <;> linarith

theorem roundedMantissa_carry (h : b.Covers y) (hb : b.mantissa = 2 ^ 52) (hnarrow : b.narrowBelow)
    {em : ExtendedMantissa} (hy : y < 2 ^ (b.exponent + 52))
    (hmarks : Marks (y / 2 ^ (b.exponent - 1)) (quarters em)) : em.roundedMantissa = 2 ^ 53 := by
  have hlow := h.low
  rw [if_pos hnarrow, hb] at hlow
  have hhigh : y / 2 ^ b.exponent < 2 ^ 52 := by
    rw [div_lt_iff₀ (two_zpow_pos _), mul_comm, ← zpow_natCast, ← zpow_add₀ two_ne_zero]
    exact hy
  have hscaled := scaled y (b.exponent - 1) 1
  rw [Nat.cast_one, Int.sub_add_cancel] at hscaled
  norm_num at hlow hhigh
  apply hmarks.roundedMantissa
  . norm_num
    linarith
  . norm_num
    linarith
  . intro hodd
    omega

theorem roundWithAccuracy_eq (hb : b.Normal) (h : b.Covers y) {q : Nat} {e : Int} {sign : Sign}
    {accuracy : UnpackedFloat.Accuracy} (hpos : q ≠ 0) (hq : q ≤ y / 2 ^ e) (hq' : y / 2 ^ e < q + 1)
    (hmarks : Marks (y / 2 ^ e) (quarters (.ofMantissaAndAccuracy q accuracy)))
    (he : 2 ^ (e + 52) ≤ y) :
    UnpackedFloat.roundWithAccuracy binary64 sign q e accuracy
      = .finite sign b.mantissa b.exponent (Nat.lt_of_lt_of_le (by decide) hb.low) := by
  have hexponent := hb.above
  have hmantissa : b.mantissa ≠ 0 := Nat.ne_of_gt (Nat.lt_of_lt_of_le (by decide) hb.low)
  have hdigits : b.mantissa.log2 = 52 := (Nat.log2_eq_iff hmantissa).2 ⟨hb.low, hb.digits⟩
  obtain ⟨p, hp, hp', hplace⟩ := exists_magnitude hb h
  have hlog := log2_add hq hq' hpos hp hp'
  have hle : e ≤ p - 52 := by
    have := (zpow_lt_zpow_iff_right₀ one_lt_two).1 (he.trans_lt hp')
    omega
  obtain ⟨em, hshift, hmarks⟩ := exists_shiftToTargetExponent hmarks hlog (by omega) hle
  have hagain : shiftToTargetExponent binary64 em.roundedMantissa (p - 52) .exact
      = (exact b.mantissa, b.exponent) := by
    rcases hplace with rfl | ⟨hp, hmantissa, hnarrow⟩
    . rw [Int.add_sub_cancel] at hmarks ⊢
      rw [roundedMantissa_normal h hmarks, shiftToTargetExponent_eq _ _ (by omega), hdigits, Nat.sub_self,
        Nat.cast_zero, Int.add_zero]
      rfl
    . rw [hp] at hp'
      have hplace : p - 52 = b.exponent - 1 := by omega
      rw [hplace] at hmarks ⊢
      have hcarry : (2 ^ 53).log2 = 53 := Nat.log2_two_pow
      rw [roundedMantissa_carry h hmantissa hnarrow hp' hmarks, shiftToTargetExponent_eq _ _ (by omega),
        hcarry, hmantissa, show 2 ^ 53 = 2 ^ 52 * 2 ^ 1 by rfl, exact_shiftRight]
      congr 1
      omega
  rw [UnpackedFloat.roundWithAccuracy, hshift]
  dsimp only
  rw [hagain]
  exact dif_neg hmantissa

theorem log2_quotient {m n : Nat} (hm : 0 < m) (hn : 0 < n) :
    (2 : ℚ) ^ ((m.log2 : Int) - n.log2 - 1) ≤ m / n := by
  have hlow : (2 : ℚ) ^ m.log2 ≤ m := by exact_mod_cast Nat.log2_self_le hm.ne'
  have hhigh : (n : ℚ) ≤ 2 ^ (n.log2 + 1) := by exact_mod_cast Nat.lt_log2_self.le
  rw [Int.sub_sub, zpow_sub₀ two_ne_zero, le_div_iff₀ (Nat.cast_pos.2 hn)]
  calc
    (2 : ℚ) ^ (m.log2 : Int) / 2 ^ ((n.log2 : Int) + 1) * n
        ≤ 2 ^ (m.log2 : Int) / 2 ^ ((n.log2 : Int) + 1) * 2 ^ ((n.log2 : Int) + 1) := by
      gcongr
      exact_mod_cast hhigh
    _ = 2 ^ (m.log2 : Int) := div_mul_cancel₀ _ (two_zpow_pos _).ne'
    _ ≤ m := by exact_mod_cast hlow

/--
A quotient that lies nearest to `b` is rounded to it.
-/
theorem div_eq (hb : b.Normal) {m₁ m₂ : Nat} {e₁ e₂ : Int} (h₁ : 0 < m₁) (h₂ : 0 < m₂)
    (h : b.Covers (m₁ / m₂ * 2 ^ (e₁ - e₂))) (s₁ s₂ : Sign) :
    UnpackedFloat.div binary64 (.finite s₁ m₁ e₁ h₁) (.finite s₂ m₂ e₂ h₂)
      = .finite (s₁ / s₂) b.mantissa b.exponent (Nat.lt_of_lt_of_le (by decide) hb.low) := by
  obtain ⟨e, he⟩ : ∃ e, min (e₁ - e₂)
      (binary64.targetExponent (totalExponent m₁ e₁ - totalExponent m₂ e₂)) = e := ⟨_, rfl⟩
  obtain ⟨k, hk⟩ : ∃ k : Nat, e + k = e₁ - e₂ := Int.le.dest (he ▸ min_le_left _ _)
  have hamount : (e₁ - e₂ - e).toNat = k := by omega
  have hvalue : (m₁ / m₂ * 2 ^ (e₁ - e₂) : ℚ) / 2 ^ e = ((m₁ <<< k : Nat) : ℚ) / m₂ := by
    have hpow := (two_zpow_pos e).ne'
    rw [← hk, zpow_add₀ two_ne_zero, zpow_natCast, Nat.shiftLeft_eq, Nat.cast_mul, Nat.cast_pow,
      Nat.cast_ofNat]
    field_simp
  have hlarge : (2 : ℚ) ^ (e + 52) ≤ m₁ / m₂ * 2 ^ (e₁ - e₂) := by
    obtain ⟨p, hp, -, hplace⟩ := exists_magnitude hb h
    have hexponent := hb.above
    have hmin : binary64.minExponent = -1074 := by decide
    have hbits : binary64.mantissaBits = 53 := by decide
    have hle : e + 52 ≤ (m₁.log2 - m₂.log2 - 1) + (e₁ - e₂) ∨ e + 52 ≤ p := by
      rw [Float.Model.Format.targetExponent, totalExponent, totalExponent, hmin, hbits] at he
      omega
    rcases hle with hle | hle
    . calc
        (2 : ℚ) ^ (e + 52) ≤ 2 ^ ((m₁.log2 - m₂.log2 - 1 : Int) + (e₁ - e₂)) :=
          zpow_le_zpow_right₀ one_le_two hle
        _ = 2 ^ (m₁.log2 - m₂.log2 - 1 : Int) * 2 ^ (e₁ - e₂) := zpow_add₀ two_ne_zero _ _
        _ ≤ m₁ / m₂ * 2 ^ (e₁ - e₂) :=
          mul_le_mul_of_nonneg_right (log2_quotient h₁ h₂) (two_zpow_pos _).le
    . exact (zpow_le_zpow_right₀ one_le_two hle).trans hp
  obtain ⟨hq, hq'⟩ := quotient_bounds (m₁ <<< k) h₂
  have hmarks := marks_fraction (m₁ <<< k) h₂
  rw [← hvalue] at hq hq' hmarks
  have hpos : m₁ <<< k / m₂ ≠ 0 := by
    intro hzero
    rw [hzero, Nat.cast_zero, zero_add, div_lt_one (two_zpow_pos e)] at hq'
    have hless := (zpow_lt_zpow_iff_right₀ one_lt_two).1 (hlarge.trans_lt hq')
    omega
  rw [UnpackedFloat.div, UnpackedFloat.divCore, he, hamount]
  exact roundWithAccuracy_eq hb h hpos hq hq' hmarks hlarge

end Rounding

end LispScript
