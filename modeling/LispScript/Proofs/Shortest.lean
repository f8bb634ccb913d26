import LispScript.Decimal.Shortest
import Mathlib.Algebra.Order.Field.Power
import Mathlib.Data.Nat.Cast.Order.Field
import Mathlib.Data.Rat.Cast.Order
import Mathlib.Tactic.Linarith
import Mathlib.Tactic.FieldSimp
import Mathlib.Tactic.Ring

/-!
This module contains the proof that the shortest decimal of a binary number reads back as this number: it lies
nearer to it than to the neighbours. Seventeen digits are always enough, so that one is found.
-/

namespace LispScript

namespace Decimal

def value (d : Decimal) : ℚ :=
  d.digits * 10 ^ d.exponent

namespace Binary

def value (b : Binary) : ℚ :=
  b.mantissa * 2 ^ b.exponent

/--
The numbers that are nearer to `b` than to its neighbours, with those in the middle if its significand is
even.
-/
structure Covers (b : Binary) (y : ℚ) : Prop where
  low : b.mantissa - (if b.narrowBelow then 1 / 4 else 1 / 2) ≤ y / 2 ^ b.exponent
  high : y / 2 ^ b.exponent ≤ b.mantissa + 1 / 2
  odd : b.mantissa % 2 = 1 →
    b.mantissa - 1 / 2 < y / 2 ^ b.exponent ∧ y / 2 ^ b.exponent < b.mantissa + 1 / 2

/--
The number is one of the positive doubles.
-/
structure Fits (b : Binary) : Prop where
  pos : 0 < b.mantissa
  digits : b.mantissa < 2 ^ 53
  exponent : -1074 ≤ b.exponent ∧ b.exponent ≤ 971
  first : -1074 < b.exponent → 2 ^ 52 ≤ b.mantissa
  narrow : b.narrowBelow → b.mantissa = 2 ^ 52

end Binary

theorem two_zpow_pos (e : Int) : (0 : ℚ) < 2 ^ e := zpow_pos two_pos e

theorem ten_zpow_pos (e : Int) : (0 : ℚ) < 10 ^ e := zpow_pos (by norm_num) e

theorem Binary.Covers.pos {b : Binary} (hb : b.Fits) {y : ℚ} (h : b.Covers y) : 0 < y := by
  have hmantissa : (1 : ℚ) ≤ b.mantissa := by exact_mod_cast hb.pos
  have hscaled : 0 < y / 2 ^ b.exponent := by
    have hlow := h.low
    split at hlow <;> linarith
  exact (div_pos_iff_of_pos_right (two_zpow_pos _)).1 hscaled

/-! Fractions. -/

theorem zpow_eq_div {base : ℚ} (e : Int) :
    base ^ e = base ^ e.toNat / base ^ (-e).toNat := by
  rcases Int.le_total 0 e with h | h
  . rw [Int.toNat_of_nonpos (by omega : -e ≤ 0), pow_zero, div_one, ← zpow_natCast, Int.toNat_of_nonneg h]
  . rw [Int.toNat_of_nonpos h, pow_zero, one_div, ← zpow_natCast, Int.toNat_of_nonneg (by omega), zpow_neg,
      inv_inv]

theorem Ratio.den_scaled_pos (n : Nat) (twos tens : Int) : 0 < (Ratio.scaled n twos tens).den :=
  Nat.mul_pos (Nat.two_pow_pos _) (Nat.pow_pos (by decide))

theorem Ratio.scaled_eq (n : Nat) (twos tens : Int) :
    ((Ratio.scaled n twos tens).num : ℚ) / (Ratio.scaled n twos tens).den = n * 2 ^ twos / 10 ^ tens := by
  rw [zpow_eq_div twos, zpow_eq_div tens]
  have hnum : (Ratio.scaled n twos tens).num = n * 2 ^ twos.toNat * 10 ^ (-tens).toNat := rfl
  have hden : (Ratio.scaled n twos tens).den = 2 ^ (-twos).toNat * 10 ^ tens.toNat := rfl
  rw [hnum, hden]
  push_cast
  field_simp

theorem Ratio.den_le_num_iff (n : Nat) (twos tens : Int) :
    (Ratio.scaled n twos tens).den ≤ (Ratio.scaled n twos tens).num ↔
      (10 : ℚ) ^ tens ≤ n * 2 ^ twos := by
  have hden : (0 : ℚ) < (Ratio.scaled n twos tens).den := Nat.cast_pos.2 (den_scaled_pos n twos tens)
  have htens := ten_zpow_pos tens
  rw [← Nat.cast_le (α := ℚ), ← one_le_div₀ hden, scaled_eq, one_le_div₀ htens]

/-! The leading digit. -/

theorem ten_zpow_le_two_zpow {j p : Int} {a c : Nat} (hc : c ≠ 0)
    (hbase : (10 ^ c : ℚ) ^ j ≤ (2 ^ a) ^ j) (hexponent : a * j ≤ c * p) : (10 : ℚ) ^ j ≤ 2 ^ p := by
  apply (pow_le_pow_iff_left₀ (ten_zpow_pos j).le (two_zpow_pos p).le hc).1
  calc
    ((10 : ℚ) ^ j) ^ c = (10 ^ c) ^ j := by
      rw [← zpow_natCast, ← zpow_natCast, ← zpow_mul, ← zpow_mul, mul_comm]
    _ ≤ (2 ^ a) ^ j := hbase
    _ = 2 ^ (a * j) := by rw [← zpow_natCast, ← zpow_mul]
    _ ≤ 2 ^ (c * p) := zpow_le_zpow_right₀ one_le_two hexponent
    _ = (2 ^ p) ^ c := by rw [← zpow_natCast, ← zpow_mul, mul_comm]

/--
The decimal logarithm of two is between 59 / 196 and 28 / 93, so that the guess is at most one too high.
-/
theorem ten_zpow_guess_le {p : Int} (hlow : -1074 ≤ p) (hhigh : p ≤ 1024) :
    (10 : ℚ) ^ (p * 30103 / 100000 - 1) ≤ 2 ^ p := by
  rcases Int.le_total 0 (p * 30103 / 100000 - 1) with h | h
  . have hbase : (10 ^ 59 : ℚ) ^ (p * 30103 / 100000 - 1) ≤ (2 ^ 196) ^ (p * 30103 / 100000 - 1) :=
      zpow_le_zpow_left₀ h (by norm_num) (by norm_num)
    exact ten_zpow_le_two_zpow (by decide) hbase (by omega)
  . have hbase : (10 ^ 28 : ℚ) ^ (p * 30103 / 100000 - 1) ≤ (2 ^ 93) ^ (p * 30103 / 100000 - 1) := by
      have hquotient : (10 ^ 28 / 2 ^ 93 : ℚ) ^ (p * 30103 / 100000 - 1) ≤ 1 :=
        zpow_le_one_of_nonpos₀ (by norm_num) h
      rwa [div_zpow, div_le_one₀ (zpow_pos (by norm_num) _)] at hquotient
    exact ten_zpow_le_two_zpow (by decide) hbase (by omega)

theorem leadingExponent_le {b : Binary} (hb : b.Fits) : 10 ^ leadingExponent b ≤ b.value := by
  have hlog : (2 : ℚ) ^ (b.mantissa.log2 + b.exponent) ≤ b.value := by
    rw [Binary.value, zpow_add₀ two_ne_zero, zpow_natCast]
    have : (2 : ℚ) ^ b.mantissa.log2 ≤ b.mantissa := by exact_mod_cast Nat.log2_self_le hb.pos.ne'
    exact mul_le_mul_of_nonneg_right this (two_zpow_pos _).le
  have hbound : b.mantissa.log2 < 53 := (Nat.log2_lt hb.pos.ne').2 hb.digits
  have hexponent := hb.exponent
  rw [leadingExponent]
  dsimp only
  split
  . next h => exact (Ratio.den_le_num_iff _ _ _).1 (of_decide_eq_true h)
  . split
    . next h => exact (Ratio.den_le_num_iff _ _ _).1 (of_decide_eq_true h)
    . exact (ten_zpow_guess_le (by omega) (by omega)).trans hlog

/-! The grid. -/

/--
Does the multiple of `10 ^ tens` read back as `b`?
-/
def Binary.inside (b : Binary) (tens : Int) (d : Nat) : Bool :=
  let below := if b.narrowBelow then 1 else 2
  let r := Ratio.scaled (4 * b.mantissa) (b.exponent - 2) tens
  let unit := Ratio.scaled 1 (b.exponent - 2) tens
  let n := d * r.den
  if b.mantissa % 2 = 0 then r.num - below * unit.num ≤ n && n ≤ r.num + 2 * unit.num
  else r.num - below * unit.num < n && n < r.num + 2 * unit.num

def Binary.down (b : Binary) (tens : Int) : Nat :=
  let r := Ratio.scaled (4 * b.mantissa) (b.exponent - 2) tens
  r.num / r.den

/--
What is found reads back. If nothing is found, then the two multiples next to `b` do not.
-/
theorem onGrid?_cases (b : Binary) (tens : Int) :
    (∃ d, onGrid? b tens = some d ∧ b.inside tens d) ∨
      onGrid? b tens = none ∧ b.inside tens (b.down tens) = false ∧
        b.inside tens (b.down tens + 1) = false := by
  unfold onGrid?
  dsimp only
  split
  . next hdown hup =>
    left
    split
    . exact ⟨b.down tens, rfl, hdown⟩
    . split
      . exact ⟨b.down tens + 1, rfl, hup⟩
      . split
        . exact ⟨b.down tens, rfl, hdown⟩
        . exact ⟨b.down tens + 1, rfl, hup⟩
  . next hdown _ => exact .inl ⟨b.down tens, rfl, hdown⟩
  . next _ hup => exact .inl ⟨b.down tens + 1, rfl, hup⟩
  . next hdown hup => exact .inr ⟨rfl, hdown, hup⟩

theorem quotient_bounds (a : Nat) {b : Nat} (hb : 0 < b) :
    ((a / b : Nat) : ℚ) ≤ a / b ∧ (a / b : ℚ) < (a / b : Nat) + 1 := by
  refine ⟨Nat.cast_div_le, ?_⟩
  rw [div_lt_iff₀ (Nat.cast_pos.2 hb), mul_comm]
  exact_mod_cast Nat.lt_mul_div_succ a hb

theorem down_bounds (b : Binary) (tens : Int) :
    b.down tens * 10 ^ tens ≤ b.value ∧ b.value < (b.down tens + 1) * 10 ^ tens := by
  have hvalue : ((4 * b.mantissa : Nat) : ℚ) * 2 ^ (b.exponent - 2) = b.value := by
    rw [Binary.value, zpow_sub₀ two_ne_zero]
    push_cast
    ring
  obtain ⟨hlow, hhigh⟩ := quotient_bounds (Ratio.scaled (4 * b.mantissa) (b.exponent - 2) tens).num
    (Ratio.den_scaled_pos (4 * b.mantissa) (b.exponent - 2) tens)
  rw [Ratio.scaled_eq, hvalue] at hlow hhigh
  exact ⟨(le_div_iff₀ (ten_zpow_pos tens)).1 hlow, (div_lt_iff₀ (ten_zpow_pos tens)).1 hhigh⟩

theorem unit_pos (b : Binary) (tens : Int) : 0 < (Ratio.scaled 1 (b.exponent - 2) tens).num :=
  Nat.mul_pos (Nat.mul_pos Nat.one_pos (Nat.two_pow_pos _)) (Nat.pow_pos (by decide))

/--
A multiple of `10 ^ tens`, in quarters of the last binary digit.
-/
theorem grid_eq (b : Binary) (tens : Int) (d : Nat) :
    let unit := Ratio.scaled 1 (b.exponent - 2) tens
    (d * 10 ^ tens : ℚ) / 2 ^ b.exponent = (d * unit.den : Nat) / (4 * unit.num) := by
  intro unit
  have hden : (unit.den : ℚ) ≠ 0 := Nat.cast_ne_zero.2 (Ratio.den_scaled_pos _ _ _).ne'
  have hnum : (unit.num : ℚ) ≠ 0 := Nat.cast_ne_zero.2 (unit_pos b tens).ne'
  have hpow := (two_zpow_pos b.exponent).ne'
  have htens := (ten_zpow_pos tens).ne'
  have hunit : (unit.num : ℚ) / unit.den = 2 ^ b.exponent / 2 ^ 2 / 10 ^ tens := by
    rw [Ratio.scaled_eq, Nat.cast_one, one_mul, zpow_sub₀ two_ne_zero]
    rfl
  field_simp at hunit
  rw [div_eq_div_iff hpow (mul_ne_zero four_ne_zero hnum), Nat.cast_mul]
  calc
    (d * 10 ^ tens * (4 * unit.num) : ℚ) = d * (unit.num * 2 ^ 2 * 10 ^ tens) := by ring
    _ = d * unit.den * 2 ^ b.exponent := by rw [hunit, mul_assoc]

section

variable {b : Binary} (hb : b.Fits)

include hb

theorem covers_iff {y : ℚ} {n u : Nat} (hu : 0 < u) (hy : y / 2 ^ b.exponent = n / (4 * u)) :
    b.Covers y ↔
      if b.mantissa % 2 = 0 then
        4 * b.mantissa * u - (if b.narrowBelow then 1 else 2) * u ≤ n ∧ n ≤ 4 * b.mantissa * u + 2 * u
      else
        4 * b.mantissa * u - (if b.narrowBelow then 1 else 2) * u < n ∧ n < 4 * b.mantissa * u + 2 * u := by
  have hpos : (0 : ℚ) < 4 * u := mul_pos four_pos (Nat.cast_pos.2 hu)
  have hhigh : (n / (4 * u) : ℚ) ≤ b.mantissa + 1 / 2 ↔ n ≤ 4 * b.mantissa * u + 2 * u := by
    rw [div_le_iff₀ hpos, ← Nat.cast_le (α := ℚ)]
    push_cast
    constructor <;> intro h <;> linarith
  rcases Nat.mod_two_eq_zero_or_one b.mantissa with heven | hodd
  . have hlow : (b.mantissa - (if b.narrowBelow then 1 / 4 else 1 / 2) : ℚ) ≤ n / (4 * u) ↔
        4 * b.mantissa * u - (if b.narrowBelow then 1 else 2) * u ≤ n := by
      rw [le_div_iff₀ hpos, Nat.sub_le_iff_le_add, ← Nat.cast_le (α := ℚ)]
      push_cast
      split <;> constructor <;> intro h <;> linarith
    rw [if_pos heven, ← hlow, ← hhigh, ← hy]
    exact ⟨fun h => ⟨h.low, h.high⟩, fun h => ⟨h.1, h.2, by omega⟩⟩
  . have hwide : ¬ b.narrowBelow := by
      intro hnarrow
      have := hb.narrow hnarrow
      omega
    have hless : 2 * u ≤ 4 * b.mantissa * u := Nat.mul_le_mul_right u (by have := hb.pos; omega)
    have hlow : (b.mantissa - 1 / 2 : ℚ) < n / (4 * u) ↔ 4 * b.mantissa * u - 2 * u < n := by
      rw [lt_div_iff₀ hpos, Nat.sub_lt_iff_lt_add hless, ← Nat.cast_lt (α := ℚ)]
      push_cast
      constructor <;> intro h <;> linarith
    have hhigh : (n / (4 * u) : ℚ) < b.mantissa + 1 / 2 ↔ n < 4 * b.mantissa * u + 2 * u := by
      rw [div_lt_iff₀ hpos, ← Nat.cast_lt (α := ℚ)]
      push_cast
      constructor <;> intro h <;> linarith
    rw [if_neg (by omega), if_neg hwide, ← hlow, ← hhigh, ← hy]
    refine ⟨fun h => h.odd hodd, fun h => ⟨?_, h.2.le, fun _ => h⟩⟩
    rw [if_neg hwide]
    exact h.1.le

variable (tens : Int)

/--
The test decides whether a multiple reads back.
-/
theorem inside_iff (d : Nat) : b.inside tens d ↔ b.Covers (d * 10 ^ tens) := by
  have hnum : (Ratio.scaled (4 * b.mantissa) (b.exponent - 2) tens).num
      = 4 * b.mantissa * (Ratio.scaled 1 (b.exponent - 2) tens).num := by
    simp only [Ratio.scaled]
    ring
  have hden : (Ratio.scaled (4 * b.mantissa) (b.exponent - 2) tens).den
      = (Ratio.scaled 1 (b.exponent - 2) tens).den := rfl
  rw [covers_iff hb (unit_pos b tens) (grid_eq b tens d), Binary.inside, hnum, hden]
  split <;> rw [Bool.and_eq_true, decide_eq_true_iff, decide_eq_true_iff]

/--
If the multiples are close enough, one of the two next to `b` reads back as `b`.
-/
theorem exists_covers (hclose : 10 ^ (tens + 16) ≤ b.value) :
    ∃ d ∈ [b.down tens, b.down tens + 1], b.Covers (d * 10 ^ tens) := by
  have hpow := two_zpow_pos b.exponent
  have hvalue : b.value / 2 ^ b.exponent = b.mantissa := mul_div_cancel_right₀ _ hpow.ne'
  have hscaled : ∀ x : ℚ, x * 10 ^ tens / 2 ^ b.exponent = x * (10 ^ tens / 2 ^ b.exponent) :=
    fun x => mul_div_assoc _ _ _
  obtain ⟨hdown, hup⟩ := down_bounds b tens
  have hclose : 10 ^ 16 * (10 ^ tens / 2 ^ b.exponent) ≤ (b.mantissa : ℚ) := by
    rw [← hvalue, ← hscaled, mul_comm (10 ^ 16), ← zpow_natCast, ← zpow_add₀ (by norm_num)]
    exact div_le_div_of_nonneg_right hclose hpow.le
  have hdown := div_le_div_of_nonneg_right hdown hpow.le
  have hup := div_lt_div_of_pos_right hup hpow
  rw [hscaled, hvalue] at hdown hup
  have hgap : (10 ^ tens / 2 ^ b.exponent : ℚ) < 1 := by
    have hdigits : (b.mantissa : ℚ) < 10 ^ 16 := by
      exact_mod_cast hb.digits.trans (by decide)
    linarith
  by_cases hnear : (b.down tens + 1 : ℚ) * (10 ^ tens / 2 ^ b.exponent) - b.mantissa < 1 / 2
  . refine ⟨b.down tens + 1, by simp, ?_, ?_, ?_⟩
    all_goals rw [Nat.cast_succ, hscaled]
    . split <;> linarith
    . linarith
    . exact fun _ => ⟨by linarith, by linarith⟩
  . have hwide : ¬ b.narrowBelow := by
      intro hnarrow
      have hmantissa : (b.mantissa : ℚ) = 2 ^ 52 := by exact_mod_cast hb.narrow hnarrow
      linarith
    refine ⟨b.down tens, by simp, ?_, ?_, ?_⟩
    all_goals rw [hscaled]
    . rw [if_neg hwide]
      linarith
    . linarith
    . exact fun _ => ⟨by linarith, by linarith⟩

end

/-! The shortest digits. -/

theorem dropZeros_value (fuel : Nat) (d : Decimal) : (dropZeros fuel d).value = d.value := by
  induction fuel generalizing d with
  | zero => rfl
  | succ fuel ih =>
    rw [dropZeros]
    split
    . next h =>
      have hdigits : (d.digits : ℚ) = (d.digits / 10 : Nat) * 10 := by
        exact_mod_cast (Nat.div_mul_cancel (Nat.dvd_of_mod_eq_zero h.1)).symm
      rw [ih, value, value, hdigits, zpow_add_one₀ (by norm_num)]
      ring
    . rfl

theorem shortest_covers {b : Binary} (hb : b.Fits) : b.Covers (shortest b).value := by
  rw [shortest, dropZeros_value]
  cases hfound : (List.range maxDigits).findSome? fun n : Nat =>
      (onGrid? b (leadingExponent b - n)).map (Decimal.mk · (leadingExponent b - n)) with
  | none =>
    have hnone := Option.map_eq_none_iff.1 (List.findSome?_eq_none_iff.1 hfound 16 (by decide))
    have hclose : 10 ^ (leadingExponent b - 16 + 16) ≤ b.value := by
      rw [Int.sub_add_cancel]
      exact leadingExponent_le hb
    obtain ⟨d, hd, hcovers⟩ := exists_covers hb _ hclose
    rw [← inside_iff hb] at hcovers
    rcases onGrid?_cases b (leadingExponent b - 16) with ⟨k, hk, -⟩ | ⟨-, hdown, hup⟩
    . exact absurd (hnone.symm.trans hk) nofun
    . rw [List.mem_pair] at hd
      rcases hd with rfl | rfl
      . exact absurd (hdown.symm.trans hcovers) nofun
      . exact absurd (hup.symm.trans hcovers) nofun
  | some d =>
    obtain ⟨n, -, hn⟩ := List.exists_of_findSome?_eq_some hfound
    obtain ⟨k, hk, rfl⟩ := Option.map_eq_some_iff.1 hn
    rcases onGrid?_cases b (leadingExponent b - n) with ⟨j, hj, hinside⟩ | ⟨hnone, -, -⟩
    . obtain rfl : j = k := Option.some.inj (hj.symm.trans hk)
      exact (inside_iff hb _ _).1 hinside
    . exact absurd (hnone.symm.trans hk) nofun

end Decimal

end LispScript
