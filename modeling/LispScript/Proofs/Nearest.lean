import LispScript.Proofs.RealOrder

/-!
This module contains what happens to the order of integers when they are rounded to reals: no two integers
change sides, though different ones can come to the same real. Integers with the same number of binary digits
are rounded at the same digit, and those with fewer digits stay below.
-/

namespace LispScript

open Float.Model (UnpackedFloat totalExponent)
open Float.Model.Format (binary64)
open Float.Model.UnpackedFloat (ExtendedMantissa Sign shiftToTargetExponent)

namespace Rounding

/-! Dropping digits. -/

/--
A significand and two more digits: whether the rest is at least one half, and whether there is more to it.
-/
def quarters (em : ExtendedMantissa) : Nat :=
  4 * em.mantissa + 2 * em.roundBit.toNat + em.stickyBit.toNat

theorem quarters_shiftRightOne (em : ExtendedMantissa) :
    quarters em.shiftRightOne = 2 * (quarters em / 4) + min 1 (quarters em % 4) := by
  obtain ⟨m, round, sticky⟩ := em
  have hbit : (m % 2 != 0).toNat = m % 2 := by
    rcases Nat.mod_two_eq_zero_or_one m with h | h <;> rw [h] <;> rfl
  rw [ExtendedMantissa.shiftRightOne, quarters, quarters, hbit]
  cases round <;> cases sticky <;>
    simp only [Bool.toNat_true, Bool.toNat_false, Bool.or_true, Bool.or_false] <;> omega

/--
A half is rounded up if the significand is odd.
-/
theorem roundedMantissa_eq (em : ExtendedMantissa) :
    em.roundedMantissa = (quarters em + if quarters em % 8 = 6 then 2 else 1) / 4 := by
  obtain ⟨m, round, sticky⟩ := em
  rw [quarters]
  cases round <;> cases sticky <;>
    simp only [Bool.toNat_true, Bool.toNat_false, ExtendedMantissa.roundedMantissa,
      ExtendedMantissa.accuracy, UnpackedFloat.Accuracy.roundToNearestEven] <;> split <;> omega

theorem shiftRight_succ (em : ExtendedMantissa) (k : Nat) : em >>> (k + 1) = (em >>> k).shiftRightOne := rfl

theorem quarters_shiftRight_mono {em em' : ExtendedMantissa} (h : quarters em ≤ quarters em') (k : Nat) :
    quarters (em >>> k) ≤ quarters (em' >>> k) := by
  induction k with
  | zero => exact h
  | succ k ih =>
    rw [shiftRight_succ, shiftRight_succ, quarters_shiftRightOne, quarters_shiftRightOne]
    omega

theorem roundedMantissa_mono {em em' : ExtendedMantissa} (h : quarters em ≤ quarters em') :
    em.roundedMantissa ≤ em'.roundedMantissa := by
  rw [roundedMantissa_eq, roundedMantissa_eq]
  split <;> split <;> omega

def exact (m : Nat) : ExtendedMantissa :=
  .ofMantissaAndAccuracy m .exact

theorem quarters_exact (m : Nat) : quarters (exact m) = 4 * m := rfl

theorem exact_shiftRight (m k : Nat) : exact (m * 2 ^ k) >>> k = exact m := by
  induction k generalizing m with
  | zero =>
    rw [Nat.pow_zero, Nat.mul_one]
    rfl
  | succ k ih =>
    rw [shiftRight_succ, Nat.pow_succ', ← Nat.mul_assoc, ih]
    simp [exact, ExtendedMantissa.ofMantissaAndAccuracy, ExtendedMantissa.shiftRightOne]

/-! Natural numbers. -/

/--
The first 53 binary digits of a natural number. They are rounded, so that one more digit can come out.
-/
def leading (n : Nat) : Nat :=
  (exact (n <<< (52 - n.log2)) >>> (n.log2 - 52)).roundedMantissa

theorem leading_mono {m n : Nat} (hlog : m.log2 = n.log2) (h : m ≤ n) : leading m ≤ leading n := by
  rw [leading, leading, hlog]
  apply roundedMantissa_mono
  apply quarters_shiftRight_mono
  rw [quarters_exact, quarters_exact, Nat.shiftLeft_eq, Nat.shiftLeft_eq]
  exact Nat.mul_le_mul_left 4 (Nat.mul_le_mul_right _ h)

theorem roundedMantissa_exact_shiftRight (m k : Nat) :
    (exact (m * 2 ^ k) >>> k).roundedMantissa = m := by
  rw [exact_shiftRight]
  rfl

theorem le_leading {n : Nat} (hn : n ≠ 0) : 2 ^ 52 ≤ leading n := by
  rw [← roundedMantissa_exact_shiftRight (2 ^ 52) (n.log2 - 52)]
  apply roundedMantissa_mono
  apply quarters_shiftRight_mono
  rw [quarters_exact, quarters_exact, Nat.shiftLeft_eq, ← Nat.pow_add]
  apply Nat.mul_le_mul_left
  calc
    2 ^ (52 + (n.log2 - 52)) = 2 ^ n.log2 * 2 ^ (52 - n.log2) := by
      rw [← Nat.pow_add]
      congr 1
      omega
    _ ≤ n * 2 ^ (52 - n.log2) := Nat.mul_le_mul_right _ (Nat.log2_self_le hn)

theorem leading_le (n : Nat) : leading n ≤ 2 ^ 53 := by
  rw [← roundedMantissa_exact_shiftRight (2 ^ 53) (n.log2 - 52)]
  apply roundedMantissa_mono
  apply quarters_shiftRight_mono
  rw [quarters_exact, quarters_exact, Nat.shiftLeft_eq, ← Nat.pow_add]
  apply Nat.mul_le_mul_left
  calc
    n * 2 ^ (52 - n.log2) ≤ 2 ^ (n.log2 + 1) * 2 ^ (52 - n.log2) :=
      Nat.mul_le_mul_right _ (Nat.le_of_lt Nat.lt_log2_self)
    _ = 2 ^ (53 + (n.log2 - 52)) := by
      rw [← Nat.pow_add]
      congr 1
      omega

theorem targetExponent_eq (m : Nat) (e : Int) (he : -1022 ≤ m.log2 + e) :
    binary64.targetExponent (totalExponent m e) = m.log2 + e - 52 := by
  have hmin : binary64.minExponent = -1074 := by decide
  have hbits : binary64.mantissaBits = 53 := by decide
  rw [Float.Model.Format.targetExponent, totalExponent, hmin, hbits]
  omega

theorem shiftToTargetExponent_eq (m : Nat) (e : Int) (he : -1022 ≤ m.log2 + e) :
    shiftToTargetExponent binary64 m e .exact
      = (exact m >>> (m.log2 - 52), e + (m.log2 - 52 : Nat)) := by
  rw [shiftToTargetExponent, targetExponent_eq m e he]
  have hamount : ((m.log2 : Int) + e - 52 - e).toNat = m.log2 - 52 := by omega
  rw [UnpackedFloat.shiftToExponent, hamount]
  rfl

/--
The significand of what a natural number is rounded to.
-/
def significand (n : Nat) : Nat :=
  if leading n = 2 ^ 53 then 2 ^ 52 else leading n

/--
The exponent that goes with the significand.
-/
def exponent (n : Nat) : Int :=
  if leading n = 2 ^ 53 then n.log2 - 51 else n.log2 - 52

theorem le_significand {n : Nat} (hn : n ≠ 0) : 2 ^ 52 ≤ significand n := by
  rw [significand]
  split
  . exact Nat.le_refl _
  . exact le_leading hn

theorem significand_lt (n : Nat) : significand n < 2 ^ 53 := by
  rw [significand]
  split
  . decide
  . next h => exact Nat.lt_of_le_of_ne (leading_le n) h

theorem log2_shiftLeft {n : Nat} (hn : n ≠ 0) (k : Nat) : (n <<< k).log2 = n.log2 + k := by
  rw [Nat.shiftLeft_eq, Nat.log2_eq_iff (Nat.mul_ne_zero hn (Nat.two_pow_pos k).ne')]
  constructor
  . rw [Nat.pow_add]
    exact Nat.mul_le_mul_right _ (Nat.log2_self_le hn)
  . rw [Nat.add_right_comm, Nat.pow_add]
    exact Nat.mul_lt_mul_of_pos_right Nat.lt_log2_self (Nat.two_pow_pos k)

theorem log2_leading {n : Nat} (hn : n ≠ 0) :
    (leading n).log2 = if leading n = 2 ^ 53 then 53 else 52 := by
  split
  . next h => rw [h, Nat.log2_two_pow]
  . next h =>
    rw [Nat.log2_eq_iff (by have := le_leading hn; omega)]
    exact ⟨le_leading hn, Nat.lt_of_le_of_ne (leading_le n) h⟩

/--
The digits that are dropped first.
-/
theorem shiftToTargetExponent_aligned {n : Nat} (hn : n ≠ 0) :
    shiftToTargetExponent binary64 (n <<< (52 - n.log2)) (-(52 - n.log2 : Nat)) .exact
      = (exact (n <<< (52 - n.log2)) >>> (n.log2 - 52), (n.log2 : Int) - 52) := by
  have hlog := log2_shiftLeft hn (52 - n.log2)
  rw [shiftToTargetExponent_eq _ _ (by omega), hlog,
    show n.log2 + (52 - n.log2) - 52 = n.log2 - 52 by omega]
  congr 1
  omega

/--
The digit that is dropped if there is one more after rounding.
-/
theorem shiftToTargetExponent_leading {n : Nat} (hn : n ≠ 0) :
    shiftToTargetExponent binary64 (leading n) (n.log2 - 52) .exact
      = (exact (significand n), exponent n) := by
  have hlog := log2_leading hn
  rw [shiftToTargetExponent_eq _ _ (by split at hlog <;> omega), hlog, significand, exponent]
  split
  . next h =>
    rw [h, show 2 ^ 53 = 2 ^ 52 * 2 ^ 1 by rfl, exact_shiftRight]
    congr 1
    omega
  . congr 1
    omega

theorem round_eq (sign : Sign) {n : Nat} (hn : n ≠ 0) :
    UnpackedFloat.round binary64 sign n 0 = .finite sign (significand n) (exponent n)
      (Nat.lt_of_lt_of_le (by decide) (le_significand hn)) := by
  have hamount : (0 - ((n.log2 : Int) + 0 - 52)).toNat = 52 - n.log2 := by omega
  rw [UnpackedFloat.round, targetExponent_eq n 0 (by omega), UnpackedFloat.decreaseExponent, hamount]
  have hleading : (exact (n <<< (52 - n.log2)) >>> (n.log2 - 52)).roundedMantissa = leading n := rfl
  simp only [UnpackedFloat.roundWithAccuracy, Int.zero_sub, shiftToTargetExponent_aligned hn, hleading,
    shiftToTargetExponent_leading hn]
  apply dif_neg
  exact Nat.ne_of_gt (Nat.lt_of_lt_of_le (by decide) (le_significand hn))

/-! Representation. -/

/--
The first binary digit is left out, since it is always one.
-/
theorem toNat_one_append (m : BitVec 52) : (1#1 ++ m).toNat = 2 ^ 52 + m.toNat := by
  rw [BitVec.toNat_append, ← Nat.shiftLeft_add_eq_or_of_lt m.isLt]
  rfl

section

variable {sign : Sign} {m biased : Nat} (hm : 2 ^ 52 ≤ m) (hm' : m < 2 ^ 53)

include hm hm'

theorem toNat_one_append_ofNat : (1#1 ++ BitVec.ofNat 52 m).toNat = m := by
  rw [toNat_one_append, BitVec.toNat_ofNat]
  omega

theorem pack_finite (hhigh : biased < 2047) (hpos : 0 < m) :
    UnpackedFloat.pack binary64 (.finite sign m (biased - 1075) hpos)
      = UnpackedFloat.packComponents binary64 sign (.ofNat 11 biased) (.ofNat 52 m) := by
  have hlog : m.log2 = 52 := (Nat.log2_eq_iff (Nat.ne_of_gt hpos)).2 ⟨hm, hm'⟩
  have hbias : ((biased : Int) - 1075 + binary64.exponentBias
      + binary64.mantissaBitsWithoutImplicit).toNat = biased := by
    rw [show binary64.exponentBias = 1023 by decide, show binary64.mantissaBitsWithoutImplicit = 52 by rfl]
    omega
  rw [UnpackedFloat.pack, hbias, hlog]
  dsimp only
  rw [if_neg (by omega), if_pos (by decide)]

/--
A number with 53 binary digits is represented as it is.
-/
theorem unpack_pack_finite (hlow : 0 < biased) (hhigh : biased < 2047) (hpos : 0 < m) :
    (Float.Model.pack (.finite sign m (biased - 1075) hpos)).unpack
      = .finite sign m (biased - 1075) hpos := by
  have hexponent : (BitVec.ofNat 11 biased).toNat = biased := by
    rw [BitVec.toNat_ofNat, Nat.mod_eq_of_lt (by omega)]
  have hzero : BitVec.ofNat 11 biased ≠ 0#11 := by
    intro h
    rw [h, BitVec.toNat_zero] at hexponent
    omega
  have hones : BitVec.ofNat 11 biased ≠ -1#11 := by
    intro h
    rw [h] at hexponent
    have : biased = 2047 := hexponent.symm
    omega
  show UnpackedFloat.unpack binary64 (UnpackedFloat.pack binary64 _) = _
  rw [pack_finite hm hm' hhigh hpos, UnpackedFloat.unpack]
  simp only [UnpackedFloat.unpackExponent_packComponents, UnpackedFloat.unpackMantissa_packComponents,
    UnpackedFloat.unpackSign_packComponents, Sign.ofBitVec_toBitVec]
  rw [if_neg hones, if_neg hzero]
  congr 1
  . exact toNat_one_append_ofNat hm hm'
  . rw [hexponent]
    rfl

end

/--
What a natural number below 2 ^ 64 is rounded to is represented as it is.
-/
theorem unpack_pack_rounded (sign : Sign) {n : Nat} (hn : n ≠ 0) (hlt : n < 2 ^ 64)
    (hpos : 0 < significand n) :
    (Float.Model.pack (.finite sign (significand n) (exponent n) hpos)).unpack
      = .finite sign (significand n) (exponent n) hpos := by
  have hlog : n.log2 < 64 := (Nat.log2_lt hn).2 hlt
  obtain ⟨biased, hbiased, hlow, hhigh⟩ :
      ∃ biased : Nat, exponent n = biased - 1075 ∧ 0 < biased ∧ biased < 2047 := by
    refine ⟨(exponent n + 1075).toNat, ?_⟩
    rw [exponent]
    split <;> omega
  rw [hbiased]
  exact unpack_pack_finite (le_significand hn) (significand_lt n) hlow hhigh hpos

theorem unpack_toFloat {n : UInt64} {k : Nat} (hn : n.toNat = k) (hk : k ≠ 0) : ∃ hpos,
    n.toFloat.toModel.unpack = .finite .positive (significand k) (exponent k) hpos ∧
      (-n.toFloat).toModel.unpack = .finite .negative (significand k) (exponent k) hpos := by
  have hpos : 0 < significand k := Nat.lt_of_lt_of_le (by decide) (le_significand hk)
  have hlt : k < 2 ^ 64 := hn ▸ n.toNat_lt
  have hround : UnpackedFloat.ofUInt64 binary64 n
      = .finite .positive (significand k) (exponent k) hpos := by
    rw [← round_eq .positive hk, UnpackedFloat.ofUInt64, hn, UnpackedFloat.ofNat, UnpackedFloat.ofInt,
      UnpackedFloat.normalize, Int.compare_eq_gt.2 (by omega)]
    rfl
  have hunpack : n.toFloat.toModel.unpack
      = .finite .positive (significand k) (exponent k) hpos := by
    show (Float.Model.pack (UnpackedFloat.ofUInt64 binary64 n)).unpack = _
    rw [hround, unpack_pack_rounded .positive hk hlt]
  refine ⟨hpos, hunpack, ?_⟩
  show (Float.Model.pack n.toFloat.toModel.unpack.neg).unpack = _
  rw [hunpack]
  exact unpack_pack_rounded .negative hk hlt hpos

theorem exponent_mono {m n : Nat} (hm : m ≠ 0) (h : m ≤ n) :
    exponent m < exponent n ∨ exponent m = exponent n ∧ significand m ≤ significand n := by
  have hn : n ≠ 0 := by omega
  have hlog : m.log2 ≤ n.log2 := (Nat.le_log2 hn).2 (Nat.le_trans (Nat.log2_self_le hm) h)
  have hlow := le_leading hn
  have hhigh := leading_le n
  rw [exponent, exponent, significand, significand]
  rcases Nat.eq_or_lt_of_le hlog with hlog | hlog
  . have hleading := leading_mono hlog h
    split <;> split <;> omega
  . split <;> split <;> omega

/--
Up to 2 ^ 53 nothing is lost.
-/
theorem significand_exact {n : Nat} (hn : n ≠ 0) (h : n ≤ 2 ^ 53) :
    exponent n = n.log2 - 52 ∧ significand n * 2 ^ n.log2 = n * 2 ^ 52 := by
  have hle : 2 ^ n.log2 ≤ n := Nat.log2_self_le hn
  have hlt : n < 2 ^ (n.log2 + 1) := Nat.lt_log2_self
  rcases Nat.lt_or_ge 52 n.log2 with hlog | hlog
  . have hpow : 2 ^ 53 ≤ 2 ^ n.log2 := Nat.pow_le_pow_right (by decide) hlog
    obtain rfl : n = 2 ^ 53 := by omega
    have hleading : leading (2 ^ 53) = 2 ^ 52 := by
      rw [leading, Nat.log2_two_pow]
      exact roundedMantissa_exact_shiftRight (2 ^ 52) 1
    rw [exponent, significand, hleading, Nat.log2_two_pow]
    exact ⟨rfl, rfl⟩
  . have hleading : leading n = n * 2 ^ (52 - n.log2) := by
      rw [leading, Nat.sub_eq_zero_of_le hlog, ← Nat.shiftLeft_eq]
      rfl
    have hpow : 2 ^ (52 - n.log2) * 2 ^ n.log2 = 2 ^ 52 := by
      rw [← Nat.pow_add, Nat.sub_add_cancel hlog]
    have hfits : leading n < 2 ^ 53 := by
      calc
        leading n = n * 2 ^ (52 - n.log2) := hleading
        _ < 2 ^ (n.log2 + 1) * 2 ^ (52 - n.log2) := Nat.mul_lt_mul_of_pos_right hlt (Nat.two_pow_pos _)
        _ = 2 ^ 53 := by
          rw [← Nat.pow_add]
          congr 1
          omega
    rw [exponent, significand, if_neg (Nat.ne_of_lt hfits), if_neg (Nat.ne_of_lt hfits), hleading,
      Nat.mul_assoc, hpow]
    exact ⟨rfl, rfl⟩

theorem eq_of_significand_eq {m n : Nat} (hm : m ≠ 0) (hn : n ≠ 0) (hm' : m ≤ 2 ^ 53) (hn' : n ≤ 2 ^ 53)
    (hexponent : exponent m = exponent n) (hsignificand : significand m = significand n) : m = n := by
  obtain ⟨hem, hsm⟩ := significand_exact hm hm'
  obtain ⟨hen, hsn⟩ := significand_exact hn hn'
  have hlog : m.log2 = n.log2 := by omega
  rw [hsignificand, hlog, hsn] at hsm
  omega

/-! Integers. -/

/--
The place of an integer that has been rounded.
-/
def place (n : Int) : Place :=
  if n < 0 then .mk (-1) (-exponent n.natAbs) (-significand n.natAbs)
  else if n = 0 then .mk 0 0 0
  else .mk 1 (exponent n.natAbs) (significand n.natAbs)

theorem place_neg {n : Int} (h : n < 0) :
    place n = .mk (-1) (-exponent n.natAbs) (-significand n.natAbs) :=
  if_pos h

theorem place_pos {n : Int} (h : 0 < n) : place n = .mk 1 (exponent n.natAbs) (significand n.natAbs) := by
  rw [place, if_neg (by omega), if_neg (by omega)]

theorem place_mono {m n : Int} (h : m ≤ n) : place m ≤ place n := by
  rcases Int.lt_trichotomy m 0 with hm | rfl | hm
  . rw [place_neg hm]
    rcases Int.lt_trichotomy n 0 with hn | rfl | hn
    . have hmono := exponent_mono (m := n.natAbs) (n := m.natAbs) (by omega) (by omega)
      rw [place_neg hn, Place.mk_le_mk]
      omega
    . exact Place.mk_le_mk.2 (.inl (by decide))
    . rw [place_pos hn]
      exact Place.mk_le_mk.2 (.inl (by decide))
  . rcases Int.le_iff_eq_or_lt.1 h with rfl | hn
    . exact le_refl _
    . rw [place_pos hn]
      exact Place.mk_le_mk.2 (.inl (by decide))
  . have hmono := exponent_mono (m := m.natAbs) (n := n.natAbs) (by omega) (by omega)
    rw [place_pos hm, place_pos (by omega), Place.mk_le_mk]
    omega

theorem eq_of_place_eq {m n : Int} (hm : m.natAbs ≤ 2 ^ 53) (hn : n.natAbs ≤ 2 ^ 53)
    (h : place m = place n) : m = n := by
  have hzero : place 0 = .mk 0 0 0 := rfl
  have hnat := eq_of_significand_eq (m := m.natAbs) (n := n.natAbs)
  rcases Int.lt_trichotomy m 0 with hsm | hsm | hsm <;>
    rcases Int.lt_trichotomy n 0 with hsn | hsn | hsn <;>
    simp only [place_neg, place_pos, hzero, hsm, hsn, Place.mk_inj] at h
  case inl.inl =>
    have := hnat (by omega) (by omega) hm hn (by omega) (by omega)
    omega
  case inr.inr.inr.inr =>
    have := hnat (by omega) (by omega) hm hn (by omega) (by omega)
    omega
  all_goals omega

theorem toNat_toUInt64_of_nonneg {n : Int64} (h : 0 ≤ n.toInt) : n.toUInt64.toNat = n.toInt.natAbs := by
  rw [Int64.toNat_toUInt64_of_le (Int64.le_iff_toInt_le.2 h), ← Int64.toNat_toInt]
  omega

/--
The absolute value of the least integer fits without a sign.
-/
theorem toNat_toUInt64_neg {n : Int64} (h : n.toInt < 0) : (-n).toUInt64.toNat = n.toInt.natAbs := by
  have hint : n.toInt = n.toBitVec.toInt := rfl
  have hnat : (-n).toUInt64.toNat = (-n.toBitVec).toNat := rfl
  rw [hint, BitVec.toInt_eq_toNat_cond] at h ⊢
  rw [hnat, BitVec.toNat_neg]
  split at h <;> omega

theorem unpack_nearestReal (n : Int64) : (Value.nearestReal n).toModel.unpack ≠ .notANumber ∧
    Place.ofReal (Value.nearestReal n) = place n.toInt := by
  have hsign : n < 0 ↔ n.toInt < 0 := Int64.lt_iff_toInt_lt
  rw [Value.nearestReal, Place.ofReal]
  rcases Int.lt_trichotomy n.toInt 0 with hn | hn | hn
  . obtain ⟨hpos, -, hunpack⟩ := unpack_toFloat (toNat_toUInt64_neg hn) (by omega)
    rw [if_pos (hsign.2 hn), hunpack, place_neg hn]
    exact ⟨nofun, rfl⟩
  . obtain rfl : n = 0 := Int64.toInt_inj.1 hn
    have hunpack : ((0 : Int64).toUInt64.toFloat).toModel.unpack = .zero .positive := by
      rfl
    rw [if_neg (by decide), hunpack]
    exact ⟨nofun, rfl⟩
  . obtain ⟨hpos, hunpack, -⟩ := unpack_toFloat (toNat_toUInt64_of_nonneg (Int.le_of_lt hn)) (by omega)
    rw [if_neg (by rw [hsign]; omega), hunpack, place_pos hn]
    exact ⟨nofun, rfl⟩

end Rounding

end LispScript
