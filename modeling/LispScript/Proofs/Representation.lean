import LispScript.Proofs.DecimalText
import LispScript.Proofs.Quotient

/-!
This module contains what a double is by the parts of its representation, and that it is the number which is
written when it is printed.
-/

namespace LispScript

open Float.Model (UnpackedFloat totalExponent)
open Float.Model.Format (binary64)
open Float.Model.UnpackedFloat (Sign unpackExponent unpackMantissa unpackSign)

namespace Real

open Decimal (Binary)

variable {x : Float}

theorem toNat_unpackExponent (b : BitVec 64) :
    (@unpackExponent binary64 b).toNat = b.toNat / 2 ^ 52 % 2 ^ 11 := by
  rw [unpackExponent, BitVec.toNat_cast, BitVec.extractLsb_toNat, Nat.shiftRight_eq_div_pow]
  rfl

theorem toNat_unpackMantissa (b : BitVec 64) :
    (@unpackMantissa binary64 b).toNat = b.toNat % 2 ^ 52 := by
  rw [unpackMantissa, BitVec.toNat_cast, BitVec.extractLsb_toNat, Nat.shiftRight_zero]
  rfl

theorem toNat_unpackSign (b : BitVec 64) : (@unpackSign binary64 b).toNat = b.toNat / 2 ^ 63 := by
  rw [unpackSign, BitVec.toNat_cast, BitVec.extractLsb_toNat, Nat.shiftRight_eq_div_pow]
  have := b.isLt
  show b.toNat / 2 ^ 63 % 2 = _
  omega

def signOf (x : Float) : Sign :=
  if isNegative x then .negative else .positive

theorem ofBitVec_unpackSign (x : Float) :
    Sign.ofBitVec (@unpackSign binary64 x.toBits.toBitVec) = signOf x := by
  have hsign := toNat_unpackSign x.toBits.toBitVec
  have hnegative : isNegative x = decide (x.toBits.toNat / 2 ^ 63 = 1) := by
    rw [isNegative, Bool.eq_iff_iff, beq_iff_eq, decide_eq_true_iff, ← UInt64.toNat_inj,
      UInt64.toNat_shiftRight, Nat.shiftRight_eq_div_pow]
    rfl
  have hzero : @unpackSign binary64 x.toBits.toBitVec = 0#1 ↔ ¬ x.toBits.toNat / 2 ^ 63 = 1 := by
    have hlt := x.toBits.toNat_lt
    rw [← BitVec.toNat_inj, hsign, UInt64.toNat_toBitVec, BitVec.toNat_ofNat]
    omega
  rw [Sign.ofBitVec, signOf, hnegative]
  simp only [hzero, decide_eq_true_iff, ite_not]

/--
What a double is, by the parts of its representation.
-/
inductive Represents (sign : Sign) (scale fraction : Nat) : UnpackedFloat → Prop where
  | infinity : Represents sign scale fraction (.infinity sign)
  | notANumber : Represents sign scale fraction .notANumber
  | zero (hscale : scale = 0) (hfraction : fraction = 0) : Represents sign scale fraction (.zero sign)
  | subnormal (hscale : scale = 0) (hpos : 0 < fraction) :
      Represents sign scale fraction (.finite sign fraction (-1074) hpos)
  | normal (hscale : 0 < scale) (hscale' : scale < 2047) (hpos : 0 < 2 ^ 52 + fraction) :
      Represents sign scale fraction (.finite sign (2 ^ 52 + fraction) (scale - 1075) hpos)

theorem finite_congr {sign : Sign} {m m' : Nat} {e e' : Int} (hm : m = m') (he : e = e') (hpos : 0 < m) :
    UnpackedFloat.finite sign m e hpos = .finite sign m' e' (hm ▸ hpos) := by
  subst hm he
  rfl

theorem represents_unpack (b : BitVec 64) :
    Represents (.ofBitVec (@unpackSign binary64 b)) (b.toNat / 2 ^ 52 % 2 ^ 11) (b.toNat % 2 ^ 52)
      (UnpackedFloat.unpack binary64 b) := by
  have hbias : (binary64.exponentBias + binary64.mantissaBitsWithoutImplicit : Int) = 1075 := by decide
  have hexponent := (@unpackExponent binary64 b).isLt
  rw [← toNat_unpackExponent, ← toNat_unpackMantissa, UnpackedFloat.unpack]
  split
  . split
    . exact .infinity
    . exact .notANumber
  . next hones =>
    have hless : (@unpackExponent binary64 b).toNat ≠ 2047 := fun h => hones (BitVec.toNat_inj.1 h)
    split
    . next hzero =>
      have hscale : (@unpackExponent binary64 b).toNat = 0 := by
        rw [hzero]
        rfl
      split
      . next hm => exact .zero hscale (by rw [hm]; rfl)
      . next hm =>
        have hpos : 0 < (@unpackMantissa binary64 b).toNat :=
          Nat.pos_of_ne_zero fun h => hm (BitVec.toNat_inj.1 h)
        have he : ((@unpackExponent binary64 b).toNat
            - (binary64.exponentBias + binary64.mantissaBitsWithoutImplicit) + 1 : Int) = -1074 := by
          rw [hscale, hbias]
          rfl
        rw [finite_congr rfl he]
        exact .subnormal hscale hpos
    . next hzero =>
      have hscale : (@unpackExponent binary64 b).toNat ≠ 0 := fun h => hzero (BitVec.toNat_inj.1 h)
      have hm := Rounding.toNat_one_append (@unpackMantissa binary64 b)
      have he : ((@unpackExponent binary64 b).toNat
          - (binary64.exponentBias + binary64.mantissaBitsWithoutImplicit) : Int)
          = (@unpackExponent binary64 b).toNat - 1075 := by
        rw [hbias]
      rw [finite_congr hm he]
      have hexponent : (@unpackExponent binary64 b).toNat < 2048 := hexponent
      exact .normal (by omega) (by omega) _

def scale (x : Float) : Nat :=
  x.toBits.toNat / 2 ^ 52 % 2 ^ 11

def fraction (x : Float) : Nat :=
  x.toBits.toNat % 2 ^ 52

theorem fraction_lt (x : Float) : fraction x < 2 ^ 52 :=
  Nat.mod_lt _ (Nat.two_pow_pos 52)

theorem ofFloat_subnormal (h : scale x = 0) :
    Binary.ofFloat x = { mantissa := fraction x, exponent := -1074 } :=
  if_pos h

theorem ofFloat_normal (h : scale x ≠ 0) : Binary.ofFloat x =
    { mantissa := 2 ^ 52 + fraction x
      exponent := (scale x : Int) - 1075
      narrowBelow := fraction x == 0 && 1 < scale x } :=
  if_neg h

theorem represents (x : Float) : Represents (signOf x) (scale x) (fraction x) x.toModel.unpack := by
  rw [← ofBitVec_unpackSign]
  exact represents_unpack x.toBits.toBitVec

namespace Proper

theorem scale_lt (h : Proper x) : scale x < 2047 := by
  have hnumber : x.toModel.unpack.isNaN = false := h.number
  have hfinite : x.toModel.unpack.isInf = false := h.finite
  have hrepresents := represents x
  generalize x.toModel.unpack = u at *
  cases hrepresents with
  | infinity => contradiction
  | notANumber => contradiction
  | zero hscale => omega
  | subnormal hscale => omega
  | normal hscale hscale' => exact hscale'

theorem unpack_eq (h : Proper x) : ∃ hpos, x.toModel.unpack
    = .finite (signOf x) (Binary.ofFloat x).mantissa (Binary.ofFloat x).exponent hpos := by
  have hnumber : x.toModel.unpack.isNaN = false := h.number
  have hfinite : x.toModel.unpack.isInf = false := h.finite
  have hnonzero : x.toModel.unpack.beq (.zero .positive) = false := h.nonzero
  have hrepresents := represents x
  generalize x.toModel.unpack = u at *
  cases hrepresents with
  | infinity => contradiction
  | notANumber => contradiction
  | zero => contradiction
  | subnormal hscale hpos =>
    rw [ofFloat_subnormal hscale]
    exact ⟨hpos, rfl⟩
  | normal hscale hscale' hpos =>
    rw [ofFloat_normal hscale.ne']
    exact ⟨hpos, rfl⟩

theorem fits (h : Proper x) : (Binary.ofFloat x).Fits := by
  obtain ⟨hpos, -⟩ := h.unpack_eq
  have hfraction := fraction_lt x
  have hscale := h.scale_lt
  by_cases hzero : scale x = 0
  . rw [ofFloat_subnormal hzero] at hpos ⊢
    exact ⟨hpos, by dsimp only; omega, by simp, nofun, nofun⟩
  . rw [ofFloat_normal hzero] at hpos ⊢
    refine ⟨hpos, by dsimp only; omega, by dsimp only; omega, fun _ => Nat.le_add_right _ _,
      fun hnarrow => ?_⟩
    simp only [Bool.and_eq_true, beq_iff_eq] at hnarrow
    dsimp only
    omega

/--
A real that is not too small has 53 binary digits.
-/
theorem normal (h : Proper x) (hexponent : -1074 < (Binary.ofFloat x).exponent) :
    (Binary.ofFloat x).Normal := by
  have hscale : scale x ≠ 0 := by
    intro hzero
    rw [ofFloat_subnormal hzero] at hexponent
    contradiction
  refine ⟨h.fits, hexponent, ?_⟩
  rw [ofFloat_normal hscale] at hexponent ⊢
  dsimp only at hexponent ⊢
  intro hmantissa
  rw [Bool.and_eq_true, beq_iff_eq, decide_eq_true_iff]
  omega

end Proper

/--
The absolute value of a real that is a number.
-/
def magnitude (x : Float) : ℚ :=
  match x.toModel.unpack with
  | .finite _ m e _ => m * 2 ^ e
  | _ => 0

theorem Proper.magnitude_eq (h : Proper x) : magnitude x = (Binary.ofFloat x).value := by
  obtain ⟨_, hunpack⟩ := h.unpack_eq
  rw [magnitude, hunpack]
  rfl

/--
There are two zeros, which are equal.
-/
theorem eq_zero_of_beq (h : x == 0) : x = 0 ∨ x = -0 := by
  have hzero : x.toModel.unpack.beq (.zero .positive) = true := h
  have hrepresents := represents x
  have hparts : scale x = 0 ∧ fraction x = 0 := by
    generalize x.toModel.unpack = u at *
    generalize signOf x = s at *
    cases hrepresents with
    | infinity => cases s <;> contradiction
    | notANumber => contradiction
    | zero hscale hfraction => exact ⟨hscale, hfraction⟩
    | subnormal => cases s <;> contradiction
    | normal => cases s <;> contradiction
  obtain ⟨hscale, hfraction⟩ := hparts
  rw [scale] at hscale
  rw [fraction] at hfraction
  have hlt := x.toBits.toNat_lt
  rw [← Float.toBits_inj, ← Float.toBits_inj, ← UInt64.toNat_inj, ← UInt64.toNat_inj]
  have hpositive : (0 : Float).toBits.toNat = 0 := by decide +kernel
  have hnegative : (-0 : Float).toBits.toNat = 2 ^ 63 := by decide +kernel
  rw [hpositive, hnegative]
  omega

end Real

end LispScript
