import LispScript.Grammar
import LispScript.Proofs.Representation

/-!
This module contains what the word of a real is read as. Digits with a point among them denote a quotient of two
numbers that are represented without loss, so one division reads them.
-/

namespace LispScript

open Float.Model (UnpackedFloat)
open Float.Model.Format (binary64)
open Float.Model.UnpackedFloat (Sign)
open Decimal (Binary two_zpow_pos ten_zpow_pos)

namespace Real

theorem eq_of_unpack_eq {x y : Float} (h : x.toModel.unpack = y.toModel.unpack) : x = y := by
  have hpacked : ∀ z : Float, UnpackedFloat.pack binary64 z.toModel.unpack = z.toBits.toBitVec :=
    fun z => UnpackedFloat.pack_unpack_of_valid z.toModel.valid
  rw [← Float.toBits_inj, ← UInt64.toBitVec_inj, ← hpacked, h, hpacked]

variable {b : Binary}

theorem unpack_pack (hb : b.Normal) (sign : Sign) :
    let u := UnpackedFloat.finite sign b.mantissa b.exponent hb.pos
    (Float.Model.pack u).unpack = u := by
  obtain ⟨biased, hbiased⟩ : ∃ biased : Nat, b.exponent = biased - 1075 :=
    ⟨(b.exponent + 1075).toNat, by have := hb.above; omega⟩
  have habove := hb.above
  have hexponent := hb.exponent.2
  simp only [hbiased]
  exact Rounding.unpack_pack_finite hb.low hb.digits (by omega) (by omega) hb.pos

/--
A natural number or a power of ten is represented without loss.
-/
structure Exactly (x : Float) (n : Nat) : Prop where
  unpack : ∃ m e hpos, x.toModel.unpack = .finite .positive m e hpos ∧ (m : ℚ) * 2 ^ e = n

theorem exactly_toFloat {n : Nat} (hn : n ≠ 0) (h : n < 2 ^ 53) : Exactly n.toUInt64.toFloat n := by
  have htoNat : n.toUInt64.toNat = n := Nat.mod_eq_of_lt (h.trans (by decide))
  obtain ⟨hpos, hunpack, -⟩ := Rounding.unpack_toFloat htoNat hn
  obtain ⟨hexponent, hsignificand⟩ := Rounding.significand_exact hn h.le
  refine ⟨_, _, hpos, hunpack, ?_⟩
  have hsignificand : (Rounding.significand n : ℚ) * 2 ^ n.log2 = n * 2 ^ 52 := by
    exact_mod_cast hsignificand
  rw [hexponent, zpow_sub₀ two_ne_zero, zpow_natCast, ← mul_div_assoc, hsignificand]
  exact mul_div_cancel_right₀ _ (by norm_num)

def isPowerOfTen (k : Nat) (x : Float) : Bool :=
  match x.toModel.unpack with
  | .finite .positive m e _ => m * 2 ^ e.toNat == 10 ^ k * 2 ^ (-e).toNat
  | _ => false

theorem powers_of_ten : ∀ k : Fin 23, isPowerOfTen k Float.exactlyRepresentablePowersOfTen[k] := by
  decide +kernel

theorem exactly_powerOfTen {k : Nat} (hk : k < Float.exactlyRepresentablePowersOfTen.size) :
    Exactly Float.exactlyRepresentablePowersOfTen[k] (10 ^ k) := by
  have hpower := powers_of_ten ⟨k, hk⟩
  rw [isPowerOfTen] at hpower
  split at hpower
  . next m e hpos hunpack =>
    refine ⟨m, e, hpos, hunpack, ?_⟩
    have hpower : (m : ℚ) * 2 ^ e.toNat = 10 ^ k * 2 ^ (-e).toNat := by
      exact_mod_cast beq_iff_eq.1 hpower
    rw [Decimal.zpow_eq_div, ← mul_div_assoc, hpower]
    push_cast
    exact mul_div_cancel_right₀ _ (pow_pos two_pos _).ne'
  . contradiction

theorem unpack_div (hb : b.Normal) {x y : Float} {m n : Nat} (hx : Exactly x m) (hy : Exactly y n)
    (h : b.Covers (m / n)) :
    (x / y).toModel.unpack = .finite .positive b.mantissa b.exponent hb.pos := by
  obtain ⟨m₁, e₁, h₁, hx, hm⟩ := hx
  obtain ⟨m₂, e₂, h₂, hy, hn⟩ := hy
  have hcovers : b.Covers (m₁ / m₂ * 2 ^ (e₁ - e₂)) := by
    rw [← hm, ← hn] at h
    rw [zpow_sub₀ two_ne_zero]
    convert h using 1
    rw [div_mul_div_comm]
  show (Float.Model.pack (UnpackedFloat.div binary64 x.toModel.unpack y.toModel.unpack)).unpack = _
  rw [hx, hy, Rounding.div_eq hb h₁ h₂ hcovers]
  exact unpack_pack hb .positive

/--
A fraction that is not too small has few digits for its value.
-/
theorem fraction_length_le (hb : b.Normal) {n k : Nat} (h : b.Covers ((n : ℚ) / 10 ^ k)) :
    (k : Int) ≤ 1023 + n.log2 := by
  obtain ⟨p, hp, -, hplace⟩ := Rounding.exists_magnitude hb h
  have hexponent := hb.above
  have hten : (0 : ℚ) < 10 ^ k := by positivity
  have hless : (2 : ℚ) ^ (p + k) < 2 ^ (n.log2 + 1 : Int) := by
    calc
      (2 : ℚ) ^ (p + k) = 2 ^ p * 2 ^ k := by rw [zpow_add₀ two_ne_zero, zpow_natCast]
      _ ≤ 2 ^ p * 10 ^ k := by gcongr; norm_num
      _ ≤ n := (le_div_iff₀ hten).1 hp
      _ < 2 ^ (n.log2 + 1 : Int) := by exact_mod_cast Nat.lt_log2_self
  have := (zpow_lt_zpow_iff_right₀ one_lt_two).1 hless
  omega

theorem unpack_ofScientific (hb : b.Normal) {n k : Nat} (hn : n ≠ 0) (hk : 0 < k)
    (h : b.Covers ((n : ℚ) / 10 ^ k)) :
    (Float.ofScientific n true k).toModel.unpack = .finite .positive b.mantissa b.exponent hb.pos := by
  have hpow : ((10 ^ k : Nat) : ℚ) = 10 ^ k := by push_cast; rfl
  rw [Float.ofScientific]
  split
  . next hsmall =>
    dsimp only
    rw [if_pos rfl]
    exact unpack_div hb (exactly_toFloat hn hsmall.1) (exactly_powerOfTen (Nat.lt_succ_of_le hsmall.2))
      (by rwa [hpow])
  . have hnegative : Int.negOfNat k = -k := Int.negOfNat_eq
    have hbound := fraction_length_le hb h
    have hbits : (2 : Int) ^ binary64.exponentBits = 2048 := by decide
    have hamount : (-(-(k : Int))).toNat = k := by omega
    show (Float.Model.pack (UnpackedFloat.ofScientific binary64 n (Int.negOfNat k))).unpack = _
    rw [UnpackedFloat.ofScientific, dif_neg hn, if_neg (by omega), if_neg (by omega), if_neg (by omega)]
    simp only [hnegative, hamount]
    rw [Rounding.div_eq hb]
    . exact unpack_pack hb .positive
    . rw [hpow, Int.sub_self, zpow_zero, mul_one]
      exact h

/-! Numbers. -/

theorem roundWithAccuracy_ne_notANumber (sign : Sign) (m : Nat) (e : Int)
    (accuracy : UnpackedFloat.Accuracy) :
    UnpackedFloat.roundWithAccuracy binary64 sign m e accuracy ≠ .notANumber := by
  rw [UnpackedFloat.roundWithAccuracy]
  dsimp only
  split <;> simp

theorem unpack_packComponents_ne_notANumber (sign : Sign) {e : BitVec 11} {m : BitVec 52}
    (h : e = -1#11 → m = 0#52) :
    UnpackedFloat.unpack binary64 (UnpackedFloat.packComponents binary64 sign e m) ≠ .notANumber := by
  rw [UnpackedFloat.unpack]
  simp only [UnpackedFloat.unpackExponent_packComponents, UnpackedFloat.unpackMantissa_packComponents]
  split
  . next hones =>
    rw [if_pos (h hones)]
    nofun
  . split
    . split <;> nofun
    . nofun

theorem unpack_pack_ne_notANumber {u : UnpackedFloat} (h : u ≠ .notANumber) :
    (Float.Model.pack u).unpack ≠ .notANumber := by
  show UnpackedFloat.unpack binary64 (UnpackedFloat.pack binary64 u) ≠ _
  cases u with
  | notANumber => contradiction
  | infinity sign => exact unpack_packComponents_ne_notANumber sign fun _ => rfl
  | zero sign => exact unpack_packComponents_ne_notANumber sign (by decide)
  | finite sign m e hpos =>
    rw [UnpackedFloat.pack]
    dsimp only
    split
    . exact unpack_packComponents_ne_notANumber sign fun _ => rfl
    . next hsmall =>
      split
      . refine unpack_packComponents_ne_notANumber sign fun hones => absurd (congrArg BitVec.toNat hones) ?_
        have hmax : (-1#11).toNat = 2047 := rfl
        rw [BitVec.toNat_ofNat, Nat.mod_eq_of_lt (by omega), hmax]
        omega
      . exact unpack_packComponents_ne_notANumber sign fun hones => absurd hones (by decide)

section

variable {u v : UnpackedFloat} {sign : Sign} {m : Nat} {e : Int} {hpos : 0 < m}

theorem div_ne_notANumber (hu : u ≠ .notANumber) (hv : v = .finite sign m e hpos) :
    UnpackedFloat.div binary64 u v ≠ .notANumber := by
  rw [hv]
  cases u with
  | notANumber => contradiction
  | infinity => nofun
  | zero => nofun
  | finite => exact roundWithAccuracy_ne_notANumber _ _ _ _

theorem mul_ne_notANumber (hu : u ≠ .notANumber) (hv : v = .finite sign m e hpos) :
    UnpackedFloat.mul binary64 u v ≠ .notANumber := by
  rw [hv]
  cases u with
  | notANumber => contradiction
  | infinity => nofun
  | zero => nofun
  | finite => exact roundWithAccuracy_ne_notANumber _ _ _ _

end

theorem ofScientific_ne_notANumber (n : Nat) (e : Int) :
    UnpackedFloat.ofScientific binary64 n e ≠ .notANumber := by
  rw [UnpackedFloat.ofScientific]
  split
  . nofun
  . split
    . nofun
    . split
      . nofun
      . split
        . exact mul_ne_notANumber nofun rfl
        . exact div_ne_notANumber nofun rfl

theorem unpack_toFloat_ne_notANumber (n : UInt64) : n.toFloat.toModel.unpack ≠ .notANumber := by
  apply unpack_pack_ne_notANumber
  rw [UnpackedFloat.ofUInt64, UnpackedFloat.ofNat, UnpackedFloat.ofInt, UnpackedFloat.normalize]
  split
  . exact roundWithAccuracy_ne_notANumber _ _ _ _
  . simp
  . exact roundWithAccuracy_ne_notANumber _ _ _ _

/--
No decimal number is read as none.
-/
theorem unpack_ofScientific_ne_notANumber (n : Nat) (negative : Bool) (k : Nat) :
    (Float.ofScientific n negative k).toModel.unpack ≠ .notANumber := by
  rw [Float.ofScientific]
  split
  . next hsmall =>
    obtain ⟨m, e, hpos, hpower, -⟩ := exactly_powerOfTen (Nat.lt_succ_of_le hsmall.2)
    have hn := unpack_toFloat_ne_notANumber n.toUInt64
    dsimp only
    split
    . exact unpack_pack_ne_notANumber (div_ne_notANumber hn hpower)
    . exact unpack_pack_ne_notANumber (mul_ne_notANumber hn hpower)
  . exact unpack_pack_ne_notANumber (ofScientific_ne_notANumber _ _)

theorem isNaN_ofDigits (negative : Bool) (whole fraction : List Char) (exponent : Int) :
    (ofDigits negative whole fraction exponent).isNaN = false := by
  rw [Place.isNaN_eq_false_iff, ofDigits]
  split
  . apply unpack_pack_ne_notANumber
    have hsize := unpack_ofScientific_ne_notANumber (digitsValue (whole ++ fraction))
      (exponent - fraction.length < 0) (exponent - fraction.length).natAbs
    show UnpackedFloat.neg (Float.Model.unpack _) ≠ _
    generalize Float.Model.unpack _ = u at *
    cases u <;> first | contradiction | nofun
  . exact unpack_ofScientific_ne_notANumber _ _ _

section

open Decimal (Plain)

variable {x : Float} {v : ℚ} {whole fraction : List Char}

theorem realValue_eq (hplain : Plain v whole fraction) :
    Word.realValue (sign x ++ (whole ++ '.' :: fraction)) =
      let size := Float.ofScientific (digitsValue (whole ++ fraction)) true fraction.length
      if isNegative x then -size else size := by
  have hunsigned := (sign_sign x).unsigned_real hplain.digits
  have hpoint : ∀ c ∈ whole, c ≠ '.' := by
    rintro c hc rfl
    exact Word.point_notMem hplain.before.decimal hc
  have hwhole : (whole ++ '.' :: fraction).takeWhile (· != '.') = whole := by
    rw [List.takeWhile_append_of_pos (by simpa using hpoint), List.takeWhile_cons_of_neg (by simp),
      List.append_nil]
  have hfraction : (whole ++ '.' :: fraction).drop (whole.length + 1) = fraction := by
    rw [← List.drop_drop, List.drop_left]
    rfl
  have hnegative : (sign x ++ (whole ++ '.' :: fraction)).head? = some '-' ↔ isNegative x := by
    obtain ⟨c, rest, rfl, hc⟩ := hplain.before.exists_cons
    rw [sign]
    split
    . next h => simp [h]
    . next h =>
      refine iff_of_false ?_ h
      rintro ⟨⟩
      exact absurd hc (by decide)
  have hpos : 0 < fraction.length := List.length_pos_of_ne_nil hplain.after.nonempty
  rw [Word.realValue, hunsigned, hwhole, hfraction, ofDigits]
  have hscale : (0 : Int) - fraction.length < 0 := by omega
  have hnat : ((0 : Int) - fraction.length).natAbs = fraction.length := by omega
  simp only [hnegative, hscale, hnat, decide_true, Bool.decide_eq_true]

theorem Proper.realValue_eq (h : Proper x) (hb : (Binary.ofFloat x).Normal)
    (hcovers : (Binary.ofFloat x).Covers v) (hplain : Plain v whole fraction) :
    Word.realValue (sign x ++ (whole ++ '.' :: fraction)) = x := by
  have hpos : 0 < fraction.length := List.length_pos_of_ne_nil hplain.after.nonempty
  have hvalue : digitsValue (whole ++ fraction) ≠ 0 := by
    intro hzero
    have hv := hcovers.pos h.fits
    rw [← hplain.value, hzero, Nat.cast_zero, zero_div] at hv
    exact lt_irrefl _ hv
  have hsize := unpack_ofScientific hb hvalue hpos (by rwa [hplain.value])
  obtain ⟨_, hunpack⟩ := h.unpack_eq
  apply eq_of_unpack_eq
  rw [Real.realValue_eq hplain, hunpack, signOf]
  dsimp only
  split
  . show (Float.Model.pack (Float.Model.unpack _).neg).unpack = _
    rw [hsize]
    exact unpack_pack hb .negative
  . exact hsize

end

end Real

end LispScript
