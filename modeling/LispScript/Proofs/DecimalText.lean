import LispScript.Decimal.Real
import LispScript.Proofs.NumberSyntax
import LispScript.Proofs.Shortest

/-!
This module contains the two shapes of a printed real. A number from 10 ^ -4 up to 10 ^ 6 is digits with a point
among them; every other one has an exponent. The digits do not move a number to the other side.
-/

namespace LispScript

namespace Real

open Word (decimalDigits)

theorem digitsValue_append (front back : List Char) :
    digitsValue (front ++ back) = digitsValue front * 10 ^ back.length + digitsValue back := by
  induction back using List.reverseRecOn with
  | nil => simp [digitsValue]
  | append_singleton back c ih =>
    rw [← List.append_assoc, Word.digitsValue_append_singleton, Word.digitsValue_append_singleton, ih,
      List.length_append, List.length_singleton, Nat.pow_succ]
    ring

theorem digitsValue_replicate (k : Nat) : digitsValue (List.replicate k '0') = 0 := by
  induction k with
  | zero => rfl
  | succ k ih =>
    rw [List.replicate_succ', Word.digitsValue_append_singleton, ih]
    rfl

end Real

namespace Decimal

open Word (decimalDigits Digits)

variable {d : Decimal}

/--
The exponent of the first digit.
-/
def leading (d : Decimal) : Int :=
  d.exponent + (Nat.toDigits 10 d.digits).length - 1

theorem ten_pow_le_digits (hd : 0 < d.digits) : 10 ^ ((Nat.toDigits 10 d.digits).length - 1) ≤ d.digits := by
  rcases Nat.eq_zero_or_pos ((Nat.toDigits 10 d.digits).length - 1) with h | h
  . rw [h]
    exact hd
  . have := (Nat.length_toDigits_le_iff (b := 10) (n := d.digits) (by decide) h).not
    omega

theorem leading_bounds (hd : 0 < d.digits) : 10 ^ d.leading ≤ d.value ∧ d.value < 10 ^ (d.leading + 1) := by
  obtain ⟨k, hk⟩ : ∃ k, (Nat.toDigits 10 d.digits).length = k + 1 :=
    Nat.exists_eq_succ_of_ne_zero (List.length_pos_of_ne_nil Nat.toDigits_ne_nil).ne'
  have hlow : 10 ^ k ≤ d.digits := by
    have := ten_pow_le_digits hd
    rwa [hk] at this
  have hhigh : d.digits < 10 ^ (k + 1) :=
    (Nat.length_toDigits_le_iff (by decide) (by omega)).1 hk.le
  have hlow : (10 ^ k : ℚ) ≤ d.digits := by exact_mod_cast hlow
  have hhigh : (d.digits : ℚ) < 10 ^ (k + 1) := by exact_mod_cast hhigh
  have hpow := ten_zpow_pos d.exponent
  rw [leading, hk, value]
  constructor
  . rw [show d.exponent + (k + 1 : Nat) - 1 = k + d.exponent by omega, zpow_add₀ (by norm_num), zpow_natCast]
    exact mul_le_mul_of_nonneg_right hlow hpow.le
  . rw [show d.exponent + (k + 1 : Nat) - 1 + 1 = (k + 1 : Nat) + d.exponent by omega,
      zpow_add₀ (by norm_num), zpow_natCast]
    exact mul_lt_mul_of_pos_right hhigh hpow

/--
The numbers that are written without an exponent.
-/
def Moderate (v : ℚ) : Prop :=
  1 / 10 ^ 4 ≤ v ∧ v < 10 ^ 6

theorem isPositional_leading_iff (hd : 0 < d.digits) : isPositional d.leading ↔ Moderate d.value := by
  obtain ⟨hlow, hhigh⟩ := leading_bounds hd
  have hfour : (1 / 10 ^ 4 : ℚ) = 10 ^ (-4 : Int) := by norm_num
  have hsix : (10 ^ 6 : ℚ) = 10 ^ (6 : Int) := by norm_num
  have hten : (1 : ℚ) < 10 := by norm_num
  rw [isPositional, Bool.and_eq_true, decide_eq_true_iff, decide_eq_true_iff, Moderate, hfour, hsix]
  constructor
  . rintro ⟨h, h'⟩
    exact ⟨(zpow_le_zpow_right₀ hten.le h).trans hlow, hhigh.trans_le (zpow_le_zpow_right₀ hten.le h')⟩
  . rintro ⟨h, h'⟩
    have := (zpow_lt_zpow_iff_right₀ hten).1 (h.trans_lt hhigh)
    have := (zpow_lt_zpow_iff_right₀ hten).1 (hlow.trans_lt h')
    omega

/-! Size. -/

namespace Binary

theorem Covers.bounds {b : Binary} {y : ℚ} (h : b.Covers y) :
    (b.mantissa - 1 / 2) * 2 ^ b.exponent ≤ y ∧ y ≤ (b.mantissa + 1 / 2) * 2 ^ b.exponent := by
  have hpow := two_zpow_pos b.exponent
  refine ⟨(le_div_iff₀ hpow).1 ?_, (div_le_iff₀ hpow).1 h.high⟩
  have hlow := h.low
  split at hlow <;> linarith

end Binary

/--
Nothing changes sides at a number `t` if what is next to it from above is not written below `t`.
-/
theorem le_shortest_iff {b : Binary} (hb : b.Fits) {m : Nat} {e : Int} {t : ℚ} (he : -1074 < e)
    (hm : m ≠ 2 ^ 52) (hlow : 2 ^ (e + 52) < t) (hhigh : t ≤ (2 ^ 52 - 1 / 2) * 2 ^ (e + 1))
    (hless : (m - 1 / 2) * 2 ^ e < t) (hle : t ≤ m * 2 ^ e)
    (hnext : t ≤ (shortest { mantissa := m, exponent := e }).value) :
    t ≤ (shortest b).value ↔ t ≤ b.value := by
  obtain ⟨hlower, hupper⟩ := (shortest_covers hb).bounds
  have hvalue : b.value = b.mantissa * 2 ^ b.exponent := rfl
  have hpow := two_zpow_pos e
  rcases Int.lt_trichotomy b.exponent e with h | h | h
  . have hdigits : (b.mantissa : ℚ) + 1 ≤ 2 ^ 53 := by exact_mod_cast hb.digits
    have hscaled : (2 : ℚ) ^ b.exponent ≤ 2 ^ (e - 1) := zpow_le_zpow_right₀ one_le_two (by omega)
    have hbound : (2 ^ 53 : ℚ) * 2 ^ (e - 1) = 2 ^ (e + 52) := by
      rw [← zpow_natCast, ← zpow_add₀ two_ne_zero]
      congr 1
      omega
    have : (b.mantissa + 1 / 2 : ℚ) * 2 ^ b.exponent ≤ 2 ^ 53 * 2 ^ (e - 1) :=
      mul_le_mul (by linarith) hscaled (two_zpow_pos _).le (by norm_num)
    have : (b.mantissa : ℚ) * 2 ^ b.exponent ≤ 2 ^ 53 * 2 ^ (e - 1) :=
      mul_le_mul (by linarith) hscaled (two_zpow_pos _).le (by norm_num)
    exact iff_of_false (by linarith) (by linarith)
  . rw [h] at hlower hupper hvalue
    rcases Nat.lt_trichotomy b.mantissa m with hmantissa | hmantissa | hmantissa
    . have hcast : (b.mantissa : ℚ) + 1 ≤ m := by exact_mod_cast hmantissa
      have : (b.mantissa + 1 / 2 : ℚ) * 2 ^ e ≤ (m - 1 / 2) * 2 ^ e :=
        mul_le_mul_of_nonneg_right (by linarith) hpow.le
      have : (b.mantissa : ℚ) * 2 ^ e ≤ (m - 1 / 2) * 2 ^ e :=
        mul_le_mul_of_nonneg_right (by linarith) hpow.le
      exact iff_of_false (by linarith) (by linarith)
    . have heq : b = { mantissa := m, exponent := e } := by
        have hwide : b.narrowBelow = false := by
          rw [Bool.eq_false_iff]
          exact fun hnarrow => hm (hmantissa ▸ hb.narrow hnarrow)
        rw [← hmantissa, ← h, ← hwide]
      rw [heq]
      exact iff_of_true hnext hle
    . have hcast : (m : ℚ) + 1 ≤ b.mantissa := by exact_mod_cast hmantissa
      have : (m : ℚ) * 2 ^ e ≤ (b.mantissa - 1 / 2) * 2 ^ e :=
        mul_le_mul_of_nonneg_right (by linarith) hpow.le
      have : (m : ℚ) * 2 ^ e ≤ b.mantissa * 2 ^ e :=
        mul_le_mul_of_nonneg_right (by linarith) hpow.le
      exact iff_of_true (by linarith) (by linarith)
  . have hdigits : (2 ^ 52 : ℚ) ≤ b.mantissa := by exact_mod_cast hb.first (by omega)
    have hscaled : (2 : ℚ) ^ (e + 1) ≤ 2 ^ b.exponent := zpow_le_zpow_right₀ one_le_two (by omega)
    have : (2 ^ 52 - 1 / 2 : ℚ) * 2 ^ (e + 1) ≤ (b.mantissa - 1 / 2) * 2 ^ b.exponent :=
      mul_le_mul (by linarith) hscaled (two_zpow_pos _).le (by linarith)
    have : (2 ^ 52 - 1 / 2 : ℚ) * 2 ^ (e + 1) ≤ b.mantissa * 2 ^ b.exponent :=
      mul_le_mul (by linarith) hscaled (two_zpow_pos _).le (by linarith)
    exact iff_of_true (by linarith) (by linarith)

theorem moderate_shortest_iff {b : Binary} (hb : b.Fits) :
    Moderate (shortest b).value ↔ Moderate b.value := by
  have hlow : 1 / 10 ^ 4 ≤ (shortest b).value ↔ 1 / 10 ^ 4 ≤ b.value := by
    have hnext : shortest { mantissa := 7378697629483821, exponent := -66 }
        = { digits := 1, exponent := -4 } := by
      decide +kernel
    apply le_shortest_iff (m := 7378697629483821) (e := -66) hb (by decide) (by decide)
    . norm_num
    . norm_num
    . norm_num
    . norm_num
    . rw [hnext, value]
      norm_num
  have hhigh : 10 ^ 6 ≤ (shortest b).value ↔ 10 ^ 6 ≤ b.value := by
    have hnext : shortest { mantissa := 8589934592000000, exponent := -33 }
        = { digits := 1, exponent := 6 } := by
      decide +kernel
    apply le_shortest_iff (m := 8589934592000000) (e := -33) hb (by decide) (by decide)
    . norm_num
    . norm_num
    . norm_num
    . norm_num
    . rw [hnext, value]
      norm_num
  rw [Moderate, Moderate, hlow, ← not_le, hhigh, not_le]

theorem shortest_pos {b : Binary} (hb : b.Fits) : 0 < (shortest b).digits := by
  rw [Nat.pos_iff_ne_zero]
  intro hzero
  have hpos := (shortest_covers hb).pos hb
  rw [value, hzero, Nat.cast_zero, zero_mul] at hpos
  exact lt_irrefl _ hpos

/--
The size of a number decides how its digits are written.
-/
theorem isPositional_shortest_iff {b : Binary} (hb : b.Fits) :
    isPositional (shortest b).leading ↔ Moderate b.value := by
  rw [isPositional_leading_iff (shortest_pos hb), moderate_shortest_iff hb]

/-! Digits. -/

/--
The digits before and after the point, and what they denote.
-/
structure Plain (v : ℚ) (whole fraction : List Char) : Prop where
  before : Digits whole
  after : Digits fraction
  value : (Real.digitsValue (whole ++ fraction) : ℚ) / 10 ^ fraction.length = v

theorem Plain.digits {v : ℚ} {whole fraction : List Char} (h : Plain v whole fraction) :
    Digits (whole ++ fraction) where
  nonempty := by simp [h.before.nonempty]
  decimal := List.forall_mem_append.2 ⟨h.before.decimal, h.after.decimal⟩

theorem toDigits_decimal (n : Nat) : ∀ c ∈ Nat.toDigits 10 n, c ∈ decimalDigits :=
  fun _ hc => Word.isDigit_iff.1 (Nat.isDigit_of_mem_toDigits (by decide) (by decide) hc)

theorem digits_zero : Digits ['0'] where
  nonempty := List.cons_ne_nil _ _
  decimal := List.forall_mem_singleton.2 (by decide)

theorem replicate_decimal (k : Nat) : ∀ c ∈ List.replicate k '0', c ∈ decimalDigits := by
  intro c hc
  rw [List.eq_of_mem_replicate hc]
  decide

/--
The digits of `d`, with zeros where there are none.
-/
theorem plain_of_eq {whole fraction : List Char} (hbefore : Digits whole) (hafter : Digits fraction) {k : Nat}
    (hvalue : Real.digitsValue (whole ++ fraction) = d.digits * 10 ^ k)
    (hk : (k : Int) = d.exponent + fraction.length) : Plain d.value whole fraction where
  before := hbefore
  after := hafter
  value := by
    rw [hvalue, value, show d.exponent = k - fraction.length by omega, zpow_sub₀ (by norm_num), zpow_natCast,
      zpow_natCast]
    push_cast
    ring

/--
A number without an exponent is digits with a point among them, or digits to which a point is added.
-/
theorem text_positional (h : isPositional d.leading) : ∃ whole fraction, Plain d.value whole fraction ∧
    (d.text.toList = whole ++ '.' :: fraction ∨ d.text.toList = whole ∧ fraction = ['0']) := by
  have hdigits : (toString d.digits).toList = Nat.toDigits 10 d.digits := Nat.toList_repr
  have hvalue := Word.digitsValue_toDigits d.digits
  have hdecimal := toDigits_decimal d.digits
  have hne : Nat.toDigits 10 d.digits ≠ [] := Nat.toDigits_ne_nil
  have hleading : d.leading = d.exponent + (Nat.toDigits 10 d.digits).length - 1 := rfl
  unfold text
  simp only [hdigits, ← hleading, h, if_true]
  generalize Nat.toDigits 10 d.digits = digits at *
  have hlength := List.length_pos_of_ne_nil hne
  split
  . next hexponent =>
    refine ⟨digits ++ List.replicate d.exponent.toNat '0', ['0'],
      plain_of_eq (k := d.exponent.toNat + 1) ?_ ?_ ?_ ?_, .inr ⟨String.toList_ofList, rfl⟩⟩
    . exact ⟨by simp [hne], List.forall_mem_append.2 ⟨hdecimal, replicate_decimal _⟩⟩
    . exact digits_zero
    . rw [List.append_assoc, ← List.replicate_succ', Real.digitsValue_append, Real.digitsValue_replicate,
        hvalue, List.length_replicate, Nat.add_zero]
    . rw [List.length_singleton]
      omega
  . next hexponent =>
    split
    . next hpoint =>
      refine ⟨digits.take (d.leading.toNat + 1), digits.drop (d.leading.toNat + 1),
        plain_of_eq (k := 0) ?_ ?_ ?_ ?_, .inl String.toList_ofList⟩
      . exact ⟨by simp [hne], fun c hc => hdecimal c (List.mem_of_mem_take hc)⟩
      . refine ⟨?_, fun c hc => hdecimal c (List.mem_of_mem_drop hc)⟩
        rw [Ne, List.drop_eq_nil_iff]
        omega
      . rw [List.take_append_drop, hvalue, Nat.pow_zero, Nat.mul_one]
      . rw [List.length_drop]
        omega
    . next hpoint =>
      refine ⟨['0'], List.replicate (-d.leading - 1).toNat '0' ++ digits,
        plain_of_eq (k := 0) ?_ ?_ ?_ ?_, .inl String.toList_ofList⟩
      . exact digits_zero
      . exact ⟨by simp [hne], List.forall_mem_append.2 ⟨replicate_decimal _, hdecimal⟩⟩
      . rw [← List.append_assoc, Real.digitsValue_append, hvalue, List.singleton_append,
          ← List.replicate_succ, Real.digitsValue_replicate]
        omega
      . rw [List.length_append, List.length_replicate]
        omega

/--
The characters of a number with an exponent.
-/
def exponential : List Char :=
  '.' :: 'e' :: '+' :: '-' :: decimalDigits

theorem exponentText_eq (e : Int) :
    ∃ rest, (exponentText e).toList = 'e' :: rest ∧ ∀ c ∈ rest, c ∈ exponential := by
  have hdecimal : ∀ c ∈ Nat.toDigits 10 e.natAbs, c ∈ exponential := by
    intro c hc
    simp [exponential, toDigits_decimal _ c hc]
  have hdigits : (toString e.natAbs).toList = Nat.toDigits 10 e.natAbs := Nat.toList_repr
  let sign := if e < 0 then "-" else "+"
  let digits := if (toString e.natAbs).length < 2 then "0" ++ toString e.natAbs else toString e.natAbs
  have htext : (exponentText e).toList = 'e' :: (sign.toList ++ digits.toList) := by
    rw [exponentText, String.toList_append, String.toList_append]
    rfl
  refine ⟨sign.toList ++ digits.toList, htext, ?_⟩
  rw [List.forall_mem_append]
  constructor
  . dsimp only [sign]
    split
    . exact List.forall_mem_singleton.2 (by decide)
    . exact List.forall_mem_singleton.2 (by decide)
  . dsimp only [digits]
    split
    . rw [String.toList_append, hdigits, List.forall_mem_append]
      exact ⟨List.forall_mem_singleton.2 (by decide), hdecimal⟩
    . rw [hdigits]
      exact hdecimal

/--
A number with an exponent starts with a digit.
-/
theorem text_exponential (h : ¬ isPositional d.leading) : ∃ c rest, d.text.toList = c :: rest ∧
    c ∈ decimalDigits ∧ 'e' ∈ rest ∧ ∀ c ∈ rest, c ∈ exponential := by
  have hdigits : (toString d.digits).toList = Nat.toDigits 10 d.digits := Nat.toList_repr
  have hdecimal := toDigits_decimal d.digits
  have hleading : d.leading = d.exponent + (Nat.toDigits 10 d.digits).length - 1 := rfl
  obtain ⟨c, rest, hcons⟩ := List.exists_cons_of_ne_nil (Nat.toDigits_ne_nil (n := d.digits) (b := 10))
  obtain ⟨last, htext, hlast⟩ := exponentText_eq d.leading
  unfold text
  simp only [hdigits, ← hleading, h]
  rw [hcons, List.forall_mem_cons] at hdecimal
  have hrest : ∀ c ∈ rest, c ∈ exponential := fun c hc => by simp [exponential, hdecimal.2 c hc]
  rw [hcons]
  refine ⟨c, (if rest.isEmpty then [] else '.' :: rest) ++ 'e' :: last, ?_, hdecimal.1, by simp, ?_⟩
  . rw [← htext]
    simp
  . rw [List.forall_mem_append, List.forall_mem_cons]
    refine ⟨?_, by decide, hlast⟩
    split
    . nofun
    . exact List.forall_mem_cons.2 ⟨by decide, hrest⟩

end Decimal

namespace Real

open Decimal (Plain exponential)
open Word (decimalDigits)

variable {x : Float}

/--
What shows that a text is one of a real.
-/
def isMark (c : Char) : Bool :=
  c == '.' || c == 'e' || c == 'I' || c == 'N'

theorem toList_text (x : Float) : (text x).toList =
    if (shortText x).toList.any isMark then (shortText x).toList else (shortText x).toList ++ ['.', '0'] := by
  have hany : ((shortText x).any fun c => c == '.' || c == 'e' || c == 'I' || c == 'N')
      = (shortText x).toList.any isMark := String.contains_bool_eq
  rw [text, hany]
  split
  . rfl
  . rw [String.toList_append]
    rfl

def isNegative (x : Float) : Bool :=
  x.toBits >>> 63 == 1

/--
The sign of a real.
-/
def sign (x : Float) : List Char :=
  if isNegative x then ['-'] else []

theorem sign_sign (x : Float) : Word.Sign (sign x) := by
  rw [sign]
  split
  . exact .minus
  . exact .none

/--
A real that is written with digits.
-/
structure Proper (x : Float) : Prop where
  number : x.isNaN = false
  finite : x.isInf = false
  nonzero : (x == 0) = false

theorem Proper.toList_shortText (h : Proper x) :
    (shortText x).toList = sign x ++ (Decimal.shortest (.ofFloat x)).text.toList := by
  have hnegative : (x.toBits >>> 63 == 1) = isNegative x := rfl
  rw [shortText, h.number, h.finite, h.nonzero, hnegative, sign]
  cases isNegative x with
  | true => simp
  | false => simp

theorem Proper.text_plain (h : Proper x)
    (hpositional : Decimal.isPositional (Decimal.shortest (.ofFloat x)).leading) :
    ∃ whole fraction, Plain (Decimal.shortest (.ofFloat x)).value whole fraction ∧
      (text x).toList = sign x ++ (whole ++ '.' :: fraction) := by
  obtain ⟨whole, fraction, hplain, htext⟩ := Decimal.text_positional hpositional
  refine ⟨whole, fraction, hplain, ?_⟩
  rw [toList_text, h.toList_shortText]
  rcases htext with htext | ⟨htext, rfl⟩
  . rw [htext, if_pos (by simp [isMark])]
  . have hunmarked : ∀ c ∈ sign x ++ whole, isMark c = false := by
      rw [List.forall_mem_append]
      refine ⟨?_, fun c hc => ?_⟩
      . rw [sign]
        split
        . exact List.forall_mem_singleton.2 rfl
        . nofun
      . have hall : ∀ c ∈ decimalDigits, isMark c = false := Word.forall_decimalDigits.2 (by decide)
        exact hall c (hplain.before.decimal c hc)
    rw [htext, if_neg (by simpa [or_imp, forall_and] using hunmarked), List.append_assoc]

theorem Proper.text_exponential (h : Proper x)
    (hexponential : ¬ Decimal.isPositional (Decimal.shortest (.ofFloat x)).leading) :
    ∃ c rest, (text x).toList = sign x ++ c :: rest ∧ c ∈ decimalDigits ∧ 'e' ∈ rest ∧
      ∀ c ∈ rest, c ∈ exponential := by
  obtain ⟨c, rest, htext, hrest⟩ := Decimal.text_exponential hexponential
  refine ⟨c, rest, ?_, hrest⟩
  have hmarked : 'e' ∈ sign x ++ c :: rest := by simp [hrest.2.1]
  rw [toList_text, h.toList_shortText, htext, if_pos (List.any_eq_true.2 ⟨'e', hmarked, rfl⟩)]

end Real

end LispScript
