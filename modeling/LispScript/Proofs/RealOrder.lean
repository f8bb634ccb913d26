import LispScript.Value.Order
import Mathlib

/-!
This module contains the order of the reals that are numbers. Each of them has a place in a linear order, and
to compare two of them means to compare their places. The two zeros have the same place.
-/

namespace LispScript

open Float.Model (UnpackedFloat)

/--
The order is by the sign, with a rank of their own for the infinities, then by the exponent, then by the
significand.
-/
abbrev Place :=
  Int ×ₗ Int ×ₗ Int

namespace Place

def mk (rank exponent significand : Int) : Place :=
  toLex (rank, toLex (exponent, significand))

variable {r e m r' e' m' : Int}

theorem compare_mk : compare (mk r e m) (mk r' e' m')
    = (compare r r').then ((compare e e').then (compare m m')) := rfl

theorem mk_le_mk : mk r e m ≤ mk r' e' m' ↔ r < r' ∨ r = r' ∧ (e < e' ∨ e = e' ∧ m ≤ m') := by
  simp [mk, Prod.Lex.le_iff]

theorem mk_inj : mk r e m = mk r' e' m' ↔ r = r' ∧ e = e' ∧ m = m' := by
  simp [mk]

theorem compare_neg (a b : Int) : compare (-a) (-b) = (compare a b).swap := by
  rcases Int.lt_trichotomy a b with h | rfl | h
  . rw [compare_gt_iff_gt.2 (Int.neg_lt_neg h), compare_lt_iff_lt.2 h]
    rfl
  . rw [compare_eq_iff_eq.2 rfl, compare_eq_iff_eq.2 rfl]
    rfl
  . rw [compare_lt_iff_lt.2 (Int.neg_lt_neg h), compare_gt_iff_gt.2 h]
    rfl

theorem compare_natCast (a b : Nat) : compare (a : Int) b = compare a b := by
  rcases Nat.lt_trichotomy a b with h | rfl | h
  . rw [compare_lt_iff_lt.2 h, compare_lt_iff_lt.2 (Int.ofNat_lt.2 h)]
  . rw [compare_eq_iff_eq.2 rfl, compare_eq_iff_eq.2 rfl]
  . rw [compare_gt_iff_gt.2 h, compare_gt_iff_gt.2 (Int.ofNat_lt.2 h)]

def ofUnpacked : UnpackedFloat → Place
  | .infinity .negative => mk (-2) 0 0
  | .finite .negative m e _ => mk (-1) (-e) (-m)
  | .notANumber | .zero _ => mk 0 0 0
  | .finite .positive m e _ => mk 1 e m
  | .infinity .positive => mk 2 0 0

/--
Only two finite numbers of one sign have the same rank without being equal.
-/
theorem compare_unpacked {a b : UnpackedFloat} (ha : a ≠ .notANumber) (hb : b ≠ .notANumber) :
    a.compare b = some (compare (ofUnpacked a) (ofUnpacked b)) := by
  rcases a with (_ | _) | _ | _ | ⟨_ | _, m, e, _⟩ <;>
    rcases b with (_ | _) | _ | _ | ⟨_ | _, n, f, _⟩ <;>
    try (first | contradiction | rfl)
  case finite.negative.finite.negative =>
    rw [ofUnpacked, ofUnpacked, compare_mk, compare_neg e, compare_neg m, compare_natCast,
      ← Ordering.swap_then]
    rfl
  case finite.positive.finite.positive =>
    rw [ofUnpacked, ofUnpacked, compare_mk, compare_natCast]
    rfl

def ofReal (x : Float) : Place :=
  ofUnpacked x.toModel.unpack

variable {x y : Float}

theorem isNaN_eq_false_iff : x.isNaN = false ↔ x.toModel.unpack ≠ .notANumber := by
  rw [← Bool.not_eq_true]
  exact not_congr UnpackedFloat.isNaN_iff

theorem lt_iff_ofReal_lt (hx : x.isNaN = false) (hy : y.isNaN = false) : x < y ↔ ofReal x < ofReal y :=
  calc
    x < y ↔ (x.toModel.unpack.compare y.toModel.unpack == some .lt) = true := decide_eq_true_iff
    _ ↔ ofReal x < ofReal y := by
      rw [compare_unpacked (isNaN_eq_false_iff.1 hx) (isNaN_eq_false_iff.1 hy), beq_iff_eq,
        Option.some_inj, compare_lt_iff_lt]
      rfl

theorem beq_iff_ofReal_eq (hx : x.isNaN = false) (hy : y.isNaN = false) :
    (x == y) = true ↔ ofReal x = ofReal y := by
  show (x.toModel.unpack.compare y.toModel.unpack == some .eq) = true ↔ _
  rw [compare_unpacked (isNaN_eq_false_iff.1 hx) (isNaN_eq_false_iff.1 hy), beq_iff_eq,
    Option.some_inj, compare_eq_iff_eq]
  rfl

theorem compareReals_eq (hx : x.isNaN = false) (hy : y.isNaN = false) :
    Value.compareReals x y = cmp (ofReal x) (ofReal y) := by
  simp only [Value.compareReals, lt_iff_ofReal_lt hx hy, lt_iff_ofReal_lt hy hx]
  rfl

end Place

end LispScript
