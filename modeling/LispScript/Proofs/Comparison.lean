import LispScript.Proofs.Bisimilar
import LispScript.Proofs.Nearest
import LispScript.Proofs.StringOp

/-!
This module contains how the comparison operators fit together. Equality and order are computed by two
functions; on values that are ordered, both agree with one linear order, so that everything that can be said
about two values follows from an `Ordering`. Only for three numbers there is more than one order: integers are
compared exactly with each other, but to compare them with reals, they are rounded.
-/

namespace LispScript

namespace Value

/--
A number, and no NaN.
-/
inductive Number : Value → Prop where
  | integer (n : Int64) : Number (.integer n)
  | real {x : Float} (h : x.isNaN = false) : Number (.real x)

/--
Values of which one comes first, or which are equal.
-/
inductive Ordered : Value → Value → Prop where
  | strings (r t : Nat) : Ordered (.string r) (.string t)
  | chars (c d : Char) : Ordered (.char c) (.char d)
  | booleans (x y : Bool) : Ordered (.boolean x) (.boolean y)
  | numbers {a b : Value} (ha : a.Number) (hb : b.Number) : Ordered a b

/--
The two functions that compare values agree on how they are ordered.
-/
structure Ranked (s : Store) (a b : Value) (o : Ordering) : Prop where
  order : compare? s a b = some o
  equal : equal s a b = o.isEq

/-! Texts. -/

/--
The order of texts: by the first code point that differs, else by length.
-/
def Precedes : List Char → List Char → Prop :=
  List.Lex fun c d => c.toNat < d.toNat

theorem precedes_strictTotal : IsStrictTotalOrder (List Char) Precedes :=
  inferInstanceAs (IsStrictTotalOrder (List Char) (· < ·))

theorem precedes_append (xs : List Char) (c : Char) (ys : List Char) : Precedes xs (xs ++ c :: ys) := by
  induction xs with
  | nil => exact .nil
  | cons x xs ih => exact .cons ih

theorem compares_compareChars (xs ys : List Char) : (compareChars xs ys).Compares xs ys := by
  induction xs, ys using compareChars.induct with
  | case1 => rfl
  | case2 => exact List.Lex.nil
  | case3 => exact List.Lex.nil
  | case4 a as b bs hlt =>
    rw [compareChars, if_pos hlt]
    exact List.Lex.rel hlt
  | case5 a as b bs hge hgt =>
    rw [compareChars, if_neg hge, if_pos hgt]
    exact List.Lex.rel hgt
  | case6 a as b bs hge hle ih =>
    obtain rfl : a = b := le_antisymm (not_lt.1 hle) (not_lt.1 hge)
    rw [compareChars, if_neg hge, if_neg hle]
    cases ho : compareChars as bs with
    | lt =>
      rw [ho] at ih
      exact List.Lex.cons ih
    | eq =>
      rw [ho] at ih
      exact congrArg (a :: ·) ih
    | gt =>
      rw [ho] at ih
      exact List.Lex.cons ih

/-! Ranks. -/

section

variable {s : Store} {a b c : Value}

theorem isEq_cmp {α : Type} [LinearOrder α] (x y : α) : (cmp x y).isEq = decide (x = y) := by
  rw [Bool.eq_iff_iff, Ordering.isEq_iff_eq_eq, cmp_eq_eq_iff, decide_eq_true_iff]

theorem equal_eq_equalFlat (h : pair? a b = none) : equal s a b = equalFlat s a b := by
  rw [equal, equalMeeting_flat h]

theorem ranked_strings (r t : Nat) :
    Ranked s (.string r) (.string t) (compareChars (s.text r) (s.text t)) where
  order := rfl
  equal := by
    have htext := (compares_compareChars (s.text r) (s.text t)).eq_eq
    have harray : (s.string r).chars = (s.string t).chars ↔ s.text r = s.text t := Array.toList_inj.symm
    rw [equal_eq_equalFlat rfl, Bool.eq_iff_iff, Ordering.isEq_iff_eq_eq, htext, ← harray]
    exact beq_iff_eq

theorem ranked_chars (c d : Char) : Ranked s (.char c) (.char d) (cmp c d) where
  order := rfl
  equal := by
    rw [equal_eq_equalFlat rfl, isEq_cmp]
    rfl

theorem ranked_booleans (x y : Bool) : Ranked s (.boolean x) (.boolean y) (cmp x y) where
  order := by cases x <;> cases y <;> rfl
  equal := by cases x <;> cases y <;> rfl

/--
The place of a number among the reals. An integer is rounded.
-/
def place : Value → Place
  | .integer n => Rounding.place n.toInt
  | .real x => .ofReal x
  | _ => .mk 0 0 0

theorem ranked_integers (m n : Int64) : Ranked s (.integer m) (.integer n) (cmp m.toInt n.toInt) where
  order := by
    simp only [cmp, cmpUsing, ← Int64.lt_iff_toInt_lt]
    rfl
  equal := by
    rw [equal_eq_equalFlat rfl, isEq_cmp, Bool.eq_iff_iff, decide_eq_true_iff, Int64.toInt_inj]
    exact beq_iff_eq

theorem Number.real? (ha : a.Number) :
    ∃ x, a.real? = some x ∧ x.isNaN = false ∧ Place.ofReal x = a.place := by
  cases ha with
  | integer n =>
    obtain ⟨hnan, hplace⟩ := Rounding.unpack_nearestReal n
    exact ⟨nearestReal n, rfl, Place.isNaN_eq_false_iff.2 hnan, hplace⟩
  | @real x hx => exact ⟨x, rfl, hx, rfl⟩

/--
If one of two numbers is a real, they are compared as reals.
-/
theorem ranked_reals (ha : a.Number) (hb : b.Number) (hreal : a.kind = .real ∨ b.kind = .real) :
    Ranked s a b (cmp a.place b.place) := by
  obtain ⟨x, hax, hx, hxplace⟩ := ha.real?
  obtain ⟨y, hby, hy, hyplace⟩ := hb.real?
  have horder : compare? s a b = if x.isNaN || y.isNaN then none else some (compareReals x y) := by
    cases ha <;> cases hb <;> cases hax <;> cases hby <;> first | rfl | simp [kind] at hreal
  have hequal : equalFlat s a b = (x == y) := by
    cases ha <;> cases hb <;> cases hax <;> cases hby <;> first | rfl | simp [kind] at hreal
  have hflat : pair? a b = none := by
    cases ha <;> cases hb <;> rfl
  constructor
  . rw [horder, hx, hy, Place.compareReals_eq hx hy, hxplace, hyplace]
    rfl
  . rw [equal_eq_equalFlat hflat, hequal, isEq_cmp, Bool.eq_iff_iff, Place.beq_iff_ofReal_eq hx hy,
      decide_eq_true_iff, hxplace, hyplace]

/--
The order of two numbers.
-/
def numberOrder : Value → Value → Ordering
  | .integer m, .integer n => cmp m.toInt n.toInt
  | a, b => cmp a.place b.place

theorem ranked_numbers (ha : a.Number) (hb : b.Number) : Ranked s a b (numberOrder a b) := by
  cases ha with
  | integer m =>
    cases hb with
    | integer n => exact ranked_integers m n
    | real hy => exact ranked_reals (.integer m) (.real hy) (.inr rfl)
  | real hx => exact ranked_reals (.real hx) hb (.inl rfl)

theorem numberOrder_swap (ha : a.Number) (hb : b.Number) : numberOrder b a = (numberOrder a b).swap := by
  cases ha <;> cases hb <;> exact (cmp_swap _ _).symm

theorem Ordered.ranked (h : Ordered a b) : ∃ o : Ordering, Ranked s a b o ∧ Ranked s b a o.swap := by
  cases h with
  | strings r t =>
    have hswap : compareChars (s.text t) (s.text r) = (compareChars (s.text r) (s.text t)).swap :=
      (compares_compareChars _ _).inj (Ordering.compares_swap.2 (compares_compareChars _ _))
    refine ⟨_, ranked_strings r t, ?_⟩
    rw [← hswap]
    exact ranked_strings t r
  | chars c d =>
    refine ⟨_, ranked_chars c d, ?_⟩
    rw [cmp_swap]
    exact ranked_chars d c
  | booleans x y =>
    refine ⟨_, ranked_booleans x y, ?_⟩
    rw [cmp_swap]
    exact ranked_booleans y x
  | numbers ha hb =>
    refine ⟨_, ranked_numbers ha hb, ?_⟩
    rw [← numberOrder_swap ha hb]
    exact ranked_numbers hb ha

theorem Ordered.symm (h : Ordered a b) : Ordered b a := by
  cases h with
  | strings r t => exact .strings t r
  | chars c d => exact .chars d c
  | booleans x y => exact .booleans y x
  | numbers ha hb => exact .numbers hb ha

theorem Ordered.comparable (h : Ordered a b) : a.comparable b = true := by
  cases h with
  | numbers ha hb => cases ha <;> cases hb <;> rfl
  | _ => rfl

theorem ordered_of_compare? {o : Ordering} (h : compare? s a.orNull b.orNull = some o) : Ordered a b := by
  have hreals : ∀ {x y : Float}, (if x.isNaN || y.isNaN then none else some (compareReals x y)) = some o →
      x.isNaN = false ∧ y.isNaN = false := by
    intro x y h
    split at h
    . contradiction
    . next hnan => simpa using hnan
  cases a <;> cases b <;> try contradiction
  case string.string r t => exact .strings r t
  case char.char c d => exact .chars c d
  case boolean.boolean x y => exact .booleans x y
  case integer.integer m n => exact .numbers (.integer m) (.integer n)
  case integer.real m y => exact .numbers (.integer m) (.real (hreals h).2)
  case real.integer x n => exact .numbers (.real (hreals h).1) (.integer n)
  case real.real x y => exact .numbers (.real (hreals h).1) (.real (hreals h).2)

/-! Three numbers. -/

theorem isLE_cmp {α : Type} [LinearOrder α] (x y : α) : (cmp x y).isLE = true ↔ x ≤ y := by
  rw [← not_lt, ← cmp_eq_gt_iff]
  cases cmp x y <;> decide

theorem place_le (ha : a.Number) (hb : b.Number) (h : (numberOrder a b).isLE = true) :
    a.place ≤ b.place := by
  cases ha with
  | integer m =>
    cases hb with
    | integer n => exact Rounding.place_mono ((isLE_cmp _ _).1 h)
    | real hy => exact (isLE_cmp _ _).1 h
  | real hx => cases hb <;> exact (isLE_cmp _ _).1 h

/--
The integer in front is greater than the last one, but both are rounded to the real between them.
-/
inductive Tied : Value → Value → Value → Prop where
  | intro {m n : Int64} {x : Float} (h : n < m) (hm : (nearestReal m == x) = true)
      (hn : (nearestReal n == x) = true) : Tied (.integer m) (.real x) (.integer n)

theorem beq_nearestReal_iff {n : Int64} {x : Float} (hx : x.isNaN = false) :
    (nearestReal n == x) = true ↔ place (.integer n) = place (.real x) := by
  obtain ⟨hnan, hplace⟩ := Rounding.unpack_nearestReal n
  rw [Place.beq_iff_ofReal_eq (Place.isNaN_eq_false_iff.2 hnan) hx, hplace]
  rfl

/--
Integers up to 2 ^ 53 are doubles, so that at least one of the two is not.
-/
theorem Tied.beyond (h : Tied a b c) :
    ∃ n : Int64, (a = .integer n ∨ c = .integer n) ∧ 2 ^ 53 < n.toInt.natAbs := by
  cases h with
  | @intro m n x h hm hn =>
    by_contra hsmall
    have hmsmall : ¬ 2 ^ 53 < m.toInt.natAbs := fun h => hsmall ⟨m, .inl rfl, h⟩
    have hnsmall : ¬ 2 ^ 53 < n.toInt.natAbs := fun h => hsmall ⟨n, .inr rfl, h⟩
    have hx : x.isNaN = false := by
      rw [Float.isNaN_eq_decide_eq_nan, decide_eq_false_iff_not]
      exact (Float.beq_iff_ne_nan_and_eq.1 hm).2.1
    have hsame : place (.integer m) = place (.integer n) :=
      ((beq_nearestReal_iff hx).1 hm).trans ((beq_nearestReal_iff hx).1 hn).symm
    have heq : m.toInt = n.toInt :=
      Rounding.eq_of_place_eq (Nat.le_of_not_lt hmsmall) (Nat.le_of_not_lt hnsmall) hsame
    rw [Int64.lt_iff_toInt_lt] at h
    omega

theorem Tied.not_isLE (h : Tied a b c) : (numberOrder a c).isLE = false := by
  cases h with
  | intro h =>
    rw [← Bool.not_eq_true, numberOrder, isLE_cmp, not_le, ← Int64.lt_iff_toInt_lt]
    exact h

theorem isLE_trans (ha : a.Number) (hb : b.Number) (hc : c.Number)
    (hab : (numberOrder a b).isLE = true) (hbc : (numberOrder b c).isLE = true) :
    (numberOrder a c).isLE = true ↔ ¬ Tied a b c := by
  constructor
  . intro hac htied
    rw [htied.not_isLE] at hac
    contradiction
  . intro htied
    have hplaceab := place_le ha hb hab
    have hplacebc := place_le hb hc hbc
    have hplaceac := le_trans hplaceab hplacebc
    cases ha with
    | real hx => cases hc <;> exact (isLE_cmp _ _).2 hplaceac
    | integer m =>
      cases hc with
      | real hy => exact (isLE_cmp _ _).2 hplaceac
      | integer n =>
        rw [numberOrder, isLE_cmp]
        cases hb with
        | integer k => exact le_trans ((isLE_cmp _ _).1 hab) ((isLE_cmp _ _).1 hbc)
        | @real x hx =>
          -- If the order of the integers is the other one, there is no room between their places.
          by_contra hlt
          have hplaceca : place (.integer n) ≤ place (.integer m) := Rounding.place_mono (by omega)
          apply htied
          constructor
          . rw [Int64.lt_iff_toInt_lt]
            omega
          . exact (beq_nearestReal_iff hx).2 (le_antisymm hplaceab (le_trans hplacebc hplaceca))
          . exact (beq_nearestReal_iff hx).2 (le_antisymm (le_trans hplaceca hplaceab) hplacebc)

theorem isEq_iff_isLE (ha : a.Number) (hb : b.Number) : (numberOrder a b).isEq = true ↔
    (numberOrder a b).isLE = true ∧ (numberOrder b a).isLE = true := by
  rw [numberOrder_swap ha hb]
  cases numberOrder a b <;> decide

theorem isEq_trans (ha : a.Number) (hb : b.Number) (hc : c.Number)
    (hab : (numberOrder a b).isEq = true) (hbc : (numberOrder b c).isEq = true) :
    (numberOrder a c).isEq = true ↔ ¬ Tied a b c ∧ ¬ Tied c b a := by
  rw [isEq_iff_isLE ha hb] at hab
  rw [isEq_iff_isLE hb hc] at hbc
  rw [isEq_iff_isLE ha hc, isLE_trans ha hb hc hab.1 hbc.1, isLE_trans hc hb ha hbc.2 hab.2]

end

end Value

/-! Operators. -/

namespace CompareOp

/--
What the operator says about two values that are ordered in this way.
-/
def answer (o : Ordering) : CompareOp → Bool
  | eq => o.isEq
  | ne => o.isNe
  | lt => o.isLT
  | gt => o.isGT
  | le => o.isLE
  | ge => o.isGE
  | unknown _ => false

/--
What the operators say about two values, and about the same values the other way round, fits together.
-/
structure Coherent (here swapped : CompareOp → Bool) : Prop where
  one : ∃! op, op ∈ [lt, eq, gt] ∧ here op = true
  le_iff : here le = true ↔ here lt = true ∨ here eq = true
  ge_iff : here ge = true ↔ here gt = true ∨ here eq = true
  ne_eq : here ne = !here eq
  swapped_lt : swapped lt = here gt
  swapped_gt : swapped gt = here lt
  swapped_le : swapped le = here ge
  swapped_ge : swapped ge = here le
  swapped_eq : swapped eq = here eq

theorem answer_coherent (o : Ordering) : Coherent (answer o) (answer o.swap) := by
  have hone : ∃! op, op ∈ [lt, eq, gt] ∧ answer o op = true := by
    cases o with
    | lt => exact ⟨lt, by decide, by simp [answer]⟩
    | eq => exact ⟨eq, by decide, by simp [answer]⟩
    | gt => exact ⟨gt, by decide, by simp [answer]⟩
  constructor
  . exact hone
  all_goals cases o <;> decide

end CompareOp

open Value (Number Ordered Precedes Ranked)

/--
In every context, the operator gives `r` for the two values.
-/
def Machine.Compares (m : Machine) (op : CompareOp) (a b : Value) (r : Bool) : Prop :=
  ∀ context fuel frame location, eval context (fuel + 2) frame
    (.node location (.compare op (StringOp.valueExpr a) (StringOp.valueExpr b))) m = .ok (.boolean r) m

/--
What all six operators give.
-/
def Machine.Answers (m : Machine) (a b : Value) (f : CompareOp → Bool) : Prop :=
  ∀ op ∈ CompareOp.all, m.Compares op a b (f op)

section

variable {m : Machine} {a b c : Value} {op : CompareOp} {o : Ordering} {r : Bool}

theorem eval_compare (context : Option Context) (fuel frame : Nat) (location : Option Location) :
    eval context (fuel + 2) frame
      (.node location (.compare op (StringOp.valueExpr a) (StringOp.valueExpr b))) m
    = Run.located context location (Run.ofPrimitive (Primitive.compare m.store op a.orNull b.orNull)) m := rfl

theorem compares_of_primitive (h : Primitive.compare m.store op a.orNull b.orNull = .ok (.boolean r)) :
    m.Compares op a b r := by
  intro context fuel frame location
  rw [eval_compare, h]
  rfl

theorem Machine.Compares.unique {r' : Bool} (h : m.Compares op a b r) (h' : m.Compares op a b r') :
    r = r' := by
  have heval := (h none 0 0 none).symm.trans (h' none 0 0 none)
  injection heval with hvalue
  injection hvalue

theorem Value.Ordered.orNull (h : Ordered a b) : a.orNull = a ∧ b.orNull = b := by
  cases h with
  | numbers ha hb => cases ha <;> cases hb <;> exact ⟨rfl, rfl⟩
  | _ => exact ⟨rfl, rfl⟩

theorem answers_of_ranked (hab : Ordered a b) (h : Ranked m.store a b o) :
    m.Answers a b (CompareOp.answer o) := by
  intro op hop
  apply compares_of_primitive
  rw [hab.orNull.1, hab.orNull.2]
  cases op with
  | eq =>
    simp only [Primitive.compare, hab.comparable, h.equal]
    rfl
  | ne =>
    simp only [Primitive.compare, hab.comparable, h.equal]
    cases o <;> rfl
  | unknown spelling => simp [CompareOp.all] at hop
  | _ =>
    simp only [Primitive.compare, hab.comparable, h.order]
    rfl

theorem comparable_orNull : a.orNull.comparable b.orNull = a.comparable b := by
  cases a <;> cases b <;> rfl

/--
Values that are not ordered are neither less nor greater.
-/
theorem compares_unordered (hcomparable : a.comparable b = true) (hordered : ¬ Ordered a b)
    (hop : op ∈ [CompareOp.lt, .le, .gt, .ge]) : m.Compares op a b false := by
  have horder : Value.compare? m.store a.orNull b.orNull = none := by
    cases horder : Value.compare? m.store a.orNull b.orNull with
    | none => rfl
    | some o => exact absurd (Value.ordered_of_compare? horder) hordered
  apply compares_of_primitive
  simp only [List.mem_cons, List.not_mem_nil, or_false] at hop
  rcases hop with rfl | rfl | rfl | rfl <;>
    simp only [Primitive.compare, comparable_orNull, hcomparable, horder] <;> rfl

end

/--
In every context, the operator fails on the two values.
-/
def Machine.Refuses (m : Machine) (op : CompareOp) (a b : Value) (sort : FaultSort) : Prop :=
  ∀ context fuel frame location, ∃ fault : Fault, fault.sort = sort ∧ eval context (fuel + 2) frame
    (.node location (.compare op (StringOp.valueExpr a) (StringOp.valueExpr b))) m
      = Run.located context location (Run.fail fault) m

/--
How values are compared in a machine.
-/
structure Machine.Comparing (m : Machine) : Prop where
  ordered : ∀ {a b}, Ordered a b → ∃ here swapped,
    m.Answers a b here ∧ m.Answers b a swapped ∧ CompareOp.Coherent here swapped
  strings : ∀ r t, ∃ less, m.Compares .lt (.string r) (.string t) less ∧
    (less = true ↔ Precedes (m.store.text r) (m.store.text t))
  strict : IsStrictTotalOrder (List Char) Precedes
  shorter : ∀ xs c ys, Precedes xs (xs ++ c :: ys)
  unordered : ∀ {a b : Value}, a.comparable b = true → ¬ Ordered a b →
    ∀ op ∈ [CompareOp.lt, .le, .gt, .ge], m.Compares op a b false
  incomparable : ∀ {a b : Value}, a.comparable b = false →
    ∀ op ∈ CompareOp.all, m.Refuses op a b .incompatibleTypes

/--
Whatever the operators are applied to, their answers fit together.
-/
theorem comparing (m : Machine) : m.Comparing where
  ordered := by
    intro a b hab
    obtain ⟨o, hhere, hswapped⟩ := hab.ranked (s := m.store)
    exact ⟨_, _, answers_of_ranked hab hhere, answers_of_ranked hab.symm hswapped,
      CompareOp.answer_coherent o⟩
  strings := by
    intro r t
    have hlt := (Value.compares_compareChars (m.store.text r) (m.store.text t)).eq_lt
    have hless := answers_of_ranked (.strings r t) (Value.ranked_strings (s := m.store) r t) .lt (by decide)
    refine ⟨_, hless, ?_⟩
    rw [CompareOp.answer, Ordering.isLT_iff_eq_lt, hlt]
    rfl
  strict := Value.precedes_strictTotal
  shorter := Value.precedes_append
  unordered hcomparable hordered op := compares_unordered hcomparable hordered
  incomparable := by
    intro a b hcomparable op hop context fuel frame location
    refine ⟨.incomparable a.orNull.kind b.orNull.kind, rfl, ?_⟩
    have hrefused : Primitive.compare m.store op a.orNull b.orNull
        = .error (.incomparable a.orNull.kind b.orNull.kind) := by
      unfold Primitive.compare
      rw [comparable_orNull, hcomparable]
      rfl
    rw [eval_compare, hrefused]
    rfl

/--
An integer that is no double is compared with the double next to it.
-/
theorem comparing_rounded :
    let m : Machine := {}
    let a : Value := .integer 9007199254740993
    let b : Value := .real 9007199254740992
    ∃ here swapped, m.Answers a b here ∧ m.Answers b a swapped ∧
      here .eq = true ∧ here .lt = false ∧ swapped .lt = false := by
  intro m a b
  have hordered : Ordered a b := .numbers (.integer _) (.real (by decide +kernel))
  obtain ⟨here, swapped, hhere, hswapped, hcoherent⟩ := (comparing m).ordered hordered
  have heq : m.Compares .eq a b true := by
    apply compares_of_primitive
    rfl
  have hlt : m.Compares .lt a b false := by
    apply compares_of_primitive
    rfl
  have hgt : m.Compares .gt a b false := by
    apply compares_of_primitive
    rfl
  refine ⟨here, swapped, hhere, hswapped, (hhere .eq (by decide)).unique heq, ?_, ?_⟩
  . exact (hhere .lt (by decide)).unique hlt
  . rw [hcoherent.swapped_lt]
    exact (hhere .gt (by decide)).unique hgt

theorem Machine.Compares.iff_answer {m : Machine} {a b : Value} {op : CompareOp} (ha : a.Number)
    (hb : b.Number) (hop : op ∈ CompareOp.all) :
    m.Compares op a b true ↔ CompareOp.answer (Value.numberOrder a b) op = true := by
  have hanswer := answers_of_ranked (.numbers ha hb) (Value.ranked_numbers (s := m.store) ha hb) op hop
  constructor
  . intro h
    exact hanswer.unique h
  . intro h
    rw [h] at hanswer
    exact hanswer

/--
Comparison is transitive for numbers, except for two integers that are rounded to the real between them.
-/
theorem compares_trans (m : Machine) {a b c : Value} (ha : a.Number) (hb : b.Number) (hc : c.Number) :
    (m.Compares .le a b true → m.Compares .le b c true →
      ∃ r, m.Compares .le a c r ∧ (r = true ↔ ¬ Value.Tied a b c)) ∧
    (m.Compares .eq a b true → m.Compares .eq b c true →
      ∃ r, m.Compares .eq a c r ∧ (r = true ↔ ¬ Value.Tied a b c ∧ ¬ Value.Tied c b a)) ∧
    (Value.Tied a b c → ∃ n : Int64, (a = .integer n ∨ c = .integer n) ∧ 2 ^ 53 < n.toInt.natAbs) := by
  have hac := answers_of_ranked (.numbers ha hc) (Value.ranked_numbers (s := m.store) ha hc)
  refine ⟨?_, ?_, Value.Tied.beyond⟩
  . intro hab hbc
    have hab := (Machine.Compares.iff_answer ha hb (by decide)).1 hab
    have hbc := (Machine.Compares.iff_answer hb hc (by decide)).1 hbc
    exact ⟨_, hac .le (by decide), Value.isLE_trans ha hb hc hab hbc⟩
  . intro hab hbc
    have hab := (Machine.Compares.iff_answer ha hb (by decide)).1 hab
    have hbc := (Machine.Compares.iff_answer hb hc (by decide)).1 hbc
    exact ⟨_, hac .eq (by decide), Value.isEq_trans ha hb hc hab hbc⟩

/--
The real is equal to the integer after it, too, so that the order of the integers is kept and their
equality is not.
-/
theorem compares_trans_rounded :
    let m : Machine := {}
    let a : Value := .integer 9007199254740992
    let b : Value := .real 9007199254740992
    let c : Value := .integer 9007199254740993
    m.Compares .le a b true ∧ m.Compares .le b c true ∧ m.Compares .le a c true ∧
      m.Compares .eq a b true ∧ m.Compares .eq b c true ∧ m.Compares .eq a c false := by
  intro m a b c
  have hle : m.Compares .le a b true ∧ m.Compares .le b c true := by
    constructor <;> apply compares_of_primitive <;> rfl
  have heq : m.Compares .eq a b true ∧ m.Compares .eq b c true := by
    constructor <;> apply compares_of_primitive <;> rfl
  have htrans := compares_trans m (.integer 9007199254740992)
    (.real (x := 9007199254740992) (by decide +kernel)) (.integer 9007199254740993)
  obtain ⟨r, hrle, hr⟩ := htrans.1 hle.1 hle.2
  obtain ⟨q, hqeq, hq⟩ := htrans.2.1 heq.1 heq.2
  have hsome : r = true := by
    rw [hr]
    intro htied
    have hle : (Value.numberOrder a c).isLE = true := by
      rfl
    exact Bool.false_ne_true (htied.not_isLE.symm.trans hle)
  have hnone : q = false := by
    rw [← Bool.not_eq_true, hq]
    intro h
    exact h.2 (.intro (by decide) (by decide +kernel) (by decide +kernel))
  rw [hsome] at hrle
  rw [hnone] at hqeq
  exact ⟨hle.1, hle.2, hrle, heq.1, heq.2, hqeq⟩

/--
Between two integers that are rounded to it, there is a real that is equal to both.
-/
theorem compares_not_trans :
    let m : Machine := {}
    let a : Value := .integer 9007199254740993
    let b : Value := .real 9007199254740992
    let c : Value := .integer 9007199254740992
    a.Number ∧ b.Number ∧ c.Number ∧
      m.Compares .eq a b true ∧ m.Compares .eq b c true ∧ m.Compares .eq a c false ∧
      m.Compares .le a b true ∧ m.Compares .le b c true ∧ m.Compares .le a c false := by
  intro m a b c
  refine ⟨.integer _, .real (by decide +kernel), .integer _, ?_, ?_, ?_, ?_, ?_, ?_⟩ <;>
    apply compares_of_primitive <;> rfl

end LispScript
