import Mathlib.Algebra.Group.Int.Defs
import Mathlib.Algebra.Group.Nat.Defs
import LispScript.Proofs.StringOp

/-!
This module contains what the arithmetic operators give. Integers have 64 bits, and a result that does not
fit is reduced to one that does; quotients are truncated toward zero. The quotient and the remainder give back
the dividend, also where the quotient itself does not fit. With a real, everything is a real, but there are no
remainders of reals.
-/

namespace LispScript

/--
The integer is what is left of the exact result in 64 bits: of all integers that differ from it by a multiple
of 2 ^ 64 the one in the range.
-/
structure Reduced (exact : Int) (n : Int64) : Prop where
  lower : -2 ^ 63 ≤ n.toInt
  upper : n.toInt < 2 ^ 63
  congruent : (2 ^ 64 : Int) ∣ exact - n.toInt

theorem reduced_of_bmod {exact : Int} {n : Int64} (h : n.toInt = exact.bmod (2 ^ 64)) : Reduced exact n where
  lower := n.le_toInt
  upper := n.toInt_lt
  congruent := by
    rw [h]
    exact Int.dvd_self_sub_bmod

theorem Int64.toInt_ne_zero {r : Int64} (hr : r ≠ 0) : r.toInt ≠ 0 := by
  intro h
  exact hr (Int64.toInt_inj.1 h)

/--
The part that the quotient has lost in the reduction is a multiple of 2 ^ 64, and so is its product with the
divisor.
-/
theorem Int64.div_mul_add_mod (l r : Int64) : l / r * r + l % r = l := by
  apply Int64.toInt_inj.1
  calc (l / r * r + l % r).toInt
      = ((l.toInt.tdiv r.toInt).bmod (2 ^ 64) * r.toInt + l.toInt.tmod r.toInt).bmod (2 ^ 64) := by
        rw [Int64.toInt_add, Int64.toInt_mul, Int64.toInt_div, Int64.toInt_mod, Int.bmod_add_bmod]
    _ = (l.toInt.tdiv r.toInt * r.toInt + l.toInt.tmod r.toInt).bmod (2 ^ 64) := by
        rw [← Int.bmod_add_bmod, Int.bmod_mul_bmod, Int.bmod_add_bmod]
    _ = l.toInt.bmod (2 ^ 64) := by rw [Int.tdiv_mul_add_tmod]
    _ = l.toInt := l.toInt_bmod

theorem Int64.natAbs_mod_lt (l : Int64) {r : Int64} (hr : r ≠ 0) :
    (l % r).toInt.natAbs < r.toInt.natAbs := by
  rw [Int64.toInt_mod, Int.natAbs_tmod]
  apply Nat.mod_lt
  exact Int.natAbs_pos.2 (Int64.toInt_ne_zero hr)

theorem Int64.sign_mod (l r : Int64) : l % r = 0 ∨ (l % r).toInt.sign = l.toInt.sign := by
  have hsign : (l % r).toInt.sign = if r.toInt ∣ l.toInt then 0 else l.toInt.sign := by
    rw [Int64.toInt_mod, Int.sign_tmod]
  split at hsign
  . exact .inl (Int64.toInt_inj.1 (Int.sign_eq_zero_iff_zero.1 hsign))
  . exact .inr hsign

/-! Expressions. -/

namespace Machine

/--
In every context and in every frame, the expression evaluates to the value and leaves the machine as it is.
Its parts nest `depth` deep.
-/
def Yields (m : Machine) (depth : Nat) (e : Expr Value) (v : Value) : Prop :=
  ∀ context fuel frame, eval context (fuel + depth) frame e m = .ok v m

/--
In every context and in every frame, the expression fails with a fault of the sort.
-/
def Fails (m : Machine) (depth : Nat) (e : Expr Value) (sort : FaultSort) : Prop :=
  ∀ context fuel frame, ∃ f : Failure,
    f.fault.sort = sort ∧ eval context (fuel + depth) frame e m = .error (.failure f) m

variable {m : Machine} {depth : Nat} {e left right : Expr Value} {a b v : Value} {op : ArithOp}

theorem Yields.not_fails (h : m.Yields depth e v) (sort : FaultSort) : ¬ m.Fails depth e sort := by
  intro hfails
  obtain ⟨f, _, hf⟩ := hfails none 0 0
  have hsame := (h none 0 0).symm.trans hf
  contradiction

theorem Yields.unique {v' : Value} (h : m.Yields depth e v) (h' : m.Yields depth e v') : v = v' := by
  have hsame := (h none 0 0).symm.trans (h' none 0 0)
  injection hsame

theorem yields_value (v : Value) : m.Yields 1 (StringOp.valueExpr v) v.orNull :=
  fun _ _ _ => rfl

theorem Yields.succ (h : m.Yields depth e v) : m.Yields (depth + 1) e v := by
  intro context fuel frame
  have h' := h context (fuel + 1) frame
  rwa [Nat.add_right_comm] at h'

/--
The operands are evaluated one after the other, and then the operator is applied to their values.
-/
theorem eval_arith (hl : m.Yields depth left a) (hr : m.Yields depth right b) (context : Option Context)
    (fuel frame : Nat) (location : Option Location) :
    eval context (fuel + (depth + 1)) frame (.node location (.arith op left right)) m
      = Run.located context location (Run.ofPrimitive (Primitive.arith op a b)) m := by
  have hparts : Run.perform (eval context (fuel + depth)) (fuel + depth) frame location
      (.arith op left right) m = Run.ofPrimitive (Primitive.arith op a b) m := by
    rw [Run.perform, Run.bind_ok (hl context fuel frame), Run.bind_ok (hr context fuel frame)]
  show Run.located context location (Run.perform (eval context (fuel + depth)) (fuel + depth) frame location
    (.arith op left right)) m = _
  unfold Run.located
  rw [hparts]

theorem Yields.arith (hl : m.Yields depth left a) (hr : m.Yields depth right b)
    (h : Primitive.arith op a b = .ok v) (location : Option Location) :
    m.Yields (depth + 1) (.node location (.arith op left right)) v := by
  intro context fuel frame
  rw [eval_arith hl hr, h]
  rfl

theorem Fails.arith (hl : m.Yields depth left a) (hr : m.Yields depth right b) {fault : Fault}
    (h : Primitive.arith op a b = .error fault) (location : Option Location) :
    m.Fails (depth + 1) (.node location (.arith op left right)) fault.sort := by
  intro context fuel frame
  refine ⟨Failure.locate context location { fault }, ?_, ?_⟩
  . rw [Failure.Alike.fault_locate]
  . rw [eval_arith hl hr, h]
    rfl

end Machine

/-! Operators. -/

namespace ArithOp

/--
The operator between two values.
-/
def expr (op : ArithOp) (a b : Value) : Expr Value :=
  .node none (.arith op (StringOp.valueExpr a) (StringOp.valueExpr b))

/--
The operators that reals can stand between.
-/
def real : List ArithOp := [add, sub, mul, div]

theorem mem_all_of_real {op : ArithOp} (h : op ∈ real) : op ∈ all := by
  simp only [real, List.mem_cons, List.not_mem_nil, or_false] at h
  rcases h with rfl | rfl | rfl | rfl <;> decide

end ArithOp

namespace Value

def IsReal (v : Value) : Prop :=
  v.kind = .real

/--
Nothing can be divided by the number.
-/
def CountsAsZero (v : Value) : Prop :=
  ∃ x, v.real? = some x ∧ x.abs < Primitive.tiny

theorem countsAsZero_zero : (Value.integer 0).CountsAsZero :=
  ⟨_, rfl, by decide +kernel⟩

variable {a b v : Value}

theorem isReal_orNull : a.orNull.IsReal = a.IsReal := by
  cases a <;> rfl

theorem isNumber_cases (h : a.isNumber) : (∃ n, a = .integer n) ∨ ∃ x, a = .real x := by
  cases a with
  | integer n => exact .inl ⟨n, rfl⟩
  | real x => exact .inr ⟨x, rfl⟩
  | _ => contradiction

theorem orNull_of_isNumber (h : a.isNumber) : a.orNull = a := by
  obtain ⟨n, rfl⟩ | ⟨x, rfl⟩ := isNumber_cases h <;> rfl

theorem real?_of_isNumber (h : a.isNumber) : ∃ x, a.real? = some x := by
  obtain ⟨n, rfl⟩ | ⟨x, rfl⟩ := isNumber_cases h
  . exact ⟨_, rfl⟩
  . exact ⟨x, rfl⟩

end Value

open Value (IsReal)

namespace Primitive

variable {a b v : Value} {op : ArithOp}

theorem arith_real (h : a.IsReal ∨ b.IsReal) {x y : Float} (ha : a.real? = some x)
    (hb : b.real? = some y) : arith op a b = realArith op x y := by
  unfold arith
  split
  . simp [IsReal, Value.kind] at h
  . rw [ha, hb]

/--
A remainder is refused as soon as an operand is a real, even if the other one is no number.
-/
theorem arith_mod_real (h : a.IsReal ∨ b.IsReal) :
    ∃ fault, arith .mod a b = .error fault ∧ fault.sort = .operandType := by
  unfold arith
  split
  . simp [IsReal, Value.kind] at h
  . split
    all_goals exact ⟨_, rfl, rfl⟩

theorem realArith_cases (hop : op ∈ ArithOp.real) (x y : Float) :
    (∃ z, realArith op x y = .ok (.real z)) ∨
      op = .div ∧ y.abs < tiny ∧ realArith op x y = .error (.realQuotientByZero x y) := by
  simp only [ArithOp.real, List.mem_cons, List.not_mem_nil, or_false] at hop
  rcases hop with rfl | rfl | rfl | rfl
  . exact .inl ⟨_, rfl⟩
  . exact .inl ⟨_, rfl⟩
  . exact .inl ⟨_, rfl⟩
  . by_cases hy : y.abs < tiny
    . exact .inr ⟨rfl, hy, by rw [realArith, if_pos hy]⟩
    . exact .inl ⟨_, by rw [realArith, if_neg hy]⟩

theorem integerArith_cases (hop : op ∈ ArithOp.all) (l r : Int64) :
    (∃ n, integerArith op l r = .ok (.integer n)) ∨
      r = 0 ∧ (op = .div ∧ integerArith op l r = .error (.quotientByZero l) ∨
        op = .mod ∧ integerArith op l r = .error (.remainderByZero l)) := by
  simp only [ArithOp.all, List.mem_cons, List.not_mem_nil, or_false] at hop
  rcases hop with rfl | rfl | rfl | rfl | rfl
  . exact .inl ⟨_, rfl⟩
  . exact .inl ⟨_, rfl⟩
  . exact .inl ⟨_, rfl⟩
  . by_cases hr : r = 0
    . exact .inr ⟨hr, .inl ⟨rfl, by rw [integerArith, if_pos hr]⟩⟩
    . exact .inl ⟨_, by rw [integerArith, if_neg hr]⟩
  . by_cases hr : r = 0
    . exact .inr ⟨hr, .inr ⟨rfl, by rw [integerArith, if_pos hr]⟩⟩
    . exact .inl ⟨_, by rw [integerArith, if_neg hr]⟩

end Primitive

namespace Machine

variable {m : Machine} {a b v : Value} {op : ArithOp}

theorem yields_expr (h : Primitive.arith op a.orNull b.orNull = .ok v) : m.Yields 2 (op.expr a b) v :=
  (yields_value a).arith (yields_value b) h none

theorem fails_expr {fault : Fault} (h : Primitive.arith op a.orNull b.orNull = .error fault) :
    m.Fails 2 (op.expr a b) fault.sort :=
  Fails.arith (yields_value a) (yields_value b) h none

/--
The operator gives what is left of the exact result.
-/
def Reduces (m : Machine) (op : ArithOp) (exact : Int → Int → Int) : Prop :=
  ∀ l r : Int64, ∃ n : Int64, m.Yields 2 (op.expr (.integer l) (.integer r)) (.integer n) ∧
    Reduced (exact l.toInt r.toInt) n

/--
A quotient and a remainder of two integers.
-/
structure Divides (m : Machine) (l r q n : Int64) : Prop where
  quotient : m.Yields 2 (ArithOp.div.expr (.integer l) (.integer r)) (.integer q)
  remainder : m.Yields 2 (ArithOp.mod.expr (.integer l) (.integer r)) (.integer n)
  truncated : Reduced (l.toInt.tdiv r.toInt) q
  less : n.toInt.natAbs < r.toInt.natAbs
  sign : n = 0 ∨ n.toInt.sign = l.toInt.sign
  dividend : m.Yields 3 (.node none (.arith .add (ArithOp.mul.expr (.integer q) (.integer r))
    (StringOp.valueExpr (.integer n)))) (.integer l)

/--
How numbers are calculated with in a machine.
-/
structure Calculating (m : Machine) : Prop where
  sum : m.Reduces .add (· + ·)
  difference : m.Reduces .sub (· - ·)
  product : m.Reduces .mul (· * ·)
  byZero : ∀ l r : Int64, ∀ op ∈ [ArithOp.div, .mod],
    m.Fails 2 (op.expr (.integer l) (.integer r)) .divisionByZero ↔ r = 0
  division : ∀ l r : Int64, r ≠ 0 → ∃ q n, m.Divides l r q n
  remainder : ∀ {a b : Value}, a.IsReal ∨ b.IsReal → m.Fails 2 (ArithOp.mod.expr a b) .operandType
  kind : ∀ {a b : Value}, a.isNumber → b.isNumber → ∀ op ∈ ArithOp.real,
    (∃ v, m.Yields 2 (op.expr a b) v ∧ (v.IsReal ↔ a.IsReal ∨ b.IsReal)) ∨
      op = .div ∧ b.CountsAsZero ∧ m.Fails 2 (op.expr a b) .divisionByZero

theorem reduces_of_toInt {exact : Int → Int → Int} {f : Int64 → Int64 → Int64}
    (hop : ∀ l r, Primitive.integerArith op l r = .ok (.integer (f l r)))
    (hf : ∀ l r, (f l r).toInt = (exact l.toInt r.toInt).bmod (2 ^ 64)) : m.Reduces op exact := by
  intro l r
  exact ⟨f l r, yields_expr (hop l r), reduced_of_bmod (hf l r)⟩

theorem divides (m : Machine) (l : Int64) {r : Int64} (hr : r ≠ 0) : m.Divides l r (l / r) (l % r) where
  quotient := yields_expr (if_neg hr)
  remainder := yields_expr (if_neg hr)
  truncated := reduced_of_bmod (Int64.toInt_div l r)
  less := Int64.natAbs_mod_lt l hr
  sign := Int64.sign_mod l r
  dividend := by
    have hproduct : m.Yields 2 (ArithOp.mul.expr (.integer (l / r)) (.integer r)) (.integer (l / r * r)) :=
      yields_expr rfl
    have hremainder : m.Yields 2 (StringOp.valueExpr (.integer (l % r))) (.integer (l % r)) :=
      (yields_value _).succ
    apply hproduct.arith hremainder
    show Except.ok (Value.integer (l / r * r + l % r)) = _
    rw [Int64.div_mul_add_mod]

theorem fails_byZero_iff {l r : Int64} (hop : op ∈ [ArithOp.div, .mod]) :
    m.Fails 2 (op.expr (.integer l) (.integer r)) .divisionByZero ↔ r = 0 := by
  have hall : op ∈ ArithOp.all := by
    simp only [List.mem_cons, List.not_mem_nil, or_false] at hop
    rcases hop with rfl | rfl <;> decide
  constructor
  . intro hfails
    obtain ⟨n, hn⟩ | ⟨hr, _⟩ := Primitive.integerArith_cases hall l r
    . have hyields : m.Yields 2 (op.expr (.integer l) (.integer r)) (.integer n) := yields_expr hn
      exact absurd hfails (hyields.not_fails _)
    . exact hr
  . rintro rfl
    simp only [List.mem_cons, List.not_mem_nil, or_false] at hop
    rcases hop with rfl | rfl
    . have hquotient : Primitive.arith .div (Value.integer l).orNull (Value.integer 0).orNull
          = .error (.quotientByZero l) := rfl
      exact fails_expr hquotient
    . have hremainder : Primitive.arith .mod (Value.integer l).orNull (Value.integer 0).orNull
          = .error (.remainderByZero l) := rfl
      exact fails_expr hremainder

theorem kind_expr (ha : a.isNumber) (hb : b.isNumber) (hop : op ∈ ArithOp.real) :
    (∃ v, m.Yields 2 (op.expr a b) v ∧ (v.IsReal ↔ a.IsReal ∨ b.IsReal)) ∨
      op = .div ∧ b.CountsAsZero ∧ m.Fails 2 (op.expr a b) .divisionByZero := by
  by_cases hreal : a.IsReal ∨ b.IsReal
  . obtain ⟨x, hx⟩ := Value.real?_of_isNumber ha
    obtain ⟨y, hy⟩ := Value.real?_of_isNumber hb
    have harith : Primitive.arith op a.orNull b.orNull = Primitive.realArith op x y := by
      rw [Value.orNull_of_isNumber ha, Value.orNull_of_isNumber hb, Primitive.arith_real hreal hx hy]
    obtain ⟨z, hz⟩ | ⟨rfl, hzero, herror⟩ := Primitive.realArith_cases hop x y
    . exact .inl ⟨.real z, yields_expr (harith.trans hz), iff_of_true rfl hreal⟩
    . exact .inr ⟨rfl, ⟨y, hy, hzero⟩, fails_expr (harith.trans herror)⟩
  . obtain ⟨l, rfl⟩ | ⟨x, rfl⟩ := Value.isNumber_cases ha
    . obtain ⟨r, rfl⟩ | ⟨y, rfl⟩ := Value.isNumber_cases hb
      . have harith : Primitive.arith op (Value.integer l).orNull (Value.integer r).orNull
            = Primitive.integerArith op l r := rfl
        obtain ⟨n, hn⟩ | ⟨rfl, hzero⟩ := Primitive.integerArith_cases (ArithOp.mem_all_of_real hop) l r
        . exact .inl ⟨.integer n, yields_expr (harith.trans hn), iff_of_false nofun hreal⟩
        . obtain ⟨rfl, herror⟩ | ⟨rfl, _⟩ := hzero
          . exact .inr ⟨rfl, Value.countsAsZero_zero, fails_expr (harith.trans herror)⟩
          . simp [ArithOp.real] at hop
      . exact absurd (.inr rfl) hreal
    . exact absurd (.inl rfl) hreal

end Machine

/--
Whatever the numbers are, they are calculated with like this.
-/
theorem calculating (m : Machine) : m.Calculating where
  sum := Machine.reduces_of_toInt (fun _ _ => rfl) Int64.toInt_add
  difference := Machine.reduces_of_toInt (fun _ _ => rfl) Int64.toInt_sub
  product := Machine.reduces_of_toInt (fun _ _ => rfl) Int64.toInt_mul
  byZero _ _ _ hop := Machine.fails_byZero_iff hop
  division l r hr := ⟨l / r, l % r, m.divides l hr⟩
  remainder := by
    intro a b hreal
    have hreal' : a.orNull.IsReal ∨ b.orNull.IsReal := by
      rwa [Value.isReal_orNull, Value.isReal_orNull]
    obtain ⟨fault, herror, hsort⟩ := Primitive.arith_mod_real hreal'
    rw [← hsort]
    exact Machine.fails_expr herror
  kind ha hb _ hop := Machine.kind_expr ha hb hop

/--
The only quotient that does not fit is that of the least integer and minus one. It is the dividend again, and
nothing remains.
-/
theorem calculating_least :
    let m : Machine := {}
    ∃ q n : Int64, m.Divides Int64.minValue (-1) q n ∧ q = Int64.minValue ∧ n = 0 := by
  intro m
  obtain ⟨q, n, hdivides⟩ := (calculating m).division Int64.minValue (-1) (by decide)
  have hq : m.Yields 2 (ArithOp.div.expr (.integer Int64.minValue) (.integer (-1)))
      (.integer Int64.minValue) := Machine.yields_expr rfl
  have hn : m.Yields 2 (ArithOp.mod.expr (.integer Int64.minValue) (.integer (-1))) (.integer 0) :=
    Machine.yields_expr rfl
  have hsame := hdivides.quotient.unique hq
  have hnothing := hdivides.remainder.unique hn
  injection hsame with hsame
  injection hnothing with hnothing
  exact ⟨q, n, hdivides, hsame, hnothing⟩

end LispScript
