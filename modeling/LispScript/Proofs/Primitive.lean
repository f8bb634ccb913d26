import LispScript.Proofs.Regime

/-!
This module contains what the primitive operations yield, and that each fault they raise is of a sort
that evaluations may raise.
-/

namespace LispScript

namespace Primitive

def Sane {α : Type} (Q : α → Prop) : Except Fault α → Prop
  | .ok a => Q a
  | .error f => f.sort.isRaised

theorem Sane.bind {α β : Type} {Q : α → Prop} {R : β → Prop} {x : Except Fault α}
    {f : α → Except Fault β} (hx : Sane Q x) (hf : ∀ a, Q a → Sane R (f a)) :
    Sane R (x >>= f) := by
  cases x with
  | ok a => apply hf a hx
  | error fault => apply hx

theorem Sane.mono {α : Type} {Q R : α → Prop} {x : Except Fault α} (hx : Sane Q x)
    (hQR : ∀ a, Q a → R a) : Sane R x := by
  cases x with
  | ok a => apply hQR a hx
  | error fault => apply hx

theorem index_sane (role : String) (i : Int64) (size : Nat) :
    Sane (· < size) (index role i size) := by
  unfold index
  split
  . simp only [Sane]
    omega
  . rfl

theorem substring_sane (chars : Array Char) (start length : Int64) :
    Sane (fun _ => True) (substring chars start length) := by
  unfold substring
  apply (index_sane _ _ _).bind
  intro i _
  split
  . trivial
  . rfl

theorem find_sane (chars needle : List Char) (start : Int64) :
    Sane (fun _ => True) (find chars needle start) := by
  unfold find
  apply (index_sane _ _ _).bind
  intro i _
  split <;> trivial

theorem arraySize_sane (n : Int64) : Sane (fun _ => True) (arraySize n) := by
  unfold arraySize
  split
  . trivial
  . rfl

theorem recordType_sane (name : String) (members : List String) :
    Sane (fun _ => True) (recordType name members) := by
  unfold recordType
  split
  . rfl
  . trivial

theorem integerArith_sane (op : ArithOp) (l r : Int64) :
    Sane (fun v => ∀ t, v.Within t) (integerArith op l r) := by
  cases op with
  | add => exact fun _ => trivial
  | sub => exact fun _ => trivial
  | mul => exact fun _ => trivial
  | div =>
    simp only [integerArith]
    split
    . rfl
    . exact fun _ => trivial
  | mod =>
    simp only [integerArith]
    split
    . rfl
    . exact fun _ => trivial
  | unknown spelling => rfl

theorem realArith_sane (op : ArithOp) (x y : Float) :
    Sane (fun v => ∀ t, v.Within t) (realArith op x y) := by
  cases op with
  | add => exact fun _ => trivial
  | sub => exact fun _ => trivial
  | mul => exact fun _ => trivial
  | div =>
    simp only [realArith]
    split
    . rfl
    . exact fun _ => trivial
  | mod => rfl
  | unknown spelling => rfl

theorem arith_sane (op : ArithOp) (left right : Value) :
    Sane (fun v => ∀ t, v.Within t) (arith op left right) := by
  unfold arith
  split
  . apply integerArith_sane
  . split
    . apply realArith_sane
    . rfl
    . rfl

theorem holds_sane (op : CompareOp) (order : Ordering) : Sane (fun _ => True) (holds op order) := by
  cases op with
  | unknown spelling => rfl
  | _ => trivial

theorem compare_sane (s : Store) (op : CompareOp) (left right : Value) :
    Sane (fun v => ∀ t, v.Within t) (compare s op left right) := by
  unfold compare
  split
  . rfl
  . split
    . exact fun _ => trivial
    . exact fun _ => trivial
    . split
      . next order _ =>
        have := holds_sane op order
        cases hholds : holds op order with
        | ok b => exact fun _ => trivial
        | error f =>
          rw [hholds] at this
          apply this
      . exact fun _ => trivial

theorem logic_sane (op : LogicOp) (left right : Value) :
    Sane (fun v => ∀ t, v.Within t) (logic op left right) := by
  unfold logic
  split
  . split
    . exact fun _ => trivial
    . exact fun _ => trivial
    . rfl
  . rfl
  . rfl

theorem getField_sane (s : Store) (ref : Nat) (member : String) :
    Sane (fun v => (s.record ref).fields.lookup member = some v) (getField s ref member) := by
  unfold getField
  split
  . assumption
  . rfl

end Primitive

end LispScript
