import LispScript.Expr

/-!
This module contains the parts of forms, and the notion of a property that holds of every node of a
tree.
-/

namespace LispScript

variable {α : Type}

def Form.parts : Form α → List (Expr α)
  | .literal _ | .symbol _ | .isBound _ | .breakLoop | .read | .recordType _ _ => []
  | .define _ e | .assign _ e | .clone e | .negate e | .lambda _ _ e | .function _ e => [e]
  | .isType e _ | .print e _ | .isTypeNamed e _ | .makeRecord e | .getMember e _ => [e]
  | .stringLength e | .arrayLength e => [e]
  | .arith _ a b | .compare _ a b | .logic _ a b | .isRecordOf a b | .setMember a _ b => [a, b]
  | .charAt a b | .concat a b | .makeArray a b | .arrayGet a b | .arrayAdd a b => [a, b]
  | .branch a b c | .setCharAt a b c | .substring a b c | .find a b c | .arraySet a b c => [a, b, c]
  | .loop a b c d => [a, b, c, d]
  | .sequence es | .block es | .call _ es | .arrayOf es => es
  | .apply e es => e :: es
  | .cond cases => cases.flatMap fun (predicate, result) => [predicate, result]

theorem Form.sizeOf_lt_of_mem_parts {form : Form α} {e : Expr α} (h : e ∈ form.parts) :
    sizeOf e < sizeOf form := by
  cases form with
  | sequence es | block es | call _ es | arrayOf es =>
    have : sizeOf e < sizeOf es := List.sizeOf_lt_of_mem h
    simp
    omega
  | apply callee args =>
    cases List.mem_cons.1 h with
    | inl h =>
      rw [h]
      simp
      omega
    | inr h =>
      have := List.sizeOf_lt_of_mem h
      simp
      omega
  | cond cases =>
    obtain ⟨⟨predicate, result⟩, hc, he⟩ := List.mem_flatMap.1 h
    have := List.sizeOf_lt_of_mem hc
    simp at he this ⊢
    rcases he with rfl | rfl <;> omega
  | literal _ | symbol _ | isBound _ | breakLoop | read | recordType _ _ => contradiction
  | _ =>
    simp only [parts, List.mem_cons, List.not_mem_nil, or_false] at h
    simp
    rcases h with rfl | rfl | rfl | rfl <;> omega

namespace Expr

inductive Every (p : Option Location → Form α → Prop) : Expr α → Prop where
  | absent : Every p .absent
  | node {location : Option Location} {form : Form α} (here : p location form)
      (parts : ∀ e ∈ form.parts, Every p e) : Every p (.node location form)

namespace Every

variable {p q : Option Location → Form α → Prop}

theorem here {location : Option Location} {form : Form α} (h : Every p (.node location form)) :
    p location form := by
  cases h
  assumption

theorem parts {location : Option Location} {form : Form α} (h : Every p (.node location form)) :
    ∀ e ∈ form.parts, Every p e := by
  cases h
  assumption

theorem node_iff {location : Option Location} {form : Form α} :
    Every p (.node location form) ↔ p location form ∧ ∀ e ∈ form.parts, Every p e :=
  ⟨fun h => ⟨h.here, h.parts⟩, fun h => .node h.1 h.2⟩

theorem mono {e : Expr α} (h : Every p e) (hpq : ∀ location form, p location form → q location form) :
    Every q e := by
  induction h with
  | absent => apply Every.absent
  | node here _ ih =>
    apply Every.node
    . apply hpq
      assumption
    . assumption

theorem of_forall (h : ∀ location form, p location form) (e : Expr α) : Every p e := by
  cases e with
  | absent => apply Every.absent
  | node location form =>
    apply Every.node (h location form)
    intro e' he'
    have := Form.sizeOf_lt_of_mem_parts he'
    apply of_forall h e'
termination_by sizeOf e
decreasing_by
  simp
  omega

end Every

def Located (e : Expr α) : Prop :=
  e.Every fun location _ => location.isSome

end Expr

end LispScript
