import LispScript.Load

/-!
This module contains the footprint of loading. Of a store, loading looks at the strings and at the number
of sites, and it changes nothing else. So it does the same in a store that has these from `s` and the rest
from `t`.
-/

namespace LispScript

namespace Store

/--
The store `t` with the strings and sites of `s`.
-/
def adopt (t s : Store) : Store :=
  { t with strings := s.strings, sites := s.sites }

end Store

namespace Expr

/--
What a step of loading does depends on the strings and sites only, and leaves the rest as it is.
-/
def Narrow {α : Type} (x : StateM Store α) : Prop :=
  ∀ t s : Store, x (t.adopt s) = ((x s).1, t.adopt (x s).2)

namespace Narrow

variable {α β : Type}

theorem pure (a : α) : Narrow (Pure.pure a : StateM Store α) :=
  fun _ _ => rfl

theorem bind {x : StateM Store α} {f : α → StateM Store β} (hx : Narrow x)
    (hf : ∀ a, Narrow (f a)) : Narrow (x >>= f) := by
  intro t s
  show f (x (t.adopt s)).1 (x (t.adopt s)).2 = _
  rw [hx t s]
  exact hf (x s).1 t (x s).2

theorem literal (l : Literal) : Narrow (modifyGet l.toValue) := by
  intro t s
  cases l <;> rfl

theorem site : Narrow (modifyGet Store.addSite) :=
  fun _ _ => rfl

end Narrow

mutual

theorem load_narrow : (e : Expr Literal) → Narrow e.load
  | .absent => .pure _
  | .node _ form => .bind (form_narrow form) fun _ => .pure _

theorem form_narrow : (form : Form Literal) → Narrow form.load
  | .literal l => .bind (.literal l) fun _ => .pure _
  | .symbol _ | .isBound _ | .breakLoop | .read | .recordType _ _ => .pure _
  | .define _ e | .assign _ e | .clone e | .negate e | .function _ e | .isType e _ | .print e _
  | .isTypeNamed e _ | .makeRecord e | .getMember e _ | .stringLength e | .arrayLength e =>
    .bind (load_narrow e) fun _ => .pure _
  | .arith _ a b | .compare _ a b | .logic _ a b | .isRecordOf a b | .setMember a _ b | .charAt a b
  | .concat a b | .makeArray a b | .arrayGet a b | .arrayAdd a b =>
    .bind (load_narrow a) fun _ => .bind (load_narrow b) fun _ => .pure _
  | .branch a b c | .setCharAt a b c | .substring a b c | .find a b c | .arraySet a b c =>
    .bind (load_narrow a) fun _ => .bind (load_narrow b) fun _ =>
      .bind (load_narrow c) fun _ => .pure _
  | .loop a b c d =>
    .bind (load_narrow a) fun _ => .bind (load_narrow b) fun _ =>
      .bind (load_narrow c) fun _ => .bind (load_narrow d) fun _ => .pure _
  | .lambda _ _ e => .bind .site fun _ => .bind (load_narrow e) fun _ => .pure _
  | .sequence es | .block es | .call _ es | .arrayOf es =>
    .bind (loadAll_narrow es) fun _ => .pure _
  | .apply e es => .bind (load_narrow e) fun _ => .bind (loadAll_narrow es) fun _ => .pure _
  | .cond cases => .bind (loadCases_narrow cases) fun _ => .pure _

theorem loadAll_narrow : (es : List (Expr Literal)) → Narrow (loadAll es)
  | [] => .pure _
  | e :: es => .bind (load_narrow e) fun _ => .bind (loadAll_narrow es) fun _ => .pure _

theorem loadCases_narrow : (cases : List (Expr Literal × Expr Literal)) → Narrow (loadCases cases)
  | [] => .pure _
  | (predicate, result) :: rest =>
    .bind (load_narrow predicate) fun _ => .bind (load_narrow result) fun _ =>
      .bind (loadCases_narrow rest) fun _ => .pure _

end

theorem loadAll_adopt (es : List (Expr Literal)) (t s : Store) :
    loadAll es (t.adopt s) = ((loadAll es s).1, t.adopt (loadAll es s).2) :=
  loadAll_narrow es t s

theorem loadAll_store (es : List (Expr Literal)) (s : Store) :
    (loadAll es s).2 = s.adopt (loadAll es s).2 :=
  congrArg Prod.snd (loadAll_adopt es s s)

end Expr

end LispScript
