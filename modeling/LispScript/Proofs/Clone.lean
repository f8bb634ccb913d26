import LispScript.Value.Clone
import LispScript.Proofs.Regime

/-!
This module contains what copying a value leaves as it was: objects are only added, the frames stay
the same, and each closure is one that was there before.
-/

namespace LispScript

namespace Value

structure Copying.Extends (c d : Copying) : Prop where
  grows : c.store.Grows d.store
  frames : d.store.frames = c.store.frames
  closures : ∀ x ∈ d.store.closures, x ∈ c.store.closures ∨ x = default

namespace Copying.Extends

theorem refl (c : Copying) : c.Extends c where
  grows := .refl c.store
  frames := rfl
  closures := fun _ hx => .inl hx

theorem trans {c d e : Copying} (hcd : c.Extends d) (hde : d.Extends e) : c.Extends e where
  grows := hcd.grows.trans hde.grows
  frames := hde.frames.trans hcd.frames
  closures := by
    intro x hx
    cases hde.closures x hx with
    | inl hx => apply hcd.closures x hx
    | inr hx => exact .inr hx

end Copying.Extends

theorem cloneAll_go_extends {clone : Value → Copying → Value × Copying}
    (hclone : ∀ v (c : Copying), c.Extends (clone v c).2) (vs copies : List Value) (c : Copying) :
    c.Extends (cloneAll.go clone vs copies c).2 := by
  induction vs generalizing copies c with
  | nil => apply Copying.Extends.refl
  | cons v vs ih =>
    simp only [cloneAll.go]
    apply (hclone v c).trans
    apply ih

theorem cloneFlat_extends (v : Value) (c : Copying) : c.Extends (cloneFlat v c).2 := by
  cases v with
  | string r =>
    constructor
    . constructor <;> simp [cloneFlat, Copying.add, Store.addString]
    . rfl
    . exact fun _ hx => .inl hx
  | recordType r =>
    constructor
    . constructor <;> simp [cloneFlat, Copying.add, Store.addRecordType]
    . rfl
    . exact fun _ hx => .inl hx
  | closure r =>
    constructor
    . constructor <;> simp [cloneFlat, Copying.add, Store.addClosure]
    . rfl
    . intro x hx
      simp only [cloneFlat, Copying.add, Store.addClosure, Array.mem_push] at hx
      cases hx with
      | inl hx => exact .inl hx
      | inr hx =>
        rw [hx]
        unfold Store.closure
        cases hr : c.store.closures[r]? with
        | none => exact .inr rfl
        | some x => exact .inl (Array.mem_of_getElem? hr)
  | _ => apply Copying.Extends.refl

theorem addArray_extends (c : Copying) (elements : Array Value) (arrays : List (Nat × Nat)) :
    c.Extends { c with store := (c.store.addArray elements).2, arrays } where
  grows := by constructor <;> simp [Store.addArray]
  frames := rfl
  closures := fun _ hx => .inl hx

theorem addRecord_extends (c : Copying) (r : Record) (records : List (Nat × Nat)) :
    c.Extends { c with store := (c.store.addRecord r).2, records } where
  grows := by constructor <;> simp [Store.addRecord]
  frames := rfl
  closures := fun _ hx => .inl hx

theorem setArray_extends (c : Copying) (i : Nat) (elements : Array Value) :
    c.Extends
      { c with store := { c.store with arrays := c.store.arrays.setIfInBounds i elements } } where
  grows := by constructor <;> simp
  frames := rfl
  closures := fun _ hx => .inl hx

theorem setRecord_extends (c : Copying) (i : Nat) (r : Record) :
    c.Extends { c with store := { c.store with records := c.store.records.setIfInBounds i r } } where
  grows := by constructor <;> simp
  frames := rfl
  closures := fun _ hx => .inl hx

theorem cloneInto_extends (fuel : Nat) (v : Value) (c : Copying) :
    c.Extends (cloneInto fuel v c).2 := by
  induction fuel generalizing v c with
  | zero => apply cloneFlat_extends
  | succ fuel ih =>
    cases v with
    | array r =>
      simp only [cloneInto]
      split
      . apply Copying.Extends.refl
      . apply (addArray_extends c #[] _).trans
        apply (cloneAll_go_extends ih _ [] _).trans
        apply setArray_extends
    | record r =>
      simp only [cloneInto]
      split
      . apply Copying.Extends.refl
      . apply (addRecord_extends c _ _).trans
        apply (cloneAll_go_extends ih _ [] _).trans
        apply setRecord_extends
    | _ => apply cloneFlat_extends

theorem clone_extends (s : Store) (v : Value) :
    Copying.Extends { store := s } { store := (clone s v).2 } := by
  have := cloneInto_extends (s.arrays.size + s.records.size + 1) v { store := s }
  exact ⟨this.grows, this.frames, this.closures⟩

end Value

end LispScript
