import LispScript.Eval.Primitive

/-!
This module contains the objects of a store as a whole. An object is given by its `Realm` and its
reference there. Every operation on a store either adds one object or changes one, and leaves the others
as they are; sites count as objects without contents.
-/

namespace LispScript

inductive Realm where
  | strings
  | arrays
  | recordTypes
  | records
  | closures
  | frames
  | sites
  deriving DecidableEq

namespace Store

variable {s t u : Store}

/--
The number of objects of a realm. They have the references below it.
-/
def extent (s : Store) : Realm → Nat
  | .strings => s.strings.size
  | .arrays => s.arrays.size
  | .recordTypes => s.recordTypes.size
  | .records => s.records.size
  | .closures => s.closures.size
  | .frames => s.frames.size
  | .sites => s.sites

/--
The object is the same in both stores.
-/
def SameAt (s t : Store) : Realm → Nat → Prop
  | .strings, a => t.string a = s.string a
  | .arrays, a => t.array a = s.array a
  | .recordTypes, a => t.recordType a = s.recordType a
  | .records, a => t.record a = s.record a
  | .closures, a => t.closure a = s.closure a
  | .frames, a => t.frame a = s.frame a
  | .sites, _ => True

theorem SameAt.refl (s : Store) (k : Realm) (a : Nat) : s.SameAt s k a := by
  cases k <;> simp [SameAt]

theorem SameAt.trans {k : Realm} {a : Nat} (hst : s.SameAt t k a) (htu : t.SameAt u k a) :
    s.SameAt u k a := by
  cases k with
  | sites => trivial
  | _ => exact Eq.trans htu hst

/--
The store `t` is `s` with one more object of the realm `k`.
-/
structure Adds (k : Realm) (s t : Store) : Prop where
  extent : ∀ j, t.extent j = if j = k then s.extent j + 1 else s.extent j
  same : ∀ j a, a < s.extent j → s.SameAt t j a

/--
The store `t` is `s` with changes in no more than one object.
-/
structure Changes (k : Realm) (a : Nat) (s t : Store) : Prop where
  extent : ∀ j, t.extent j = s.extent j
  same : ∀ j b, (j, b) ≠ (k, a) → s.SameAt t j b

namespace Adds

variable {k : Realm}

theorem new (h : Adds k s t) : t.extent k = s.extent k + 1 := by
  rw [h.extent, if_pos rfl]

theorem lt (h : Adds k s t) : s.extent k < t.extent k := by
  rw [h.new]
  omega

theorem grows (h : Adds k s t) (j : Realm) : s.extent j ≤ t.extent j := by
  rw [h.extent]
  split <;> omega

theorem eq_of_new (h : Adds k s t) {j : Realm} {a : Nat} (hold : s.extent j ≤ a)
    (hnew : a < t.extent j) : j = k ∧ a = s.extent k := by
  rw [h.extent] at hnew
  split at hnew
  . subst k
    exact ⟨rfl, by omega⟩
  . omega

end Adds

/-! Reading after a change of one of the arrays. -/

theorem getD_push_of_lt {α : Type} {xs : Array α} {a : Nat} (h : a < xs.size) (x d : α) :
    (xs.push x)[a]?.getD d = xs[a]?.getD d := by
  rw [Array.getElem?_push_lt h, Array.getElem?_eq_getElem h]

theorem getD_modify_of_ne {α : Type} {a b : Nat} (h : a ≠ b) (xs : Array α) (f : α → α) (d : α) :
    (xs.modify b f)[a]?.getD d = xs[a]?.getD d := by
  rw [Array.getElem?_modify, if_neg (Ne.symm h)]

theorem getD_modify_self {α : Type} {xs : Array α} {a : Nat} (h : a < xs.size) (f : α → α) (d : α) :
    (xs.modify a f)[a]?.getD d = f (xs[a]?.getD d) := by
  rw [Array.getElem?_modify, if_pos rfl, Array.getElem?_eq_getElem h]
  rfl

theorem setIfInBounds_eq_modify {α : Type} (xs : Array α) (a : Nat) (x : α) :
    xs.setIfInBounds a x = xs.modify a fun _ => x := by
  apply Array.ext
  . simp
  . intro i hi _
    have hi : i < xs.size := by simpa using hi
    rw [Array.getElem_setIfInBounds hi, Array.getElem_modify]

/-! New objects. -/

theorem addString_adds (s : Store) (b : TextBuffer) : Adds .strings s (s.addString b).2 where
  extent := by
    intro j
    cases j <;> simp [Store.extent, addString]
  same := by
    intro j a ha
    cases j with
    | strings => apply getD_push_of_lt ha
    | sites => trivial
    | _ => rfl

theorem addArray_adds (s : Store) (elements : Array Value) : Adds .arrays s (s.addArray elements).2 where
  extent := by
    intro j
    cases j <;> simp [Store.extent, addArray]
  same := by
    intro j a ha
    cases j with
    | arrays => apply getD_push_of_lt ha
    | sites => trivial
    | _ => rfl

theorem addRecordType_adds (s : Store) (t : RecordType) : Adds .recordTypes s (s.addRecordType t).2 where
  extent := by
    intro j
    cases j <;> simp [Store.extent, addRecordType]
  same := by
    intro j a ha
    cases j with
    | recordTypes => apply getD_push_of_lt ha
    | sites => trivial
    | _ => rfl

theorem addRecord_adds (s : Store) (r : Record) : Adds .records s (s.addRecord r).2 where
  extent := by
    intro j
    cases j <;> simp [Store.extent, addRecord]
  same := by
    intro j a ha
    cases j with
    | records => apply getD_push_of_lt ha
    | sites => trivial
    | _ => rfl

theorem addClosure_adds (s : Store) (c : Closure) : Adds .closures s (s.addClosure c).2 where
  extent := by
    intro j
    cases j <;> simp [Store.extent, addClosure]
  same := by
    intro j a ha
    cases j with
    | closures => apply getD_push_of_lt ha
    | sites => trivial
    | _ => rfl

theorem addFrame_adds (s : Store) (parent : Option Nat) : Adds .frames s (s.addFrame parent).2 where
  extent := by
    intro j
    cases j <;> simp [Store.extent, addFrame]
  same := by
    intro j a ha
    cases j with
    | frames => apply getD_push_of_lt ha
    | sites => trivial
    | _ => rfl

theorem addSite_adds (s : Store) : Adds .sites s s.addSite.2 where
  extent := by
    intro j
    cases j <;> simp [Store.extent, addSite]
  same := by
    intro j a ha
    cases j with
    | sites => trivial
    | _ => rfl

@[simp]
theorem string_addString (s : Store) (b : TextBuffer) :
    (s.addString b).2.string s.strings.size = b := by
  simp [string, addString]

@[simp]
theorem array_addArray (s : Store) (elements : Array Value) :
    (s.addArray elements).2.array s.arrays.size = elements := by
  simp [array, addArray]

@[simp]
theorem recordType_addRecordType (s : Store) (t : RecordType) :
    (s.addRecordType t).2.recordType s.recordTypes.size = t := by
  simp [recordType, addRecordType]

@[simp]
theorem record_addRecord (s : Store) (r : Record) :
    (s.addRecord r).2.record s.records.size = r := by
  simp [record, addRecord]

@[simp]
theorem closure_addClosure (s : Store) (c : Closure) :
    (s.addClosure c).2.closure s.closures.size = c := by
  simp [closure, addClosure]

@[simp]
theorem frame_addFrame (s : Store) (parent : Option Nat) :
    (s.addFrame parent).2.frame s.frames.size = { parent } := by
  simp [frame, addFrame]

/-! Changes of one object. -/

theorem modify_strings_changes (s : Store) (a : Nat) (f : TextBuffer → TextBuffer) :
    Changes .strings a s { s with strings := s.strings.modify a f } where
  extent := by
    intro j
    cases j <;> simp [Store.extent]
  same := by
    intro j b hb
    cases j with
    | strings => apply getD_modify_of_ne (by simpa using hb)
    | sites => trivial
    | _ => rfl

theorem modify_arrays_changes (s : Store) (a : Nat) (f : Array Value → Array Value) :
    Changes .arrays a s { s with arrays := s.arrays.modify a f } where
  extent := by
    intro j
    cases j <;> simp [Store.extent]
  same := by
    intro j b hb
    cases j with
    | arrays => apply getD_modify_of_ne (by simpa using hb)
    | sites => trivial
    | _ => rfl

theorem modify_records_changes (s : Store) (a : Nat) (f : Record → Record) :
    Changes .records a s { s with records := s.records.modify a f } where
  extent := by
    intro j
    cases j <;> simp [Store.extent]
  same := by
    intro j b hb
    cases j with
    | records => apply getD_modify_of_ne (by simpa using hb)
    | sites => trivial
    | _ => rfl

theorem modify_frames_changes (s : Store) (a : Nat) (f : Frame → Frame) :
    Changes .frames a s { s with frames := s.frames.modify a f } where
  extent := by
    intro j
    cases j <;> simp [Store.extent]
  same := by
    intro j b hb
    cases j with
    | frames => apply getD_modify_of_ne (by simpa using hb)
    | sites => trivial
    | _ => rfl

theorem set_arrays_changes (s : Store) (a : Nat) (x : Array Value) :
    Changes .arrays a s { s with arrays := s.arrays.setIfInBounds a x } := by
  rw [setIfInBounds_eq_modify]
  apply modify_arrays_changes

theorem array_set_arrays {s : Store} {a : Nat} (h : a < s.arrays.size) (x : Array Value) :
    { s with arrays := s.arrays.setIfInBounds a x : Store }.array a = x := by
  simp [array, h]

theorem set_records_changes (s : Store) (a : Nat) (x : Record) :
    Changes .records a s { s with records := s.records.setIfInBounds a x } := by
  rw [setIfInBounds_eq_modify]
  apply modify_records_changes

theorem record_set_records {s : Store} {a : Nat} (h : a < s.records.size) (x : Record) :
    { s with records := s.records.setIfInBounds a x : Store }.record a = x := by
  simp [record, h]

end Store

end LispScript
