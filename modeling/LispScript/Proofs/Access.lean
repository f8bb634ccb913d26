import LispScript.Proofs.Sound
import Mathlib.Data.List.Forall2

/-!
This module contains the ways that lead into a value. An array is entered at an index and a record at a
member; a path is a list of such steps. The parts of an object are also told apart by their slots, which
are their positions in the order that the object lists them in.
-/

namespace LispScript

/--
One step from an object to a value inside of it.
-/
inductive Access where
  | index (i : Nat)
  | member (name : String)
  deriving DecidableEq, Repr

namespace Value

variable {s t : Store} {R : Value → Value → Prop} {v x y : Value} {a b : Access}

/--
Arrays and records, the values that have others inside of them.
-/
def IsObject : Value → Prop
  | array _ | record _ => True
  | _ => False

instance : DecidablePred IsObject
  | array _ | record _ => isTrue trivial
  | absent | null | integer _ | real _ | char _ | boolean _ | string _ | recordType _ | closure _ =>
    isFalse id

/--
The values inside of an object, in order.
-/
def contents (s : Store) : Value → List Value
  | array r => (s.array r).toList
  | record r => (s.record r).fields.map Prod.snd
  | _ => []

def part? (s : Store) : Value → Access → Option Value
  | array r, .index i => (s.array r)[i]?
  | record r, .member name => (s.record r).fields.lookup name
  | _, _ => none

def follow (s : Store) : Value → List Access → Option Value
  | v, [] => some v
  | v, a :: path => (part? s v a).bind fun x => follow s x path

/--
Some path leads from `v` to `x`.
-/
def Contains (s : Store) (v x : Value) : Prop :=
  ∃ path, follow s v path = some x

theorem Contains.refl (s : Store) (v : Value) : Contains s v v :=
  ⟨[], rfl⟩

theorem follow_append (s : Store) (v : Value) (p q : List Access) :
    follow s v (p ++ q) = (follow s v p).bind fun x => follow s x q := by
  induction p generalizing v with
  | nil => rfl
  | cons a p ih => simp only [List.cons_append, follow, ih, Option.bind_assoc]

theorem follow_concat (s : Store) (v : Value) (p : List Access) (a : Access) :
    follow s v (p ++ [a]) = (follow s v p).bind fun x => part? s x a := by
  simp [follow_append, follow]

theorem Contains.part (h : Contains s v x) (hy : part? s x a = some y) : Contains s v y := by
  obtain ⟨path, hpath⟩ := h
  exact ⟨path ++ [a], by rw [follow_concat, hpath, Option.bind_some, hy]⟩

/-! Slots. -/

/--
The position of a part among the contents of an object.
-/
def slot? (s : Store) : Value → Access → Option Nat
  | array _, .index i => some i
  | record r, .member name => ((s.record r).fields.map Prod.fst).idxOf? name
  | _, _ => none

theorem lookup_eq_idxOf? (pairs : List (String × Value)) (name : String) :
    pairs.lookup name = ((pairs.map Prod.fst).idxOf? name).bind fun i => (pairs.map Prod.snd)[i]? := by
  induction pairs with
  | nil => rfl
  | cons p pairs ih =>
    obtain ⟨key, v⟩ := p
    rw [List.lookup_cons, List.map_cons, List.map_cons, List.idxOf?_cons]
    by_cases hkey : key = name
    . simp [hkey]
    . have hne : (name == key) = false := by simpa using Ne.symm hkey
      rw [hne, if_neg (by simpa using hkey), Option.bind_map]
      exact ih

theorem part?_eq_slot? (s : Store) (v : Value) (a : Access) :
    part? s v a = (slot? s v a).bind fun i => (contents s v)[i]? := by
  cases v <;> cases a <;> simp [part?, slot?, contents, lookup_eq_idxOf?]

theorem slot?_injective {i : Nat} (ha : slot? s v a = some i) (hb : slot? s v b = some i) : a = b := by
  cases v <;> cases a <;> cases b <;> simp only [slot?, reduceCtorEq, Option.some.injEq] at ha hb
  case array.index.index => rw [ha, hb]
  case record.member.member =>
    obtain ⟨_, hm, _⟩ := List.idxOf?_eq_some_iff.1 ha
    obtain ⟨_, hn, _⟩ := List.idxOf?_eq_some_iff.1 hb
    rw [← hm, ← hn]

theorem mem_contents_of_part? (h : part? s v a = some x) : x ∈ contents s v := by
  rw [part?_eq_slot?] at h
  obtain ⟨i, _, hi⟩ := Option.bind_eq_some_iff.1 h
  exact List.mem_of_getElem? hi

theorem isObject_of_part? (h : part? s v a = some x) : v.IsObject := by
  cases v <;> cases a <;> trivial

/-! Shapes. -/

/--
Two arrays, or two records of one type that list the same members.
-/
inductive SameShape (s t : Store) : Value → Value → Prop where
  | array (a b : Nat) : SameShape s t (.array a) (.array b)
  | record {a b : Nat} (htype : (t.record b).type = (s.record a).type)
      (hkeys : (t.record b).fields.map Prod.fst = (s.record a).fields.map Prod.fst) :
      SameShape s t (.record a) (.record b)

theorem SameShape.isObject (h : SameShape s t x y) : x.IsObject ∧ y.IsObject := by
  cases h <;> exact ⟨trivial, trivial⟩

theorem SameShape.slot? (h : SameShape s t x y) (a : Access) : slot? t y a = slot? s x a := by
  cases h with
  | array => cases a <;> rfl
  | record _ hkeys => cases a <;> simp only [Value.slot?, hkeys]

theorem getElem?_rel {α β : Type} {S : α → β → Prop} {xs : List α} {ys : List β}
    (h : List.Forall₂ S xs ys) (i : Nat) : Option.Rel S xs[i]? ys[i]? := by
  induction h generalizing i with
  | nil => exact .none
  | cons hxy _ ih =>
    cases i with
    | zero => exact .some hxy
    | succ i => exact ih i

theorem SameShape.part? (h : SameShape s t x y) (hcontents : List.Forall₂ R (contents s x) (contents t y))
    (a : Access) : Option.Rel R (part? s x a) (part? t y a) := by
  rw [part?_eq_slot?, part?_eq_slot?, h.slot?]
  cases Value.slot? s x a with
  | none => exact .none
  | some i => exact getElem?_rel hcontents i

end Value

/-! Stores without dangling references. -/

instance (s : Store) : DecidablePred (Value.Within s)
  | .absent => isFalse id
  | .null | .integer _ | .real _ | .char _ | .boolean _ => isTrue trivial
  | .string r => inferInstanceAs (Decidable (r < s.strings.size))
  | .array r => inferInstanceAs (Decidable (r < s.arrays.size))
  | .recordType r => inferInstanceAs (Decidable (r < s.recordTypes.size))
  | .record r => inferInstanceAs (Decidable (r < s.records.size))
  | .closure r => inferInstanceAs (Decidable (r < s.closures.size))

/--
Each value in an array or in a record has the property.
-/
structure Store.Everywhere (s : Store) (P : Value → Prop) : Prop where
  arrays : ∀ xs ∈ s.arrays.toList, ∀ v ∈ xs.toList, P v
  records : ∀ r ∈ s.records.toList, ∀ p ∈ r.fields, P p.2

namespace Store.Everywhere

variable {s : Store} {P : Value → Prop} {v x : Value}

theorem contents (h : s.Everywhere P) (hx : x ∈ v.contents s) : P x := by
  cases v with
  | array r =>
    simp only [Value.contents, Store.array] at hx
    cases hr : s.arrays[r]? with
    | none => simp [hr] at hx
    | some xs =>
      rw [hr] at hx
      exact h.arrays xs (Array.mem_toList_iff.2 (Array.mem_of_getElem? hr)) x hx
  | record r =>
    simp only [Value.contents, Store.record] at hx
    cases hr : s.records[r]? with
    | none =>
      rw [hr] at hx
      contradiction
    | some record =>
      rw [hr] at hx
      obtain ⟨p, hp, rfl⟩ := List.mem_map.1 hx
      exact h.records record (Array.mem_toList_iff.2 (Array.mem_of_getElem? hr)) p hp
  | _ => contradiction

theorem follow (h : s.Everywhere P) (hv : P v) {path : List Access}
    (hx : v.follow s path = some x) : P x := by
  induction path generalizing v with
  | nil =>
    cases hx
    exact hv
  | cons a path ih =>
    obtain ⟨y, hy, hx⟩ := Option.bind_eq_some_iff.1 hx
    exact ih (h.contents (Value.mem_contents_of_part? hy)) hx

end Store.Everywhere

/--
Each value in an array or in a record refers to something that is there.
-/
abbrev Store.Linked (s : Store) : Prop :=
  s.Everywhere fun v => v.orNull.Within s

/--
The stores that programs are evaluated in have no dangling references.
-/
theorem Store.Linked.of_sound {s : Store} (h : s.Sound) : s.Linked where
  arrays := fun xs hxs v hv =>
    (h.arrays xs (Array.mem_toList_iff.1 hxs) v (Array.mem_toList_iff.1 hv)).orNull
  records := fun r hr p hp => ((h.records r (Array.mem_toList_iff.1 hr)).fields p hp).orNull

end LispScript
