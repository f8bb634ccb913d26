import LispScript.Proofs.Reach
import LispScript.Proofs.Replica
import Mathlib.Data.Set.Function

/-!
This module contains the proof that a clone is a deep copy: it has objects of its own, which are arranged
like those of the original, so that nothing that is done to the clone can be noticed outside of it. The order
in which a record lists its fields has no other meaning than that they are copied in it; whatever the order
is, the clone is a deep copy of the same value.
-/

namespace LispScript

open Value (CopyOf CopyIn MadeFrom)

/-! Orders of fields. -/

/--
The same store, where records may list their fields in other orders.
-/
structure Store.Rearranged (s s' : Store) : Prop where
  rest : s' = { s with records := s'.records }
  size : s'.records.size = s.records.size
  type : ∀ r, (s'.record r).type = (s.record r).type
  fields : ∀ r, (s'.record r).fields.Perm (s.record r).fields
  lookup : ∀ r name, (s'.record r).fields.lookup name = (s.record r).fields.lookup name

namespace Store.Rearranged

variable {s s' : Store} {v x : Value}

theorem lookup_perm {ps qs : List (String × Value)} (h : ps.Perm qs) (hkeys : (ps.map Prod.fst).Nodup)
    (name : String) : ps.lookup name = qs.lookup name := by
  induction h with
  | nil => rfl
  | cons p _ ih =>
    have hrest := ih (List.nodup_cons.1 hkeys).2
    rw [List.lookup_cons, List.lookup_cons, hrest]
  | swap p q ps =>
    have hne : q.1 ≠ p.1 := fun heq => (List.nodup_cons.1 hkeys).1 (by simp [heq])
    rw [List.lookup_cons, List.lookup_cons, List.lookup_cons, List.lookup_cons]
    cases hp : name == p.1 with
    | false => rfl
    | true =>
      have hq : (name == q.1) = false := by
        rw [eq_of_beq hp]
        simpa using Ne.symm hne
      rw [hq]
  | trans h _ ih ih' => exact (ih hkeys).trans (ih' ((h.map Prod.fst).nodup_iff.1 hkeys))

/--
If no record has a member twice, its fields may come in any order.
-/
theorem of_perm {records : Array Record} (hsize : records.size = s.records.size)
    (hkeys : ∀ r, ((s.record r).fields.map Prod.fst).Nodup)
    (hrecords : ∀ r, (records[r]?.getD default).type = (s.record r).type ∧
      (records[r]?.getD default).fields.Perm (s.record r).fields) :
    s.Rearranged { s with records } where
  rest := rfl
  size := hsize
  type := fun r => (hrecords r).1
  fields := fun r => (hrecords r).2
  lookup := fun r name => (lookup_perm (hrecords r).2.symm (hkeys r) name).symm

theorem extent (h : s.Rearranged s') (k : Realm) : s'.extent k = s.extent k := by
  rw [h.rest]
  cases k with
  | records => exact h.size
  | _ => rfl

theorem part? (h : s.Rearranged s') (v : Value) (a : Access) : v.part? s' a = v.part? s a := by
  cases v with
  | array r =>
    have harray : s'.array r = s.array r := by
      rw [h.rest]
      rfl
    cases a <;> simp only [Value.part?, harray]
  | record r => cases a <;> simp only [Value.part?, h.lookup]
  | _ => rfl

theorem contains (h : s.Rearranged s') : v.Contains s' x ↔ v.Contains s x := by
  have hfollow (path : List Access) (v : Value) : v.follow s' path = v.follow s path := by
    induction path generalizing v with
    | nil => rfl
    | cons a path ih => simp only [Value.follow, h.part?, ih]
  simp only [Value.Contains, hfollow]

theorem linked (h : s.Rearranged s') (hs : s.Linked) : s'.Linked := by
  have hwithin {v : Value} (hv : v.Within s) : v.Within s' :=
    hv.of_extent fun k => Nat.le_of_eq (h.extent k).symm
  constructor
  . intro xs hxs v hv
    rw [h.rest] at hxs
    exact hwithin (hs.arrays xs hxs v hv)
  . intro r hr p hp
    obtain ⟨i, hi⟩ := List.mem_iff_getElem?.1 hr
    rw [Array.getElem?_toList] at hi
    have hrecord : s'.record i = r := by rw [Store.record, hi, Option.getD_some]
    have hmem : p ∈ (s.record i).fields := (h.fields i).mem_iff.1 (by rwa [hrecord])
    exact hwithin (hs.contents (v := .record i) (List.mem_map_of_mem hmem))

theorem copyOf {t : Store} {R : Value → Value → Prop} (h : s.Rearranged s') {w : Value}
    (hvw : CopyOf s' t R v w) : CopyOf s t R v w := by
  rw [h.rest] at hvw
  cases hvw with
  | string hnew hb h => exact .string hnew hb h
  | recordType hnew hb h => exact .recordType hnew hb h
  | closure hnew hb h => exact .closure hnew hb h
  | object hx h => exact .object hx h
  | _ => constructor

end Store.Rearranged

/-! Changes of objects. -/

/--
What can be done to a string, an array or a record.
-/
inductive Store.Edit where
  | setChar (ref i : Nat) (c : Char)
  | appendChars (ref : Nat) (suffix : Array Char)
  | setElement (ref i : Nat) (v : Value)
  | pushElement (ref : Nat) (v : Value)
  | setField (ref : Nat) (member : String) (v : Value)

namespace Store.Edit

def target : Edit → Value
  | setChar ref _ _ | appendChars ref _ => .string ref
  | setElement ref _ _ | pushElement ref _ => .array ref
  | setField ref _ _ => .record ref

def apply (s : Store) : Edit → Store
  | setChar ref i c => s.setChar ref i c
  | appendChars ref suffix => s.appendChars ref suffix
  | setElement ref i v => s.setElement ref i v
  | pushElement ref v => s.pushElement ref v
  | setField ref member v => s.setField ref member v

/--
Nothing changes but the target.
-/
theorem changes (e : Edit) (s : Store) :
    ∃ k a, e.target.Refers k a ∧ Store.Changes k a s (e.apply s) := by
  cases e with
  | setChar ref => exact ⟨_, _, .string ref, s.modify_strings_changes ref _⟩
  | appendChars ref => exact ⟨_, _, .string ref, s.modify_strings_changes ref _⟩
  | setElement ref => exact ⟨_, _, .array ref, s.modify_arrays_changes ref _⟩
  | pushElement ref => exact ⟨_, _, .array ref, s.modify_arrays_changes ref _⟩
  | setField ref => exact ⟨_, _, .record ref, s.modify_records_changes ref _⟩

end Store.Edit

namespace Value

/--
Two arrays of one length, or two records of one type that have the same members.
-/
inductive Resembles (s t : Store) : Value → Value → Prop where
  | array {a b : Nat} (hsize : (t.array b).size = (s.array a).size) : Resembles s t (.array a) (.array b)
  | record {a b : Nat} (htype : (t.record b).type = (s.record a).type)
      (hmembers : ∀ name, name ∈ (t.record b).fields.map Prod.fst ↔
        name ∈ (s.record a).fields.map Prod.fst) : Resembles s t (.record a) (.record b)

/--
The objects inside of `w` are copies, given by `f`, of those inside of `v`, and everything in them is a copy
of what is in the same place in the original.
-/
structure Isomorphic (s t : Store) (v w : Value) (f : Value → Value) : Prop where
  copy : CopyOf s t (fun x y => y = f x) v w
  objects : Set.BijOn f {x | x.IsObject ∧ v.Contains s x} {y | y.IsObject ∧ w.Contains t y}
  shape : ∀ x, x.IsObject → v.Contains s x → Resembles s t x (f x)
  parts : ∀ x, x.IsObject → v.Contains s x → ∀ a,
    Option.Rel (CopyOf s t fun x y => y = f x) (part? s x a) (part? t (f x) a)

/--
A clone `w` of `v` has been made from the store `s` on, and `t` is the store with it.
-/
structure DeepCopied (s : Store) (v w : Value) (t : Store) : Prop where
  /-- Whatever can be reached in the clone is new. -/
  fresh : ∀ x, w.Contains t x → ∀ k a, x.Refers k a → s.extent k ≤ a ∧ a < t.extent k
  isomorphic : ∃ f, Isomorphic s t v w f
  /-- Nothing that is done later to an object of the clone changes an object from before. -/
  apart : ∀ e : Store.Edit, w.Contains t e.target → ∀ (u : Store) (k : Realm) (a : Nat),
    a < s.extent k → u.SameAt (e.apply u) k a

variable {s t : Store} {v w x y : Value} {d : Copying}

/-! Everything in the clone is new. -/

theorem Within.lt_extent (h : x.Within s) {k : Realm} {a : Nat} (hx : x.Refers k a) :
    a < s.extent k := by
  cases hx <;> exact h

theorem extent_le_of_not_within (h : ¬ x.Within s) {k : Realm} {a : Nat} (hx : x.Refers k a) :
    s.extent k ≤ a := by
  cases hx <;> exact Nat.not_lt.1 h

theorem MadeFrom.fresh (h : MadeFrom s v w d) (hxy : CopyIn s d x y) {k : Realm} {a : Nat}
    (hy : y.Refers k a) : s.extent k ≤ a ∧ a < d.store.extent k := by
  cases hxy with
  | string hnew hb =>
    cases hy
    exact ⟨hnew, hb⟩
  | recordType hnew hb =>
    cases hy
    exact ⟨hnew, hb⟩
  | closure hnew hb =>
    cases hy
    exact ⟨hnew, hb⟩
  | object _ hxy =>
    obtain ⟨_, hout, hin⟩ := h.begun.new hxy
    exact ⟨extent_le_of_not_within hout hy, hin.lt_extent hy⟩
  | _ => contradiction

/-! The copies as a function. -/

/--
The copy of an object; other values stand for themselves.
-/
def Copying.copyOf (d : Copying) (x : Value) : Value :=
  (d.copy? x).getD x

theorem CopyIn.copyOf (h : CopyIn s d x y) : CopyOf s d.store (fun x y => y = d.copyOf x) x y := by
  apply CopyOf.mono h (.refl _ _)
  intro x y hxy
  rw [Copying.copyOf, hxy, Option.getD_some]

theorem SameShape.resembles (h : SameShape s t x y)
    (hlength : (contents s x).length = (contents t y).length) : Resembles s t x y := by
  cases h with
  | array => exact .array (by simpa [contents] using hlength.symm)
  | record htype hkeys => exact .record htype fun name => by rw [hkeys]

theorem Resembles.rearranged {s' : Store} (h : s.Rearranged s') (hxy : Resembles s' t x y) :
    Resembles s t x y := by
  cases hxy with
  | @array a b hsize =>
    have harray : s'.array a = s.array a := by
      rw [h.rest]
      rfl
    rw [harray] at hsize
    exact .array hsize
  | @record a b htype hmembers =>
    rw [h.type] at htype
    refine .record htype fun name => ?_
    rw [hmembers, ((h.fields a).map Prod.fst).mem_iff]

theorem MadeFrom.isomorphic (h : MadeFrom s v w d) : Isomorphic s d.store v w d.copyOf := by
  -- Every object inside of the original has been copied, because a path leads to its copy, too.
  have hcopied {x : Value} (hx : x.IsObject) (hin : v.Contains s x) :
      d.copy? x = some (d.copyOf x) ∧ w.Contains d.store (d.copyOf x) := by
    obtain ⟨path, hpath⟩ := hin
    obtain ⟨y, hy, hxy⟩ := h.target hpath
    rw [Copying.copyOf, hxy.copy? hx]
    exact ⟨rfl, path, hy⟩
  refine ⟨h.copy.copyOf, ⟨?_, ?_, ?_⟩, ?_, ?_⟩
  . rintro x ⟨hx, hin⟩
    obtain ⟨hcopy, hout⟩ := hcopied hx hin
    exact ⟨(h.begun.new hcopy).1, hout⟩
  . rintro x ⟨hx, hin⟩ y ⟨hy, hin'⟩ heq
    have hcopy := (hcopied hy hin').1
    rw [← heq] at hcopy
    exact h.begun.injective (hcopied hx hin).1 hcopy
  . rintro y ⟨hy, path, hpath⟩
    obtain ⟨x, hx, hxy⟩ := h.source hpath
    have hobject := (h.isObject hxy).1 hy
    refine ⟨x, ⟨hobject, path, hx⟩, ?_⟩
    rw [Copying.copyOf, hxy.copy? hobject, Option.getD_some]
  . intro x hx hin
    obtain ⟨hshape, hcontents⟩ := h.completed (hcopied hx hin).1
    exact hshape.resembles hcontents.length_eq
  . intro x hx hin a
    exact rel_imp (h.part? (.object hx (hcopied hx hin).1) a) fun _ _ => CopyIn.copyOf

/-! The clone. -/

theorem Isomorphic.rearranged {s' : Store} (h : s.Rearranged s') {f : Value → Value}
    (hiso : Isomorphic s' t v w f) : Isomorphic s t v w f where
  copy := h.copyOf hiso.copy
  objects := by simpa only [h.contains] using hiso.objects
  shape := fun x hx hin => (hiso.shape x hx (h.contains.2 hin)).rearranged h
  parts := by
    intro x hx hin a
    rw [← h.part?]
    exact rel_imp (hiso.parts x hx (h.contains.2 hin) a) fun _ _ => h.copyOf

theorem MadeFrom.deepCopied {s' : Store} (h : MadeFrom s' v w d) (hs : s.Rearranged s') :
    DeepCopied s v w d.store := by
  have hfresh : ∀ x, w.Contains d.store x → ∀ k a, x.Refers k a →
      s.extent k ≤ a ∧ a < d.store.extent k := by
    rintro y ⟨path, hpath⟩ k a hy
    obtain ⟨x, _, hxy⟩ := h.source hpath
    rw [← hs.extent]
    exact h.fresh hxy hy
  refine ⟨hfresh, ⟨d.copyOf, h.isomorphic.rearranged hs⟩, ?_⟩
  intro e htarget u k a ha
  obtain ⟨j, b, hrefers, hchanges⟩ := e.changes u
  apply hchanges.same
  rintro ⟨⟩
  exact absurd ha (Nat.not_lt.2 (hfresh _ htarget _ _ hrefers).1)

end Value

/--
Cloning a value ends by itself, changes nothing that is there and gives a deep copy, in whatever order the
fields of records are copied.
-/
theorem clone_deepCopied {s s' : Store} {v : Value} (hs : s.Linked) (hv : v.orNull.Within s)
    (hs' : s.Rearranged s') :
    s'.Spares (fun _ _ => False) (Value.clone s' v).2 ∧
      Value.DeepCopied s v (Value.clone s' v).1 (Value.clone s' v).2 ∧
      -- No fuel beyond the number of objects changes anything.
      ∀ fuel, s'.arrays.size + s'.records.size < fuel →
        Value.cloneInto fuel v { store := s' }
          = Value.cloneInto (s'.arrays.size + s'.records.size + 1) v { store := s' } := by
  have hlinked := hs'.linked hs
  have hwithin : v.orNull.Within s' := hv.of_extent fun k => Nat.le_of_eq (hs'.extent k).symm
  obtain ⟨d, hstore, hmade⟩ := Value.clone_made hlinked hwithin
  rw [hstore]
  refine ⟨hmade.spares, hmade.deepCopied hs', ?_⟩
  intro fuel hfuel
  exact Value.cloneInto_fuel hlinked (.start s') hwithin hfuel (Nat.lt_succ_self _)

/--
An array that contains itself, a string and a record; the record lists its fields in the other order.
-/
theorem clone_deepCopied_cycle :
    let record (fields : List (String × Value)) : Record := { type := 0, fields }
    let s : Store := {
      strings := #[.ofList ['a']]
      arrays := #[#[.array 0, .string 0, .record 0]]
      recordTypes := #[{ name := "P", members := ["x", "y"] }]
      records := #[record [("x", .array 0), ("y", .string 0)]] }
    let s' : Store := { s with records := #[record [("y", .string 0), ("x", .array 0)]] }
    s.Linked ∧ (Value.array 0).orNull.Within s ∧ s.Rearranged s' ∧
      Value.DeepCopied s (.array 0) (Value.clone s' (.array 0)).1 (Value.clone s' (.array 0)).2 := by
  intro record s s'
  have hs : s.Linked := ⟨by decide, by decide⟩
  have hv : (Value.array 0).orNull.Within s := by decide
  have hs' : s.Rearranged s' := by
    apply Store.Rearranged.of_perm
    . rfl
    . rintro (_ | r)
      . decide
      . exact .nil
    . rintro (_ | r)
      . exact ⟨rfl, .swap _ _ _⟩
      . exact ⟨rfl, .refl _⟩
  exact ⟨hs, hv, hs', (clone_deepCopied hs hv hs').2.1⟩

end LispScript
