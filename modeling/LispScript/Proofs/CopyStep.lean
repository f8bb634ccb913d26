import LispScript.Proofs.Access
import LispScript.Proofs.Copying
import Mathlib.Data.List.Nodup

/-!
This module contains the steps of copying a value. Arrays and records are copied in one way: the copy of an
object is begun and noted, then the contents of the object are copied, and then the copy gets them.
-/

namespace LispScript

namespace Value

variable {s t : Store} {v w x y : Value} {c d : Copying}

/-! What is known of the copies that have been begun. -/

/--
Of `old` objects, some have copies, which are among those from `old` up to `now`.
-/
structure Memo (old now : Nat) (copies : List (Nat × Nat)) : Prop where
  sources : (copies.map Prod.fst).Nodup
  targets : (copies.map Prod.snd).Nodup
  bounds : ∀ p ∈ copies, p.1 < old ∧ old ≤ p.2 ∧ p.2 < now

namespace Memo

variable {old now now' a a' b : Nat} {copies : List (Nat × Nat)}

theorem mono (h : Memo old now copies) (hnow : now ≤ now') : Memo old now' copies where
  sources := h.sources
  targets := h.targets
  bounds := by
    intro p hp
    have := h.bounds p hp
    omega

theorem cons (h : Memo old now copies) (ha : a < old) (hnow : old ≤ now)
    (hlookup : copies.lookup a = none) : Memo old (now + 1) ((a, now) :: copies) where
  sources := List.nodup_cons.2 ⟨CopiesAlike.mem_keys_of_lookup hlookup, h.sources⟩
  targets := by
    refine List.nodup_cons.2 ⟨?_, h.targets⟩
    intro hmem
    obtain ⟨p, hp, hcopy⟩ := List.mem_map.1 hmem
    have := h.bounds p hp
    omega
  bounds := by
    rw [List.forall_mem_cons]
    refine ⟨⟨ha, hnow, Nat.lt_succ_self now⟩, ?_⟩
    exact (h.mono (Nat.le_succ now)).bounds

theorem length_le (h : Memo old now copies) : copies.length ≤ old := by
  rw [← List.length_map Prod.fst]
  apply length_le_of_nodup h.sources
  intro a ha
  obtain ⟨p, hp, rfl⟩ := List.mem_map.1 ha
  exact (h.bounds p hp).1

theorem bounds_of_lookup (h : Memo old now copies) (hb : copies.lookup a = some b) :
    a < old ∧ old ≤ b ∧ b < now :=
  h.bounds _ (Store.mem_of_lookup hb)

theorem lookup_injective (h : Memo old now copies) (hb : copies.lookup a = some b)
    (hb' : copies.lookup a' = some b) : a = a' :=
  congrArg Prod.fst
    (List.inj_on_of_nodup_map h.targets (Store.mem_of_lookup hb) (Store.mem_of_lookup hb') rfl)

end Memo

namespace Copying

/--
The copy that has been begun of an object.
-/
def copy? (c : Copying) : Value → Option Value
  | array r => (c.arrays.lookup r).map array
  | record r => (c.records.lookup r).map record
  | _ => none

/--
The next new object of the same sort.
-/
def next (c : Copying) : Value → Value
  | array _ => array c.store.arrays.size
  | record _ => record c.store.records.size
  | v => v

/--
The copy of an object is begun.
-/
def enter (c : Copying) : Value → Copying
  | array r =>
    { c with store := (c.store.addArray #[]).2, arrays := (r, c.store.arrays.size) :: c.arrays }
  | record r =>
    let blank : Record := { type := (c.store.record r).type, fields := [] }
    { c with store := (c.store.addRecord blank).2, records := (r, c.store.records.size) :: c.records }
  | _ => c

/--
The copy of the object `v` that was begun at `c` gets its contents.
-/
def leave (c : Copying) (v : Value) (ws : List Value) (d : Copying) : Copying :=
  match v with
  | array _ =>
    let arrays := d.store.arrays.setIfInBounds c.store.arrays.size ws.toArray
    { d with store := { d.store with arrays } }
  | record r =>
    let source := c.store.record r
    let full : Record := { type := source.type, fields := (source.fields.map Prod.fst).zip ws }
    let records := d.store.records.setIfInBounds c.store.records.size full
    { d with store := { d.store with records } }
  | _ => d

structure Begun (s : Store) (c : Copying) : Prop where
  spares : s.Spares (fun _ _ => False) c.store
  arrays : Memo s.arrays.size c.store.arrays.size c.arrays
  records : Memo s.records.size c.store.records.size c.records

namespace Begun

theorem size_le (h : c.Begun s) : c.size ≤ s.arrays.size + s.records.size :=
  Nat.add_le_add h.arrays.length_le h.records.length_le

theorem injective (h : c.Begun s) (hx : c.copy? x = some w) (hy : c.copy? y = some w) : x = y := by
  cases x with
  | array a =>
    obtain ⟨b, hb, rfl⟩ := Option.map_eq_some_iff.1 hx
    cases y with
    | array a' =>
      obtain ⟨b', hb', heq⟩ := Option.map_eq_some_iff.1 hy
      cases heq
      rw [h.arrays.lookup_injective hb hb']
    | record =>
      obtain ⟨b', _, heq⟩ := Option.map_eq_some_iff.1 hy
      contradiction
    | _ => contradiction
  | record a =>
    obtain ⟨b, hb, rfl⟩ := Option.map_eq_some_iff.1 hx
    cases y with
    | record a' =>
      obtain ⟨b', hb', heq⟩ := Option.map_eq_some_iff.1 hy
      cases heq
      rw [h.records.lookup_injective hb hb']
    | array =>
      obtain ⟨b', _, heq⟩ := Option.map_eq_some_iff.1 hy
      contradiction
    | _ => contradiction
  | _ => contradiction

/--
A copy is an object that is there now and was not there at the beginning.
-/
theorem new (h : c.Begun s) (hy : c.copy? x = some y) :
    y.IsObject ∧ ¬ y.Within s ∧ y.Within c.store := by
  cases x with
  | array a =>
    obtain ⟨b, hb, rfl⟩ := Option.map_eq_some_iff.1 hy
    have := h.arrays.bounds_of_lookup hb
    exact ⟨trivial, Nat.not_lt.2 this.2.1, this.2.2⟩
  | record a =>
    obtain ⟨b, hb, rfl⟩ := Option.map_eq_some_iff.1 hy
    have := h.records.bounds_of_lookup hb
    exact ⟨trivial, Nat.not_lt.2 this.2.1, this.2.2⟩
  | _ => contradiction

end Begun

end Copying

/-! Copying as equations. -/

theorem Within.of_extent (h : ∀ k, s.extent k ≤ t.extent k) (hv : v.Within s) : v.Within t :=
  hv.grows ⟨h .strings, h .arrays, h .recordTypes, h .records, h .closures, h .frames⟩

theorem cloneAll_go (clone : Value → Copying → Value × Copying) (vs copies : List Value) (c : Copying) :
    cloneAll.go clone vs copies c
      = (copies.reverse ++ (cloneAll clone vs c).1, (cloneAll clone vs c).2) := by
  induction vs generalizing copies c with
  | nil => simp [cloneAll, cloneAll.go]
  | cons v vs ih =>
    simp only [cloneAll, cloneAll.go]
    rw [ih, ih [(clone v c).1]]
    simp

theorem cloneAll_cons (clone : Value → Copying → Value × Copying) (v : Value) (vs : List Value)
    (c : Copying) :
    cloneAll clone (v :: vs) c
      = ((clone v c).1 :: (cloneAll clone vs (clone v c).2).1, (cloneAll clone vs (clone v c).2).2) := by
  exact cloneAll_go clone vs [(clone v c).1] (clone v c).2

theorem cloneInto_flat (hv : ¬ v.IsObject) (fuel : Nat) (c : Copying) :
    cloneInto fuel v c = cloneFlat v c := by
  cases fuel <;> cases v <;> first | rfl | exact absurd trivial hv

theorem cloneInto_known (h : c.copy? v = some w) (fuel : Nat) : cloneInto (fuel + 1) v c = (w, c) := by
  cases v with
  | array r =>
    obtain ⟨copy, hcopy, rfl⟩ := Option.map_eq_some_iff.1 h
    simp only [cloneInto, hcopy]
  | record r =>
    obtain ⟨copy, hcopy, rfl⟩ := Option.map_eq_some_iff.1 h
    simp only [cloneInto, hcopy]
  | _ => contradiction

theorem contents_spared (h : s.Spares (fun _ _ => False) t) (hv : v.Within s) :
    contents t v = contents s v := by
  cases v with
  | array r =>
    have hsame : t.array r = s.array r := h.same .arrays r hv not_false
    simp only [contents, hsame]
  | record r =>
    have hsame : t.record r = s.record r := h.same .records r hv not_false
    simp only [contents, hsame]
  | _ => rfl

theorem Copying.enter_spares (c : Copying) (v : Value) :
    c.store.Spares (fun _ _ => False) (c.enter v).store := by
  cases v with
  | array => exact (c.store.addArray_adds _).spares _
  | record => exact (c.store.addRecord_adds _).spares _
  | _ => exact .refl _ _

theorem cloneInto_enter (hv : v.IsObject) (hin : v.Within c.store) (h : c.copy? v = none) (fuel : Nat) :
    cloneInto (fuel + 1) v c
      = (c.next v, c.leave v (cloneAll (cloneInto fuel) (contents c.store v) (c.enter v)).1
          (cloneAll (cloneInto fuel) (contents c.store v) (c.enter v)).2) := by
  rw [← contents_spared (c.enter_spares v) hin]
  cases v with
  | array r =>
    have hlookup : c.arrays.lookup r = none := Option.map_eq_none_iff.1 h
    simp only [cloneInto, hlookup]
    rfl
  | record r =>
    have hlookup : c.records.lookup r = none := Option.map_eq_none_iff.1 h
    rw [contents_spared (c.enter_spares _) hin]
    simp only [cloneInto, hlookup]
    rfl
  | _ => contradiction

/-! A copy is begun. -/

namespace Copying

theorem copy?_enter_self (hv : v.IsObject) : (c.enter v).copy? v = some (c.next v) := by
  cases v with
  | array | record => simp [enter, copy?, next]
  | _ => contradiction

theorem copy?_enter (hnone : c.copy? v = none) (h : c.copy? x = some y) :
    (c.enter v).copy? x = some y := by
  have hne : v ≠ x := by
    rintro rfl
    rw [hnone] at h
    contradiction
  cases v with
  | array r =>
    cases x with
    | array a =>
      have hne : (a == r) = false := by simpa using Ne.symm hne
      simpa [enter, copy?, List.lookup_cons, hne] using h
    | _ => exact h
  | record r =>
    cases x with
    | record a =>
      have hne : (a == r) = false := by simpa using Ne.symm hne
      simpa [enter, copy?, List.lookup_cons, hne] using h
    | _ => exact h
  | _ => exact h

theorem size_enter (hv : v.IsObject) (c : Copying) : (c.enter v).size = c.size + 1 := by
  cases v with
  | array | record =>
    simp only [enter, size, List.length_cons]
    omega
  | _ => contradiction

theorem next_within (hv : v.IsObject) (c : Copying) : (c.next v).Within (c.enter v).store := by
  cases v with
  | array => exact (c.store.addArray_adds _).lt
  | record => exact (c.store.addRecord_adds _).lt
  | _ => contradiction

/--
Nothing but the copy is new.
-/
theorem within_enter (hx : x.IsObject) (h : x.Within (c.enter v).store) :
    x.Within c.store ∨ x = c.next v := by
  cases v with
  | array r =>
    have hadd := c.store.addArray_adds #[]
    cases x with
    | array a =>
      refine (Nat.lt_or_ge a c.store.arrays.size).imp id fun hge => ?_
      rw [show a = _ from (hadd.eq_of_new (j := .arrays) hge h).2]
      rfl
    | record => exact .inl h
    | _ => contradiction
  | record r =>
    have hadd := c.store.addRecord_adds { type := (c.store.record r).type, fields := [] }
    cases x with
    | record a =>
      refine (Nat.lt_or_ge a c.store.records.size).imp id fun hge => ?_
      rw [show a = _ from (hadd.eq_of_new (j := .records) hge h).2]
      rfl
    | array => exact .inl h
    | _ => contradiction
  | _ => exact .inl h

theorem Begun.enter (h : c.Begun s) (hv : v.Within s) (hnone : c.copy? v = none) :
    (c.enter v).Begun s where
  spares := h.spares.trans (c.enter_spares v) fun _ _ _ => id
  arrays := by
    have hgrows := (c.enter_spares v).grows .arrays
    cases v with
    | array r =>
      have hadd := (c.store.addArray_adds #[]).new
      simp only [Store.extent] at hadd
      simp only [Copying.enter, hadd]
      exact h.arrays.cons hv (h.spares.grows .arrays) (Option.map_eq_none_iff.1 hnone)
    | _ => exact h.arrays.mono hgrows
  records := by
    have hgrows := (c.enter_spares v).grows .records
    cases v with
    | record r =>
      have hadd := (c.store.addRecord_adds { type := (c.store.record r).type, fields := [] }).new
      simp only [Store.extent] at hadd
      simp only [Copying.enter, hadd]
      exact h.records.cons hv (h.spares.grows .records) (Option.map_eq_none_iff.1 hnone)
    | _ => exact h.records.mono hgrows

/-! A copy gets its contents. -/

theorem copy?_leave (c : Copying) (v : Value) (ws : List Value) (d : Copying) :
    (c.leave v ws d).copy? = d.copy? := by
  cases v <;> rfl

theorem size_leave (c : Copying) (v : Value) (ws : List Value) (d : Copying) :
    (c.leave v ws d).size = d.size := by
  cases v <;> rfl

theorem extent_leave (c : Copying) (v : Value) (ws : List Value) (d : Copying) (k : Realm) :
    (c.leave v ws d).store.extent k = d.store.extent k := by
  cases v with
  | array => exact (d.store.set_arrays_changes _ _).extent k
  | record => exact (d.store.set_records_changes _ _).extent k
  | _ => rfl

theorem within_leave {ws : List Value} : x.Within (c.leave v ws d).store ↔ x.Within d.store :=
  ⟨.of_extent fun k => Nat.le_of_eq (c.extent_leave v ws d k),
    .of_extent fun k => Nat.le_of_eq (c.extent_leave v ws d k).symm⟩

theorem leave_spares_flat (c : Copying) (v : Value) (ws : List Value) (d : Copying) :
    d.store.Spares (fun k _ => k = .arrays ∨ k = .records) (c.leave v ws d).store := by
  cases v with
  | array => exact (d.store.set_arrays_changes _ _).spares (.inl rfl)
  | record => exact (d.store.set_records_changes _ _).spares (.inr rfl)
  | _ => exact .refl _ _

/--
The copy was not there when it was begun, so that nothing of that time changes.
-/
theorem leave_spares (hcd : c.store.Spares (fun _ _ => False) d.store) (v : Value) (ws : List Value) :
    c.store.Spares (fun _ _ => False) (c.leave v ws d).store := by
  cases v with
  | array r =>
    apply hcd.trans ((d.store.set_arrays_changes _ _).spares
      (P := fun k a => k = .arrays ∧ a = c.store.arrays.size) ⟨rfl, rfl⟩)
    rintro k a ha ⟨rfl, rfl⟩
    exact Nat.lt_irrefl _ ha
  | record r =>
    apply hcd.trans ((d.store.set_records_changes _ _).spares
      (P := fun k a => k = .records ∧ a = c.store.records.size) ⟨rfl, rfl⟩)
    rintro k a ha ⟨rfl, rfl⟩
    exact Nat.lt_irrefl _ ha
  | _ => exact hcd

theorem Begun.leave (hd : d.Begun s) (hc : c.Begun s)
    (hcd : c.store.Spares (fun _ _ => False) d.store) (v : Value) (ws : List Value) :
    (c.leave v ws d).Begun s where
  spares := hc.spares.trans (leave_spares hcd v ws) fun _ _ _ => id
  arrays := by
    rw [show (c.leave v ws d).store.arrays.size = _ from c.extent_leave v ws d .arrays]
    cases v <;> exact hd.arrays
  records := by
    rw [show (c.leave v ws d).store.records.size = _ from c.extent_leave v ws d .records]
    cases v <;> exact hd.records

theorem array_leave_ne {a : Nat} (h : array a ≠ c.next v) (ws : List Value) :
    (c.leave v ws d).store.array a = d.store.array a := by
  cases v with
  | array => exact (d.store.set_arrays_changes _ _).same .arrays a (by simpa [next] using h)
  | _ => rfl

theorem record_leave_ne {a : Nat} (h : record a ≠ c.next v) (ws : List Value) :
    (c.leave v ws d).store.record a = d.store.record a := by
  cases v with
  | record => exact (d.store.set_records_changes _ _).same .records a (by simpa [next] using h)
  | _ => rfl

theorem contents_leave_ne (h : x ≠ c.next v) (ws : List Value) :
    contents (c.leave v ws d).store x = contents d.store x := by
  cases x with
  | array => simp only [contents, array_leave_ne h]
  | record => simp only [contents, record_leave_ne h]
  | _ => rfl

theorem sameShape_leave_ne (hxy : SameShape s d.store x y) (h : y ≠ c.next v) (ws : List Value) :
    SameShape s (c.leave v ws d).store x y := by
  cases hxy with
  | array => exact .array _ _
  | record htype hkeys =>
    rw [← record_leave_ne h ws] at htype hkeys
    exact .record htype hkeys

/--
The copy has the shape of the object, and the contents that it was given.
-/
theorem leave_next (hv : v.IsObject) (hnext : (c.next v).Within d.store) {ws : List Value}
    (hws : ws.length = (contents c.store v).length) :
    SameShape c.store (c.leave v ws d).store v (c.next v) ∧
      contents (c.leave v ws d).store (c.next v) = ws := by
  cases v with
  | array r =>
    refine ⟨.array _ _, ?_⟩
    simp only [contents, next, leave, Store.array_set_arrays hnext]
  | record r =>
    have hlength : ws.length = (c.store.record r).fields.length := by simpa [contents] using hws
    have hrecord := Store.record_set_records hnext
      { type := (c.store.record r).type, fields := ((c.store.record r).fields.map Prod.fst).zip ws }
    constructor
    . apply SameShape.record
      . simp only [leave, hrecord]
      . simp only [leave, hrecord]
        rw [List.map_fst_zip]
        simp [hlength]
    . simp only [contents, next, leave, hrecord]
      rw [List.map_snd_zip]
      simp [hlength]
  | _ => contradiction

end Copying

end Value

end LispScript
