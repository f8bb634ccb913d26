import LispScript.Store

/-!
Deep copies. Arrays and records are copied once each, so that a copy has the shape of what it is a
copy of, cycles included. Each occurrence of a string is copied by itself.
-/

namespace LispScript

namespace Value

/--
A copy in the making: the store, and the copies of arrays and records made so far.
-/
structure Copying where
  store : Store
  arrays : List (Nat × Nat) := []
  records : List (Nat × Nat) := []

def cloneAll (clone : Value → Copying → Value × Copying) (vs : List Value) (c : Copying) :
    List Value × Copying :=
  go vs [] c
where
  go : List Value → List Value → Copying → List Value × Copying
    | [], copies, c => (copies.reverse, c)
    | v :: rest, copies, c =>
      let (w, c) := clone v c
      go rest (w :: copies) c

def Copying.add (c : Copying) (new : Value × Store) : Value × Copying :=
  (new.1, { c with store := new.2 })

def cloneFlat (v : Value) (c : Copying) : Value × Copying :=
  match v with
  | string r => c.add (c.store.addString (c.store.string r).clone)
  | recordType r => c.add (c.store.addRecordType (c.store.recordType r))
  | closure r => c.add (c.store.addClosure (c.store.closure r))
  | v => (v.orNull, c)

/--
Copy a value. Each level starts the copy of another array or record, so there are at most as many levels
as arrays and records, which is the `fuel`.
-/
def cloneInto : (fuel : Nat) → Value → Copying → Value × Copying
  | fuel + 1, array r, c =>
    match c.arrays.lookup r with
    | some copy => (array copy, c)
    | none =>
      let copy := c.store.arrays.size
      let c := { c with store := (c.store.addArray #[]).2, arrays := (r, copy) :: c.arrays }
      let (elements, c) := cloneAll (cloneInto fuel) (c.store.array r).toList c
      let store := { c.store with arrays := c.store.arrays.setIfInBounds copy elements.toArray }
      (array copy, { c with store })
  | fuel + 1, record r, c =>
    match c.records.lookup r with
    | some copy => (record copy, c)
    | none =>
      let source := c.store.record r
      let copy := c.store.records.size
      let blank : Record := { type := source.type, fields := [] }
      let c := { c with store := (c.store.addRecord blank).2, records := (r, copy) :: c.records }
      let (values, c) := cloneAll (cloneInto fuel) (source.fields.map Prod.snd) c
      let full : Record := { type := source.type, fields := (source.fields.map Prod.fst).zip values }
      let store := { c.store with records := c.store.records.setIfInBounds copy full }
      (record copy, { c with store })
  | _, v, c => cloneFlat v c

def clone (s : Store) (v : Value) : Value × Store :=
  let (w, c) := cloneInto (s.arrays.size + s.records.size + 1) v { store := s }
  (w, c.store)

end Value

end LispScript
