import LispScript.Proofs.Safety

/-!
This module contains the regime of programs that were read from source text. In a sound store every
value of a frame, an array or a record is there and refers to an object that exists, and every body of
a closure is a tree in which each node has a location.
-/

namespace LispScript

namespace Value

variable {s t : Store} {v : Value}

theorem Within.grows (hst : s.Grows t) (h : v.Within s) : v.Within t := by
  cases v with
  | absent => apply h
  | string r => apply Nat.lt_of_lt_of_le h hst.strings
  | array r => apply Nat.lt_of_lt_of_le h hst.arrays
  | recordType r => apply Nat.lt_of_lt_of_le h hst.recordTypes
  | record r => apply Nat.lt_of_lt_of_le h hst.records
  | closure r => apply Nat.lt_of_lt_of_le h hst.closures
  | _ => trivial

theorem Within.orNull (h : v.Within s) : v.orNull.Within s := by
  cases v with
  | absent => trivial
  | _ => apply h

end Value

namespace Store

structure SoundNode (s : Store) (location : Option Location) (form : Form Value) : Prop where
  located : location.isSome
  literal : ∀ v, form = .literal v → v.Within s

structure SoundFrame (s : Store) (f : Frame) : Prop where
  parent : ∀ p, f.parent = some p → p < s.frames.size
  bindings : ∀ p ∈ f.bindings, p.2.Within s

structure SoundRecord (s : Store) (r : Record) : Prop where
  type : r.type < s.recordTypes.size
  fields : ∀ p ∈ r.fields, p.2.Within s

structure SoundClosure (s : Store) (c : Closure) : Prop where
  frame : c.frame < s.frames.size
  body : c.body.Every s.SoundNode

/-- The objects of the store `s` are good, when references are taken to be to objects of `t`. -/
structure SoundIn (t s : Store) : Prop where
  frames : ∀ f ∈ s.frames, t.SoundFrame f
  arrays : ∀ a ∈ s.arrays, ∀ v ∈ a, v.Within t
  records : ∀ r ∈ s.records, t.SoundRecord r
  closures : ∀ c ∈ s.closures, t.SoundClosure c

def Sound (s : Store) : Prop :=
  s.SoundIn s

variable {s t : Store}

theorem SoundNode.grows {location : Option Location} {form : Form Value} (hst : s.Grows t)
    (h : s.SoundNode location form) : t.SoundNode location form where
  located := h.located
  literal := fun v hv => (h.literal v hv).grows hst

theorem SoundFrame.grows {f : Frame} (hst : s.Grows t) (h : s.SoundFrame f) : t.SoundFrame f where
  parent := fun p hp => Nat.lt_of_lt_of_le (h.parent p hp) hst.frames
  bindings := fun p hp => (h.bindings p hp).grows hst

theorem SoundRecord.grows {r : Record} (hst : s.Grows t) (h : s.SoundRecord r) :
    t.SoundRecord r where
  type := Nat.lt_of_lt_of_le h.type hst.recordTypes
  fields := fun p hp => (h.fields p hp).grows hst

theorem SoundClosure.grows {c : Closure} (hst : s.Grows t) (h : s.SoundClosure c) :
    t.SoundClosure c where
  frame := Nat.lt_of_lt_of_le h.frame hst.frames
  body := h.body.mono fun _ _ => SoundNode.grows hst

theorem Sound.grows (hst : s.Grows t) (h : s.Sound) : t.SoundIn s where
  frames := fun f hf => (h.frames f hf).grows hst
  arrays := fun a ha v hv => (h.arrays a ha v hv).grows hst
  records := fun r hr => (h.records r hr).grows hst
  closures := fun c hc => (h.closures c hc).grows hst

theorem Sound.empty : Sound {} where
  frames := by simp
  arrays := by simp
  records := by simp
  closures := by simp

theorem bind_frames (s : Store) (frame : Nat) (name : String) (v : Value) :
    (s.bind frame name v).frames
      = s.frames.modify frame fun f => { f with bindings := (name, v.orNull) :: f.bindings } := rfl

theorem rebind_frames (s : Store) (target : Nat) (name : String) (v : Value) :
    (s.rebind target name v).frames
      = s.frames.modify target fun f =>
        { f with bindings := replaceValue name v.orNull f.bindings } := rfl

theorem setElement_arrays (s : Store) (ref i : Nat) (v : Value) :
    (s.setElement ref i v).arrays = s.arrays.modify ref (·.setIfInBounds i v) := rfl

theorem pushElement_arrays (s : Store) (ref : Nat) (v : Value) :
    (s.pushElement ref v).arrays = s.arrays.modify ref (·.push v) := rfl

theorem setField_records (s : Store) (ref : Nat) (member : String) (v : Value) :
    (s.setField ref member v).records
      = s.records.modify ref fun r => { r with fields := replaceValue member v r.fields } := rfl

theorem forall_modify {α : Type} {P : α → Prop} {xs : Array α} {i : Nat} {f : α → α}
    (h : ∀ x ∈ xs, P x) (hf : ∀ x, P x → P (f x)) : ∀ x ∈ xs.modify i f, P x := by
  intro x hx
  obtain ⟨j, hj⟩ := Array.mem_iff_getElem?.1 hx
  rw [Array.getElem?_modify] at hj
  split at hj
  . obtain ⟨y, hy, rfl⟩ := Option.map_eq_some_iff.1 hj
    apply hf y
    apply h y (Array.mem_of_getElem? hy)
  . apply h x (Array.mem_of_getElem? hj)

theorem forall_push {α : Type} {P : α → Prop} {xs : Array α} {y : α} (h : ∀ x ∈ xs, P x)
    (hy : P y) : ∀ x ∈ xs.push y, P x := by
  intro x hx
  cases Array.mem_push.1 hx with
  | inl hx => apply h x hx
  | inr hx =>
    rw [hx]
    apply hy

theorem forall_set {α : Type} {P : α → Prop} {xs : Array α} {i : Nat} {y : α}
    (h : ∀ x ∈ xs, P x) (hy : P y) : ∀ x ∈ xs.setIfInBounds i y, P x := by
  intro x hx
  cases Array.mem_or_eq_of_mem_setIfInBounds hx with
  | inl hx => apply h x hx
  | inr hx =>
    rw [hx]
    apply hy

theorem forall_replaceValue {P : Value → Prop} {key : String} {v : Value}
    {pairs : List (String × Value)} (h : ∀ p ∈ pairs, P p.2) (hv : P v) :
    ∀ p ∈ replaceValue key v pairs, P p.2 := by
  intro p hp
  obtain ⟨⟨k, old⟩, hq, rfl⟩ := List.mem_map.1 hp
  dsimp only
  split
  . apply hv
  . apply h (k, old) hq

theorem Sound.bind {frame : Nat} {name : String} {v : Value} (hs : s.Sound) (hv : v.Within s) :
    (s.bind frame name v).Sound := by
  have hst : s.Grows (s.bind frame name v) := by constructor <;> simp [Store.bind]
  have hs := hs.grows hst
  refine { hs with frames := ?_ }
  rw [bind_frames]
  apply forall_modify hs.frames
  intro f hf
  refine ⟨hf.parent, ?_⟩
  rw [List.forall_mem_cons]
  constructor
  . apply (hv.grows hst).orNull
  . apply hf.bindings

theorem Sound.rebind {target : Nat} {name : String} {v : Value} (hs : s.Sound)
    (hv : v.Within s) : (s.rebind target name v).Sound := by
  have hst : s.Grows (s.rebind target name v) := by constructor <;> simp [Store.rebind]
  have hs := hs.grows hst
  refine { hs with frames := ?_ }
  rw [rebind_frames]
  apply forall_modify hs.frames
  intro f hf
  refine ⟨hf.parent, ?_⟩
  apply forall_replaceValue hf.bindings
  apply (hv.grows hst).orNull

theorem Sound.addFrame {parent : Option Nat} (hs : s.Sound)
    (hparent : ∀ p, parent = some p → p < s.frames.size) : (s.addFrame parent).2.Sound := by
  have hst := s.addFrame_grows parent
  have hs := hs.grows hst
  refine { hs with frames := forall_push hs.frames ⟨?_, by simp⟩ }
  intro p hp
  apply Nat.lt_of_lt_of_le (hparent p hp) hst.frames

theorem Sound.plain (hs : s.Sound) (hst : s.Grows t) (hframes : t.frames = s.frames)
    (harrays : t.arrays = s.arrays) (hrecords : t.records = s.records)
    (hclosures : t.closures = s.closures) : t.Sound := by
  have hs := hs.grows hst
  constructor
  . rw [hframes]
    apply hs.frames
  . rw [harrays]
    apply hs.arrays
  . rw [hrecords]
    apply hs.records
  . rw [hclosures]
    apply hs.closures

theorem Sound.addArray {elements : Array Value} (hs : s.Sound)
    (hvs : ∀ v ∈ elements, v.Within s) : (s.addArray elements).2.Sound := by
  have hst : s.Grows (s.addArray elements).2 := by constructor <;> simp [Store.addArray]
  have hs := hs.grows hst
  refine { hs with arrays := forall_push hs.arrays ?_ }
  intro v hv
  apply (hvs v hv).grows hst

theorem Sound.setElement {ref i : Nat} {v : Value} (hs : s.Sound) (hv : v.Within s) :
    (s.setElement ref i v).Sound := by
  have hst : s.Grows (s.setElement ref i v) := by constructor <;> simp [Store.setElement]
  have hs := hs.grows hst
  refine { hs with arrays := ?_ }
  rw [setElement_arrays]
  apply forall_modify hs.arrays
  intro a ha
  apply forall_set ha
  apply hv.grows hst

theorem Sound.pushElement {ref : Nat} {v : Value} (hs : s.Sound) (hv : v.Within s) :
    (s.pushElement ref v).Sound := by
  have hst : s.Grows (s.pushElement ref v) := by constructor <;> simp [Store.pushElement]
  have hs := hs.grows hst
  refine { hs with arrays := ?_ }
  rw [pushElement_arrays]
  apply forall_modify hs.arrays
  intro a ha
  apply forall_push ha
  apply hv.grows hst

theorem Sound.addRecord {r : Record} (hs : s.Sound) (hr : s.SoundRecord r) :
    (s.addRecord r).2.Sound := by
  have hst : s.Grows (s.addRecord r).2 := by constructor <;> simp [Store.addRecord]
  have hs := hs.grows hst
  refine { hs with records := forall_push hs.records ?_ }
  apply hr.grows hst

theorem Sound.addBlankRecord {type : Nat} (hs : s.Sound) (ht : type < s.recordTypes.size) :
    (s.addBlankRecord type).2.Sound := by
  apply hs.addRecord
  refine ⟨ht, ?_⟩
  intro p hp
  obtain ⟨member, _, rfl⟩ := List.mem_map.1 hp
  trivial

theorem Sound.setField {ref : Nat} {member : String} {v : Value} (hs : s.Sound)
    (hv : v.Within s) : (s.setField ref member v).Sound := by
  have hst : s.Grows (s.setField ref member v) := by constructor <;> simp [Store.setField]
  have hs := hs.grows hst
  refine { hs with records := ?_ }
  rw [setField_records]
  apply forall_modify hs.records
  intro r hr
  refine ⟨hr.type, ?_⟩
  apply forall_replaceValue hr.fields
  apply hv.grows hst

theorem Sound.addClosure {c : Closure} (hs : s.Sound) (hc : s.SoundClosure c) :
    (s.addClosure c).2.Sound := by
  have hst : s.Grows (s.addClosure c).2 := by constructor <;> simp [Store.addClosure]
  have hs := hs.grows hst
  refine { hs with closures := forall_push hs.closures ?_ }
  apply hc.grows hst

theorem mem_of_lookup {α β : Type} [BEq α] [LawfulBEq α] {key : α} {b : β} {pairs : List (α × β)}
    (h : pairs.lookup key = some b) : (key, b) ∈ pairs := by
  obtain ⟨before, after, rfl, _⟩ := List.lookup_eq_some_iff.1 h
  simp

theorem Sound.lookup {frame : Nat} {name : String} {v : Value} (hs : s.Sound)
    (h : s.lookup frame name = some v) : v.Within s := by
  rw [lookup_eq] at h
  obtain ⟨target, _, hlookup⟩ := Option.bind_eq_some_iff.1 h
  have hmem := mem_of_lookup hlookup
  unfold Store.frame at hmem
  cases hf : s.frames[target]? with
  | none =>
    rw [hf] at hmem
    contradiction
  | some f =>
    rw [hf] at hmem
    apply (hs.frames f (Array.mem_of_getElem? hf)).bindings _ hmem

theorem Sound.array (hs : s.Sound) (ref : Nat) : ∀ v ∈ s.array ref, v.Within s := by
  unfold Store.array
  cases ha : s.arrays[ref]? with
  | none => simp
  | some a => apply hs.arrays a (Array.mem_of_getElem? ha)

theorem Sound.fields (hs : s.Sound) (ref : Nat) :
    ∀ p ∈ (s.record ref).fields, p.2.Within s := by
  unfold Store.record
  cases hr : s.records[ref]? with
  | none =>
    intro p hp
    contradiction
  | some r => apply (hs.records r (Array.mem_of_getElem? hr)).fields

theorem Sound.record {ref : Nat} (hs : s.Sound) (h : ref < s.records.size) :
    s.SoundRecord (s.record ref) := by
  unfold Store.record
  rw [Array.getElem?_eq_getElem h]
  apply hs.records _ (Array.getElem_mem h)

theorem Sound.closure {ref : Nat} (hs : s.Sound) (h : ref < s.closures.size) :
    s.SoundClosure (s.closure ref) := by
  unfold Store.closure
  rw [Array.getElem?_eq_getElem h]
  apply hs.closures _ (Array.getElem_mem h)

theorem Sound.setArray {i : Nat} {elements : Array Value} (hs : s.Sound)
    (hvs : ∀ v ∈ elements, v.Within s) :
    Sound { s with arrays := s.arrays.setIfInBounds i elements } := by
  have hst : s.Grows { s with arrays := s.arrays.setIfInBounds i elements } := by
    constructor <;> simp
  have hs := hs.grows hst
  refine { hs with arrays := forall_set hs.arrays ?_ }
  intro v hv
  apply (hvs v hv).grows hst

theorem Sound.setRecord {i : Nat} {r : Record} (hs : s.Sound) (hr : s.SoundRecord r) :
    Sound { s with records := s.records.setIfInBounds i r } := by
  have hst : s.Grows { s with records := s.records.setIfInBounds i r } := by
    constructor <;> simp
  have hs := hs.grows hst
  refine { hs with records := forall_set hs.records ?_ }
  apply hr.grows hst

end Store

namespace Value

structure Copying.Sound (c : Copying) : Prop where
  store : c.store.Sound
  arrays : ∀ p ∈ c.arrays, p.2 < c.store.arrays.size
  records : ∀ p ∈ c.records, p.2 < c.store.records.size

structure Copied (r : Value × Copying) : Prop where
  sound : r.2.Sound
  within : r.1.Within r.2.store

theorem Copying.Sound.extend {c : Copying} {s : Store} (hc : c.Sound) (hs : s.Sound)
    (hst : c.store.Grows s) : Copying.Sound { c with store := s } where
  store := hs
  arrays := fun p hp => Nat.lt_of_lt_of_le (hc.arrays p hp) hst.arrays
  records := fun p hp => Nat.lt_of_lt_of_le (hc.records p hp) hst.records

theorem cloneFlat_copied {v : Value} {c : Copying} (hc : c.Sound) (hv : v.Within c.store) :
    Copied (cloneFlat v c) := by
  have hst := (cloneFlat_extends v c).grows
  cases v with
  | absent => contradiction
  | string r =>
    constructor
    . apply hc.extend _ hst
      apply hc.store.plain hst <;> rfl
    . simp [cloneFlat, Copying.add, Store.addString, Within]
  | recordType r =>
    constructor
    . apply hc.extend _ hst
      apply hc.store.plain hst <;> rfl
    . simp [cloneFlat, Copying.add, Store.addRecordType, Within]
  | closure r =>
    constructor
    . apply hc.extend _ hst
      apply hc.store.addClosure
      apply hc.store.closure hv
    . simp [cloneFlat, Copying.add, Store.addClosure, Within]
  | _ => exact ⟨hc, hv⟩

structure CopiedAll (c : Copying) (r : List Value × Copying) : Prop where
  sound : r.2.Sound
  grows : c.store.Grows r.2.store
  within : ∀ v ∈ r.1, v.Within r.2.store

theorem cloneAll_go_copied {clone : Value → Copying → Value × Copying}
    (hextends : ∀ v (c : Copying), c.Extends (clone v c).2)
    (hclone : ∀ v c, c.Sound → v.Within c.store → Copied (clone v c)) {vs copies : List Value}
    {c : Copying} (hc : c.Sound) (hvs : ∀ v ∈ vs, v.Within c.store)
    (hcopies : ∀ v ∈ copies, v.Within c.store) : CopiedAll c (cloneAll.go clone vs copies c) := by
  induction vs generalizing copies c with
  | nil =>
    refine ⟨hc, .refl _, ?_⟩
    intro v hv
    apply hcopies v (List.mem_reverse.1 hv)
  | cons v vs ih =>
    have hst := (hextends v c).grows
    have hcopied := hclone v c hc (hvs v List.mem_cons_self)
    have hrest : CopiedAll (clone v c).2
        (cloneAll.go clone vs ((clone v c).1 :: copies) (clone v c).2) := by
      apply ih hcopied.sound
      . intro w hw
        apply (hvs w (List.mem_cons_of_mem v hw)).grows hst
      . rw [List.forall_mem_cons]
        constructor
        . apply hcopied.within
        . intro w hw
          apply (hcopies w hw).grows hst
    exact ⟨hrest.sound, hst.trans hrest.grows, hrest.within⟩

theorem cloneAll_copied {clone : Value → Copying → Value × Copying}
    (hextends : ∀ v (c : Copying), c.Extends (clone v c).2)
    (hclone : ∀ v c, c.Sound → v.Within c.store → Copied (clone v c)) {vs : List Value}
    {c : Copying} (hc : c.Sound) (hvs : ∀ v ∈ vs, v.Within c.store) :
    CopiedAll c (cloneAll clone vs c) := by
  unfold cloneAll
  apply cloneAll_go_copied hextends hclone hc hvs
  simp

theorem Copying.Sound.startArray {c : Copying} (hc : c.Sound) (r : Nat) :
    Copying.Sound { c with
      store := (c.store.addArray #[]).2, arrays := (r, c.store.arrays.size) :: c.arrays } := by
  have hst : c.store.Grows (c.store.addArray #[]).2 := by constructor <;> simp [Store.addArray]
  have hs : (c.store.addArray #[]).2.Sound := hc.store.addArray (by simp)
  refine { hc.extend hs hst with arrays := ?_ }
  rw [List.forall_mem_cons]
  constructor
  . simp [Store.addArray]
  . apply (hc.extend hs hst).arrays

theorem Copying.Sound.startRecord {c : Copying} (hc : c.Sound) {blank : Record}
    (hblank : c.store.SoundRecord blank) (r : Nat) :
    Copying.Sound { c with
      store := (c.store.addRecord blank).2, records := (r, c.store.records.size) :: c.records } := by
  have hst : c.store.Grows (c.store.addRecord blank).2 := by
    constructor <;> simp [Store.addRecord]
  have hs := hc.store.addRecord hblank
  refine { hc.extend hs hst with records := ?_ }
  rw [List.forall_mem_cons]
  constructor
  . simp [Store.addRecord]
  . apply (hc.extend hs hst).records

theorem CopiedAll.array {c : Copying} {r : List Value × Copying} (h : CopiedAll c r) {copy : Nat}
    (hcopy : copy < c.store.arrays.size) :
    Copied (array copy, { r.2 with store := { r.2.store with
      arrays := r.2.store.arrays.setIfInBounds copy r.1.toArray } }) where
  sound := by
    apply h.sound.extend
    . apply h.sound.store.setArray
      simpa using h.within
    . constructor <;> simp
  within := by
    simp only [Within, Array.size_setIfInBounds]
    apply Nat.lt_of_lt_of_le hcopy h.grows.arrays

theorem CopiedAll.record {c : Copying} {r : List Value × Copying} (h : CopiedAll c r)
    {copy type : Nat} (hcopy : copy < c.store.records.size) (htype : type < c.store.recordTypes.size)
    (members : List String) :
    Copied (record copy, { r.2 with store := { r.2.store with
      records := r.2.store.records.setIfInBounds copy ⟨type, members.zip r.1⟩ } }) where
  sound := by
    apply h.sound.extend
    . apply h.sound.store.setRecord
      refine ⟨Nat.lt_of_lt_of_le htype h.grows.recordTypes, ?_⟩
      intro p hp
      apply h.within
      apply (List.of_mem_zip hp).2
    . constructor <;> simp
  within := by
    simp only [Within, Array.size_setIfInBounds]
    apply Nat.lt_of_lt_of_le hcopy h.grows.records

-- An array is among the copies before its elements are copied, so that a cycle finds it there.
theorem cloneInto_copied (fuel : Nat) (v : Value) (c : Copying) (hc : c.Sound)
    (hv : v.Within c.store) : Copied (cloneInto fuel v c) := by
  induction fuel generalizing v c with
  | zero => apply cloneFlat_copied hc hv
  | succ fuel ih =>
    cases v with
    | array r =>
      simp only [cloneInto]
      split
      case h_1 copy hcopy => exact ⟨hc, hc.arrays _ (Store.mem_of_lookup hcopy)⟩
      case h_2 =>
        have hstart := hc.startArray r
        have hall := cloneAll_copied (cloneInto_extends fuel) ih hstart
          (fun v hv => hstart.store.array r v (Array.mem_toList_iff.1 hv))
        apply hall.array
        simp [Store.addArray]
    | record r =>
      simp only [cloneInto]
      split
      case h_1 copy hcopy => exact ⟨hc, hc.records _ (Store.mem_of_lookup hcopy)⟩
      case h_2 =>
        have hr := hc.store.record hv
        have hblank : c.store.SoundRecord ⟨(c.store.record r).type, []⟩ := ⟨hr.type, by simp⟩
        have hstart := hc.startRecord hblank r
        have hst : c.store.Grows (c.store.addRecord ⟨(c.store.record r).type, []⟩).2 := by
          constructor <;> simp [Store.addRecord]
        have hvs : ∀ v ∈ (c.store.record r).fields.map Prod.snd,
            v.Within (c.store.addRecord ⟨(c.store.record r).type, []⟩).2 := by
          intro v hv
          obtain ⟨p, hp, rfl⟩ := List.mem_map.1 hv
          apply (hr.fields p hp).grows hst
        have hall := cloneAll_copied (cloneInto_extends fuel) ih hstart hvs
        apply hall.record
        . simp [Store.addRecord]
        . apply Nat.lt_of_lt_of_le hr.type hst.recordTypes
    | _ => apply cloneFlat_copied hc hv

theorem clone_copied {s : Store} {v : Value} (hs : s.Sound) (hv : v.Within s) :
    (clone s v).2.Sound ∧ (clone s v).1.Within (clone s v).2 := by
  have hstart : Copying.Sound { store := s } := ⟨hs, by simp, by simp⟩
  have := cloneInto_copied (s.arrays.size + s.records.size + 1) v _ hstart hv
  exact ⟨this.sound.store, this.within⟩

end Value

def soundRegime : Regime where
  store := Store.Sound
  value := fun s v => v.Within s
  frame := fun s f => f < s.frames.size
  node := Store.SoundNode

theorem Store.Sound.change {home : Option Nat} {s t : Store} (hs : s.Sound)
    (h : s.Change soundRegime home t) : t.Sound := by
  have hst := h.grows
  cases h with
  | bind _ hv => apply hs.bind hv
  | rebind hv => apply hs.rebind hv
  | addString => apply hs.plain hst <;> rfl
  | setChar => apply hs.plain hst <;> rfl
  | appendChars => apply hs.plain hst <;> rfl
  | addArray hvs => apply hs.addArray hvs
  | setElement hv => apply hs.setElement hv
  | pushElement hv => apply hs.pushElement hv
  | addRecordType => apply hs.plain hst <;> rfl
  | addBlankRecord ht => apply hs.addBlankRecord ht
  | setField hv => apply hs.setField hv
  | addClosure hframe hbody => apply hs.addClosure ⟨hframe, hbody⟩
  | clone hv => apply (Value.clone_copied hs hv).1

instance : soundRegime.Lawful where
  value_grows := Value.Within.grows
  frame_grows := fun hst hf => Nat.lt_of_lt_of_le hf hst.frames
  node_grows := Store.SoundNode.grows
  value_of_within := id
  frame_of_lt := id
  literal := fun h => (h.literal _ rfl).orNull
  lookup := Store.Sound.lookup
  element := fun hs h => hs.array _ _ (Array.mem_of_getElem? h)
  field := fun hs h => hs.fields _ _ (Store.mem_of_lookup h)
  closure := fun hs h => ⟨(hs.closure h).frame, (hs.closure h).body⟩
  clone := fun hs hv => (Value.clone_copied hs hv).2
  change := Store.Sound.change
  addFrame := fun hs hf => hs.addFrame fun _ hp => by
    cases hp
    apply hf

end LispScript
