import LispScript.Proofs.TwinSources

/-!
This module contains the proof that every record has the members of its type, no more and no fewer, in
the order of the type. A copy in the making lacks its fields for a while. So what is said of a step of
copying is that it leaves the records from before as they are, and that all those begun by it are
complete when it ends.
-/

namespace LispScript

variable {s t s₀ : Store} {a : Nat}

namespace Store

structure KeyedAt (s : Store) (a : Nat) : Prop where
  type : (s.record a).type < s.recordTypes.size
  keys : (s.record a).fields.map Prod.fst = (s.typeOf a).members

def Keyed (s : Store) : Prop :=
  ∀ a < s.records.size, s.KeyedAt a

theorem KeyedAt.of_same (h : s.KeyedAt a) (hrecord : t.record a = s.record a)
    (htypes : ∀ b < s.recordTypes.size, t.recordType b = s.recordType b)
    (hsize : s.recordTypes.size ≤ t.recordTypes.size) : t.KeyedAt a where
  type := by
    rw [hrecord]
    apply Nat.lt_of_lt_of_le h.type hsize
  keys := by
    unfold typeOf
    rw [hrecord, htypes _ h.type]
    apply h.keys

theorem KeyedAt.spared (h : s.KeyedAt a) (ha : a < s.records.size) {P : Realm → Nat → Prop}
    (hst : s.Spares P t) (hrecord : ¬ P .records a) (htypes : ∀ b, ¬ P .recordTypes b) :
    t.KeyedAt a :=
  h.of_same (hst.same .records a ha hrecord) (fun b hb => hst.same .recordTypes b hb (htypes b))
    (hst.grows .recordTypes)

theorem Keyed.plain (h : s.Keyed) (hrecords : t.records = s.records)
    (htypes : t.recordTypes = s.recordTypes) : t.Keyed := by
  have hsame (b : Nat) : t.recordType b = s.recordType b := by rw [recordType, recordType, htypes]
  intro a ha
  rw [hrecords] at ha
  apply (h a ha).of_same
  . rw [record, record, hrecords]
  . exact fun b _ => hsame b
  . exact Nat.le_of_eq (by rw [htypes])

end Store

namespace Value

/-! Copies. -/

/--
From `c` to `d` nothing that was there changes, and the records that are new have all their fields.
-/
structure Copying.Fills (c d : Copying) : Prop where
  spares : c.store.Spares (fun _ _ => False) d.store
  keyed : ∀ a, c.store.records.size ≤ a → a < d.store.records.size → d.store.KeyedAt a

namespace Copying.Fills

theorem refl (c : Copying) : c.Fills c where
  spares := ⟨fun _ => Nat.le_refl _, fun k a _ _ => .refl c.store k a⟩
  keyed := fun _ hold hnew => absurd hnew (Nat.not_lt.2 hold)

theorem trans {c d e : Copying} (hcd : c.Fills d) (hde : d.Fills e) : c.Fills e where
  spares := hcd.spares.trans hde.spares fun _ _ _ h => h
  keyed := by
    intro a hold hnew
    by_cases ha : a < d.store.records.size
    . exact (hcd.keyed a hold ha).spared ha hde.spares not_false fun _ => not_false
    . exact hde.keyed a (Nat.le_of_not_gt ha) hnew

theorem adds {c : Copying} {k : Realm} (h : c.store.Adds k t) (hk : k ≠ .records)
    (arrays records : List (Nat × Nat)) : c.Fills { store := t, arrays, records } where
  spares := h.spares _
  keyed := by
    intro a hold hnew
    exact absurd (h.eq_of_new hold hnew).1 hk.symm

theorem endArray {c d : Copying} (h : c.Fills d) {copy : Nat} (hcopy : c.store.arrays.size ≤ copy)
    (elements : Array Value) :
    c.Fills
      { d with store := { d.store with arrays := d.store.arrays.setIfInBounds copy elements } } where
  spares := by
    have hset := d.store.set_arrays_changes copy elements
    apply h.spares.trans (hset.spares (P := fun k a => k = .arrays ∧ a = copy) ⟨rfl, rfl⟩)
    rintro k a ha ⟨rfl, rfl⟩
    exact absurd ha (Nat.not_lt.2 hcopy)
  keyed := by
    intro a hold hnew
    exact (h.keyed a hold hnew).of_same rfl (fun _ _ => rfl) (Nat.le_refl _)

theorem endRecord {c d : Copying} {blank : Record} {records : List (Nat × Nat)}
    (h : Copying.Fills { c with store := (c.store.addRecord blank).2, records } d) (full : Record)
    (htype : full.type < c.store.recordTypes.size)
    (hkeys : full.fields.map Prod.fst = (c.store.recordType full.type).members) :
    c.Fills { d with store := { d.store with
      records := d.store.records.setIfInBounds c.store.records.size full } } := by
  have hadd := c.store.addRecord_adds blank
  have hset := d.store.set_records_changes c.store.records.size full
  have hspares : c.store.Spares (fun _ _ => False) d.store :=
    (hadd.spares _).trans h.spares fun _ _ _ h => h
  have hcopy : c.store.records.size < d.store.records.size :=
    Nat.lt_of_lt_of_le hadd.lt (h.spares.grows .records)
  constructor
  . apply hspares.trans (hset.spares (P := fun k a => k = .records ∧ a = c.store.records.size) ⟨rfl, rfl⟩)
    rintro k a ha ⟨rfl, rfl⟩
    exact absurd ha (Nat.lt_irrefl _)
  . intro a hold hnew
    have hnew : a < d.store.records.size := by simpa using hnew
    by_cases ha : a = c.store.records.size
    . subst ha
      have hfull := Store.record_set_records hcopy full
      constructor
      . rw [hfull]
        apply Nat.lt_of_lt_of_le htype (hspares.grows .recordTypes)
      . rw [Store.typeOf, hfull, hkeys]
        rw [← show _ = c.store.recordType full.type from hspares.same .recordTypes _ htype not_false]
        rfl
    . have hlater : (c.store.addRecord blank).2.records.size ≤ a := by
        have := hadd.new
        simp only [Store.extent] at this
        omega
      exact (h.keyed a hlater hnew).of_same (hset.same .records a (by simpa using ha)) (fun _ _ => rfl)
        (Nat.le_refl _)

end Copying.Fills

theorem cloneFlat_fills (v : Value) (c : Copying) : c.Fills (cloneFlat v c).2 := by
  cases v with
  | string r => exact .adds (c.store.addString_adds _) nofun _ _
  | recordType r => exact .adds (c.store.addRecordType_adds _) nofun _ _
  | closure r => exact .adds (c.store.addClosure_adds _) nofun _ _
  | _ => exact .refl c

/--
Values of the store `s₀` are copied, which is part of the store at any time.
-/
def Fills (s₀ : Store) (clone : Value → Copying → Value × Copying) : Prop :=
  ∀ v (c : Copying), v.Within s₀ → s₀.Spares (fun _ _ => False) c.store → c.Fills (clone v c).2

theorem Fills.cloneAll {clone : Value → Copying → Value × Copying} (hclone : Fills s₀ clone)
    {vs : List Value} {c : Copying} (hvs : ∀ v ∈ vs, v.Within s₀)
    (hc : s₀.Spares (fun _ _ => False) c.store) :
    c.Fills (cloneAll clone vs c).2 ∧ (cloneAll clone vs c).1.length = vs.length := by
  have hgo : ∀ copies : List Value, c.Fills (cloneAll.go clone vs copies c).2 ∧
      (cloneAll.go clone vs copies c).1.length = copies.length + vs.length := by
    induction vs generalizing c with
    | nil =>
      intro copies
      exact ⟨.refl c, by simp [cloneAll.go]⟩
    | cons v vs ih =>
      intro copies
      rw [List.forall_mem_cons] at hvs
      have hfirst := hclone v c hvs.1 hc
      obtain ⟨hrest, hlength⟩ :=
        ih hvs.2 (hc.trans hfirst.spares fun _ _ _ h => h) ((clone v c).1 :: copies)
      refine ⟨hfirst.trans hrest, ?_⟩
      rw [cloneAll.go, hlength]
      simp only [List.length_cons]
      omega
  have := hgo []
  simpa [Value.cloneAll] using this

theorem cloneInto_fills (hs : s₀.Sound) (hkeyed : s₀.Keyed) (fuel : Nat) :
    Fills s₀ (cloneInto fuel) := by
  induction fuel with
  | zero =>
    intro v c _ _
    apply cloneFlat_fills
  | succ fuel ih =>
    intro v c hv hc
    cases v with
    | array r =>
      simp only [cloneInto]
      split
      . exact .refl c
      . have hbegin := Copying.Fills.adds (c.store.addArray_adds #[]) (by simp)
          ((r, c.store.arrays.size) :: c.arrays) c.records
        have hc₁ := hc.trans hbegin.spares fun _ _ _ h => h
        have helements : ∀ v ∈ ((c.store.addArray #[]).2.array r).toList, v.Within s₀ := by
          rw [show _ = s₀.array r from hc₁.same .arrays r hv not_false]
          intro v hv
          exact hs.array r v (Array.mem_toList_iff.1 hv)
        obtain ⟨hall, _⟩ := ih.cloneAll helements hc₁
        exact (hbegin.trans hall).endArray (Nat.le_refl _) _
    | record r =>
      simp only [cloneInto]
      split
      . exact .refl c
      . have hsource : c.store.record r = s₀.record r := hc.same .records r hv not_false
        have hkeys := (hkeyed r hv).spared hv hc not_false fun _ => not_false
        let blank : Record := { type := (c.store.record r).type, fields := [] }
        have hc₁ := hc.trans ((c.store.addRecord_adds blank).spares _) fun _ _ _ h => h
        have hvalues : ∀ v ∈ (c.store.record r).fields.map Prod.snd, v.Within s₀ := by
          rw [hsource]
          intro v hv
          obtain ⟨p, hp, rfl⟩ := List.mem_map.1 hv
          exact hs.fields r p hp
        obtain ⟨hall, hlength⟩ := ih.cloneAll
          (c := { c with store := (c.store.addRecord blank).2
                         records := (r, c.store.records.size) :: c.records }) hvalues hc₁
        refine hall.endRecord ⟨(c.store.record r).type, _⟩ hkeys.type ?_
        rw [List.map_fst_zip, hkeys.keys]
        . rfl
        . simpa using Nat.le_of_eq hlength.symm
    | _ => apply cloneFlat_fills

theorem clone_keyed (hs : s.Sound) (hkeyed : s.Keyed) {v : Value} (hv : v.Within s) :
    (clone s v).2.Keyed := by
  have hstart := Copying.Fills.refl { store := s }
  have hfills := cloneInto_fills hs hkeyed (s.arrays.size + s.records.size + 1) v { store := s } hv
    hstart.spares
  intro a ha
  by_cases hold : a < s.records.size
  . exact (hkeyed a hold).spared hold hfills.spares not_false fun _ => not_false
  . exact hfills.keyed a (Nat.le_of_not_gt hold) ha

end Value

/-! Evaluations. -/

namespace Store

theorem Keyed.addRecordType (h : s.Keyed) (type : RecordType) : (s.addRecordType type).2.Keyed := by
  have hadd := s.addRecordType_adds type
  intro a ha
  exact (h a ha).spared ha (hadd.spares fun _ _ => False) not_false fun _ => not_false

theorem Keyed.addBlankRecord (h : s.Keyed) {type : Nat} (ht : type < s.recordTypes.size) :
    (s.addBlankRecord type).2.Keyed := by
  have hadd := s.addRecord_adds { type, fields := (s.recordType type).members.map (·, .null) }
  intro a ha
  by_cases hold : a < s.records.size
  . exact (h a hold).spared hold (hadd.spares fun _ _ => False) not_false fun _ => not_false
  . have ha : a = s.records.size := (hadd.eq_of_new (j := .records) (Nat.le_of_not_gt hold) ha).2
    have hrecord : (s.addBlankRecord type).2.record a
        = { type, fields := (s.recordType type).members.map (·, .null) } := by
      rw [ha]
      exact s.record_addRecord _
    constructor
    . rw [hrecord]
      exact ht
    . rw [typeOf, hrecord, List.map_map]
      exact List.map_id _

theorem Keyed.setField (h : s.Keyed) (ref : Nat) (member : String) (v : Value) :
    (s.setField ref member v).Keyed := by
  have hset := s.modify_records_changes ref fun r => { r with fields := replaceValue member v r.fields }
  intro a hlt
  have ha : a < s.records.size := by simpa [Store.setField] using hlt
  by_cases href : a = ref
  . subst href
    have hrecord : (s.setField a member v).record a
        = { s.record a with fields := replaceValue member v (s.record a).fields } :=
      getD_modify_self ha _ _
    constructor
    . rw [hrecord]
      exact (h a ha).type
    . rw [typeOf, hrecord]
      calc (replaceValue member v (s.record a).fields).map Prod.fst
        _ = (s.record a).fields.map Prod.fst :=
          Confined.names_replaceValue { parent := none, bindings := (s.record a).fields } member v
        _ = (s.typeOf a).members := (h a ha).keys
  . exact (h a ha).of_same (hset.same .records a (by simpa using href)) (fun _ _ => rfl) (Nat.le_refl _)

end Store

def keyedRegime : Regime :=
  { soundRegime with store := fun s => s.Sound ∧ s.Keyed }

theorem Store.Change.sound {home : Option Nat} (h : s.Change keyedRegime home t) :
    s.Change soundRegime home t := by
  cases h
  all_goals
    constructor
    all_goals assumption

theorem Store.Keyed.change {home : Option Nat} (hs : s.Sound) (hkeyed : s.Keyed)
    (h : s.Change keyedRegime home t) : t.Keyed := by
  cases h with
  | addRecordType t => exact hkeyed.addRecordType t
  | addBlankRecord ht => exact hkeyed.addBlankRecord ht
  | setField hv => exact hkeyed.setField _ _ _
  | clone hv => exact Value.clone_keyed hs hkeyed hv
  | _ => exact hkeyed.plain rfl rfl

instance : keyedRegime.Lawful where
  value_grows := Value.Within.grows
  frame_grows := fun hst hf => Nat.lt_of_lt_of_le hf hst.frames
  node_grows := Store.SoundNode.grows
  value_of_within := id
  frame_of_lt := id
  literal := fun h => (h.literal _ rfl).orNull
  lookup := fun hs h => hs.1.lookup h
  element := fun hs h => hs.1.array _ _ (Array.mem_of_getElem? h)
  field := fun hs h => hs.1.fields _ _ (Store.mem_of_lookup h)
  closure := fun hs h => ⟨(hs.1.closure h).frame, (hs.1.closure h).body⟩
  clone := fun hs hv => (Value.clone_copied hs.1 hv).2
  change := fun hs h => ⟨hs.1.change h.sound, hs.2.change hs.1 h⟩
  addFrame := fun hs hf => ⟨Regime.Lawful.addFrame (G := soundRegime) hs.1 hf, hs.2.plain rfl rfl⟩

theorem Machine.evaluate_keyed {m : Machine} {root : Nat} (hm : m.Fit root) (hkeyed : m.store.Keyed)
    (context : Context) {e : Expr Value} (he : e.Every m.store.SoundNode) :
    (m.evaluate context root e).2.store.Keyed := by
  have h := (Run.eval_keeps (G := keyedRegime) (Run.any_escapes context) unbounded root e m
    ⟨hm.store, hkeyed⟩ hm.root he).2
  unfold evaluate run Run.refuseBreak
  cases hr : eval context unbounded root e m with
  | ok v m' =>
    rw [hr] at h
    exact h.1.2
  | error i m' =>
    rw [hr] at h
    cases i with
    | breakLoop location => exact h.1.2
    | failure f => exact h.1.2
    | exhausted => exact h.1.2

namespace Job

variable {files : Files} {root : Nat}

theorem evalForms_go_keyed (context : Context) {forms : List (Expr Value)} {last : Value}
    {w : Workspace} (hw : w.machine.Fit root) (hkeyed : w.machine.store.Keyed)
    (hforms : ∀ e ∈ forms, e.Every w.machine.store.SoundNode) :
    ((evalForms.go context root last forms).result files w).2.machine.store.Keyed := by
  induction forms generalizing last w with
  | nil => exact hkeyed
  | cons e rest ih =>
    rw [List.forall_mem_cons] at hforms
    obtain ⟨hfit, hgrows, _⟩ := Machine.evaluate_told hw context hforms.1
    have hfirst := Machine.evaluate_keyed hw hkeyed context hforms.1
    cases hr : (w.machine.evaluate context root e).1 with
    | error f =>
      rw [evalForms_go_error hr]
      exact hfirst
    | ok v =>
      obtain ⟨w', hw', hrest⟩ := evalForms_go_ok hr
      rw [← hw'] at hfit hgrows hfirst
      rw [hrest]
      apply ih hfit hfirst
      intro e' he'
      apply (hforms.2 e' he').mono
      intro location form
      apply Store.SoundNode.grows hgrows

theorem evalSource_keyed (file : String) (source : Text) {w : Workspace} (hw : w.machine.Fit root)
    (hkeyed : w.machine.store.Keyed) :
    ((evalSource root file source).result files w).2.machine.store.Keyed := by
  have hparsed := Expr.parse_parsed file source.chars
  cases hparse : Expr.parse file source.chars with
  | error e =>
    rw [evalSource_error hparse]
    exact hkeyed
  | ok forms =>
    rw [hparse] at hparsed
    rw [evalSource_ok hparse]
    obtain ⟨hfit, _, hforms⟩ := loaded_fit hparsed hw
    have hload := Expr.loadAll_loaded (fun e he => Expr.load_loaded (hparsed e he)) w.machine.store
    exact evalForms_go_keyed _ hfit (hkeyed.plain hload.loads.records hload.loads.recordTypes) hforms

theorem evalSources_keyed (texts : List (String × Text)) {w : Workspace} (hw : w.machine.Fit root)
    (hkeyed : w.machine.store.Keyed) :
    ((evalSources root texts).result files w).2.machine.store.Keyed := by
  induction texts generalizing w with
  | nil => exact hkeyed
  | cons text rest ih =>
    obtain ⟨file, source⟩ := text
    rw [evalSources, result_bind, result_bind]
    have hfirst : Settles files root w _ := evalSource_settles file source hw
    exact ih hfirst.fit (evalSource_keyed file source hw hkeyed)

end Job

end LispScript
