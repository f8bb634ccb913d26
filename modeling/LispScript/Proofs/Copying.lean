import LispScript.Proofs.Observation

/-!
This module contains the proof that copies are made alike in two stores that are alike. The objects that
are copied are those of the stores `s₀` and `t₀` at the beginning; they stay as they are, so that each
value that is still to be copied is alike under the first renaming `ρ₀`. The renaming `ρ` of the moment
has the copies too.
-/

namespace LispScript

open Value (Copying)

variable {L : Likeness} {ρ₀ ρ ρ' : Renaming} {s₀ t₀ s' t' : Store}

/--
The number of copies that have been begun.
-/
def Value.Copying.size (c : Copying) : Nat :=
  c.arrays.length + c.records.length

/--
The objects of one realm that are copied, with their copies.
-/
structure CopiesAlike (ρ₀ ρ : Renaming) (k : Realm) (copies copies' : List (Nat × Nat)) : Prop where
  pairs : List.Forall₂ (fun p q => ρ₀ k p.1 q.1 ∧ ρ k p.2 q.2) copies copies'
  left : (copies.map Prod.fst).Nodup
  right : (copies'.map Prod.fst).Nodup

namespace CopiesAlike

variable {k : Realm} {copies copies' : List (Nat × Nat)}

theorem mono (h : CopiesAlike ρ₀ ρ k copies copies') (hρ : ρ ≤ ρ') :
    CopiesAlike ρ₀ ρ' k copies copies' where
  pairs := h.pairs.imp fun _ _ hp => ⟨hp.1, hρ _ _ _ hp.2⟩
  left := h.left
  right := h.right

theorem lookup (h : CopiesAlike ρ₀ ρ k copies copies') (hbase : s₀.Alike L ρ₀ t₀) {a b : Nat}
    (hab : ρ₀ k a b) : Option.Rel (ρ k) (copies.lookup a) (copies'.lookup b) := by
  have hpairs := h.pairs
  clear h
  induction hpairs with
  | nil => exact .none
  | cons hpq _ ih =>
    rw [List.lookup_cons, List.lookup_cons, hbase.eq_iff hab hpq.1]
    split
    . exact .some hpq.2
    . exact ih

theorem mem_keys_of_lookup {copies : List (Nat × Nat)} {a : Nat} (h : copies.lookup a = none) :
    a ∉ copies.map Prod.fst := by
  intro ha
  obtain ⟨p, hp, rfl⟩ := List.mem_map.1 ha
  have := List.lookup_eq_none_iff.1 h p hp
  simp at this

theorem cons (h : CopiesAlike ρ₀ ρ k copies copies') {a b copy copy' : Nat} (hab : ρ₀ k a b)
    (hcopy : ρ k copy copy') (ha : copies.lookup a = none) (hb : copies'.lookup b = none) :
    CopiesAlike ρ₀ ρ k ((a, copy) :: copies) ((b, copy') :: copies') where
  pairs := .cons ⟨hab, hcopy⟩ h.pairs
  left := List.nodup_cons.2 ⟨mem_keys_of_lookup ha, h.left⟩
  right := List.nodup_cons.2 ⟨mem_keys_of_lookup hb, h.right⟩

theorem length_le (h : CopiesAlike ρ₀ ρ k copies copies') (hbase : s₀.Alike L ρ₀ t₀) :
    copies.length ≤ s₀.extent k ∧ copies'.length ≤ t₀.extent k := by
  constructor
  . rw [← List.length_map Prod.fst]
    apply length_le_of_nodup h.left
    intro a ha
    obtain ⟨p, hp, rfl⟩ := List.mem_map.1 ha
    obtain ⟨q, hpq, _⟩ := left_of_forall₂ h.pairs p hp
    exact (hbase.bounds hpq).1
  . rw [← List.length_map Prod.fst]
    apply length_le_of_nodup h.right
    intro b hb
    obtain ⟨q, hq, rfl⟩ := List.mem_map.1 hb
    obtain ⟨p, hpq, _⟩ := left_of_forall₂ h.pairs.flip q hq
    exact (hbase.bounds hpq).2

end CopiesAlike

structure CopyingAlike (L : Likeness) (ρ₀ ρ : Renaming) (s₀ t₀ : Store) (c d : Copying) : Prop where
  passage : s₀.Passage L ρ₀ ρ t₀ c.store d.store
  left : s₀.Spares (fun _ _ => False) c.store
  right : t₀.Spares (fun _ _ => False) d.store
  arrays : CopiesAlike ρ₀ ρ .arrays c.arrays d.arrays
  records : CopiesAlike ρ₀ ρ .records c.records d.records

namespace CopyingAlike

variable {c d : Copying}

theorem size_eq (h : CopyingAlike L ρ₀ ρ s₀ t₀ c d) : c.size = d.size := by
  simp only [Copying.size, h.arrays.pairs.length_eq, h.records.pairs.length_eq]

theorem size_le (h : CopyingAlike L ρ₀ ρ s₀ t₀ c d) (hbase : s₀.Alike L ρ₀ t₀) :
    c.size ≤ s₀.arrays.size + s₀.records.size ∧ d.size ≤ t₀.arrays.size + t₀.records.size := by
  have harrays := h.arrays.length_le hbase
  have hrecords := h.records.length_le hbase
  simp only [Store.extent] at harrays hrecords
  simp only [Copying.size]
  omega

theorem add {k : Realm} (h : CopyingAlike L ρ₀ ρ s₀ t₀ c d) (hs : c.store.Adds k s')
    (ht : d.store.Adds k t')
    (hnew : s'.Match L (ρ.add k (c.store.extent k) (d.store.extent k)) t' k (c.store.extent k)
      (d.store.extent k)) :
    CopyingAlike L ρ₀ (ρ.add k (c.store.extent k) (d.store.extent k)) s₀ t₀ { c with store := s' }
      { d with store := t' } where
  passage := h.passage.trans (h.passage.alike.add hs ht hnew)
  left := h.left.trans (hs.spares _) fun _ _ _ h => h
  right := h.right.trans (ht.spares _) fun _ _ _ h => h
  arrays := h.arrays.mono (ρ.le_add _ _ _)
  records := h.records.mono (ρ.le_add _ _ _)

/--
Only copies change.
-/
theorem change {k : Realm} {a b : Nat} (h : CopyingAlike L ρ₀ ρ s₀ t₀ c d) (hab : ρ k a b)
    (hk : k ≠ .strings) (ha : s₀.extent k ≤ a) (hb : t₀.extent k ≤ b) (hs : c.store.Changes k a s')
    (ht : d.store.Changes k b t') (hnew : s'.Match L ρ t' k a b) :
    CopyingAlike L ρ₀ ρ s₀ t₀ { c with store := s' } { d with store := t' } where
  passage := h.passage.trans (h.passage.alike.change hab hs ht hnew fun hstrings => absurd hstrings hk)
  left := by
    apply h.left.trans (hs.spares (P := fun j e => j = k ∧ e = a) ⟨rfl, rfl⟩)
    rintro j e he ⟨rfl, rfl⟩
    exact absurd he (Nat.not_lt.2 ha)
  right := by
    apply h.right.trans (ht.spares (P := fun j e => j = k ∧ e = b) ⟨rfl, rfl⟩)
    rintro j e he ⟨rfl, rfl⟩
    exact absurd he (Nat.not_lt.2 hb)
  arrays := h.arrays
  records := h.records

/--
A copy has been made on both sides, from `c` and `d` on.
-/
def Copies (L : Likeness) (ρ₀ ρ : Renaming) (s₀ t₀ : Store) {α β : Type}
    (Q : Renaming → α → β → Prop) (c : Copying) (r : α × Copying) (r' : β × Copying) : Prop :=
  ∃ ρ', ρ ≤ ρ' ∧ CopyingAlike L ρ₀ ρ' s₀ t₀ r.2 r'.2 ∧ c.size ≤ r.2.size ∧ Q ρ' r.1 r'.1

theorem cloneFlat (h : CopyingAlike L ρ₀ ρ s₀ t₀ c d) {v w : Value} (hvw : v.Alike ρ₀ w) :
    Copies L ρ₀ ρ s₀ t₀ Value.Alike c (v.cloneFlat c) (w.cloneFlat d) := by
  have hvw := hvw.mono h.passage.le
  have halike := h.passage.alike
  cases hvw with
  | string hab =>
    refine ⟨_, ρ.le_add _ _ _, h.add (c.store.addString_adds _) (d.store.addString_adds _) ?_,
      Nat.le_refl _, .string (ρ.add_self _ _ _)⟩
    simp only [Store.Match, Store.extent, Store.string_addString, TextBuffer.clone, halike.chars hab]
    exact .refl _
  | recordType hab =>
    refine ⟨_, ρ.le_add _ _ _, h.add (c.store.addRecordType_adds _) (d.store.addRecordType_adds _) ?_,
      Nat.le_refl _, .recordType (ρ.add_self _ _ _)⟩
    simp only [Store.Match, Store.extent, Store.recordType_addRecordType]
    exact halike.objects hab
  | closure hab =>
    refine ⟨_, ρ.le_add _ _ _, h.add (c.store.addClosure_adds _) (d.store.addClosure_adds _) ?_,
      Nat.le_refl _, .closure (ρ.add_self _ _ _)⟩
    simp only [Store.Match, Store.extent, Store.closure_addClosure]
    exact (halike.closure hab).mono (ρ.le_add _ _ _)
  | _ => exact ⟨ρ, le_rfl, h, Nat.le_refl _, by constructor <;> assumption⟩

theorem cloneAll {f f' : Value → Copying → Value × Copying} {n : Nat}
    (hf : ∀ {ρ c d v w}, CopyingAlike L ρ₀ ρ s₀ t₀ c d → n ≤ c.size → v.Alike ρ₀ w →
      Copies L ρ₀ ρ s₀ t₀ Value.Alike c (f v c) (f' w d))
    (h : CopyingAlike L ρ₀ ρ s₀ t₀ c d) (hn : n ≤ c.size) {vs ws : List Value}
    (hvs : ValuesAlike ρ₀ vs ws) :
    Copies L ρ₀ ρ s₀ t₀ ValuesAlike c (Value.cloneAll f vs c) (Value.cloneAll f' ws d) := by
  have hgo : ∀ {copies copies' : List Value}, ValuesAlike ρ copies copies' →
      Copies L ρ₀ ρ s₀ t₀ ValuesAlike c (Value.cloneAll.go f vs copies c)
        (Value.cloneAll.go f' ws copies' d) := by
    induction hvs generalizing ρ c d with
    | nil =>
      intro copies copies' hcopies
      exact ⟨ρ, le_rfl, h, Nat.le_refl _, List.rel_reverse hcopies⟩
    | cons hvw _ ih =>
      intro copies copies' hcopies
      obtain ⟨ρ₁, hρ₁, h₁, hsize₁, hcopy⟩ := hf h hn hvw
      obtain ⟨ρ₂, hρ₂, h₂, hsize₂, hall⟩ :=
        ih h₁ (Nat.le_trans hn hsize₁) (.cons hcopy (ValuesAlike.mono hcopies hρ₁))
      exact ⟨ρ₂, le_trans hρ₁ hρ₂, h₂, Nat.le_trans hsize₁ hsize₂, hall⟩
  exact hgo .nil

theorem keys_of_entries {ps qs : List (String × Value)} (h : EntriesAlike ρ ps qs) :
    ps.map Prod.fst = qs.map Prod.fst :=
  map_eq_of_forall₂ h fun _ _ hpq => hpq.1

theorem values_of_entries {ps qs : List (String × Value)} (h : EntriesAlike ρ ps qs) :
    ValuesAlike ρ (ps.map Prod.snd) (qs.map Prod.snd) := by
  rw [ValuesAlike, List.forall₂_map_left_iff, List.forall₂_map_right_iff]
  exact h.imp fun _ _ hpq => hpq.2

theorem zip_entries {keys : List String} {vs ws : List Value} (h : ValuesAlike ρ vs ws) :
    EntriesAlike ρ (keys.zip vs) (keys.zip ws) := by
  induction h generalizing keys with
  | nil => simp
  | cons hvw _ ih =>
    cases keys with
    | nil => exact .nil
    | cons key keys => exact .cons ⟨rfl, hvw⟩ ih

theorem beginArray (h : CopyingAlike L ρ₀ ρ s₀ t₀ c d) {a b : Nat} (hab : ρ₀ .arrays a b)
    (ha : c.arrays.lookup a = none) (hb : d.arrays.lookup b = none) :
    CopyingAlike L ρ₀ (ρ.add .arrays c.store.arrays.size d.store.arrays.size) s₀ t₀
      { c with store := (c.store.addArray #[]).2, arrays := (a, c.store.arrays.size) :: c.arrays }
      { d with store := (d.store.addArray #[]).2, arrays := (b, d.store.arrays.size) :: d.arrays } := by
  have hadd := h.add (c.store.addArray_adds #[]) (d.store.addArray_adds #[])
    (by simp only [Store.Match, Store.extent, Store.array_addArray]; exact .nil)
  exact ⟨hadd.passage, hadd.left, hadd.right, hadd.arrays.cons hab (ρ.add_self _ _ _) ha hb,
    hadd.records⟩

theorem endArray (h : CopyingAlike L ρ₀ ρ s₀ t₀ c d) {copy copy' : Nat} (hcopy : ρ .arrays copy copy')
    (hnew : s₀.arrays.size ≤ copy) (hnew' : t₀.arrays.size ≤ copy') {vs ws : List Value}
    (hvs : ValuesAlike ρ vs ws) :
    CopyingAlike L ρ₀ ρ s₀ t₀
      { c with store := { c.store with arrays := c.store.arrays.setIfInBounds copy vs.toArray } }
      { d with store := { d.store with arrays := d.store.arrays.setIfInBounds copy' ws.toArray } } := by
  have hbounds := h.passage.alike.bounds hcopy
  apply h.change hcopy nofun hnew hnew' (c.store.set_arrays_changes _ _) (d.store.set_arrays_changes _ _)
  simp only [Store.Match, Store.array_set_arrays hbounds.1, Store.array_set_arrays hbounds.2]
  exact hvs

theorem beginRecord (h : CopyingAlike L ρ₀ ρ s₀ t₀ c d) {a b : Nat} (hab : ρ₀ .records a b)
    (ha : c.records.lookup a = none) (hb : d.records.lookup b = none) {type type' : Nat}
    (htype : ρ .recordTypes type type') :
    CopyingAlike L ρ₀ (ρ.add .records c.store.records.size d.store.records.size) s₀ t₀
      { c with
        store := (c.store.addRecord { type, fields := [] }).2
        records := (a, c.store.records.size) :: c.records }
      { d with
        store := (d.store.addRecord { type := type', fields := [] }).2
        records := (b, d.store.records.size) :: d.records } := by
  have hadd := h.add (c.store.addRecord_adds { type, fields := [] })
    (d.store.addRecord_adds { type := type', fields := [] })
    (by
      simp only [Store.Match, Store.extent, Store.record_addRecord]
      exact ⟨ρ.le_add _ _ _ _ _ _ htype, .nil⟩)
  exact ⟨hadd.passage, hadd.left, hadd.right, hadd.arrays,
    hadd.records.cons hab (ρ.add_self _ _ _) ha hb⟩

theorem endRecord (h : CopyingAlike L ρ₀ ρ s₀ t₀ c d) {copy copy' : Nat} (hcopy : ρ .records copy copy')
    (hnew : s₀.records.size ≤ copy) (hnew' : t₀.records.size ≤ copy') {r r' : Record}
    (hr : r.Alike ρ r') :
    CopyingAlike L ρ₀ ρ s₀ t₀
      { c with store := { c.store with records := c.store.records.setIfInBounds copy r } }
      { d with store := { d.store with records := d.store.records.setIfInBounds copy' r' } } := by
  have hbounds := h.passage.alike.bounds hcopy
  apply h.change hcopy nofun hnew hnew' (c.store.set_records_changes _ _) (d.store.set_records_changes _ _)
  simp only [Store.Match, Store.record_set_records hbounds.1, Store.record_set_records hbounds.2]
  exact hr

theorem cloneInto (hbase : s₀.Alike L ρ₀ t₀) (h : CopyingAlike L ρ₀ ρ s₀ t₀ c d) {v w : Value}
    (hvw : v.Alike ρ₀ w) {fuel fuel' : Nat}
    (hfuel : s₀.arrays.size + s₀.records.size < fuel + c.size)
    (hfuel' : t₀.arrays.size + t₀.records.size < fuel' + d.size) :
    Copies L ρ₀ ρ s₀ t₀ Value.Alike c (v.cloneInto fuel c) (w.cloneInto fuel' d) := by
  induction fuel generalizing ρ c d v w fuel' with
  | zero =>
    have := h.size_le hbase
    omega
  | succ fuel ih =>
    obtain _ | fuel' := fuel'
    . have := h.size_le hbase
      omega
    . have hflat := h.cloneFlat hvw
      have hinner : ∀ {ρ c' d'} {v w : Value}, CopyingAlike L ρ₀ ρ s₀ t₀ c' d' → c.size + 1 ≤ c'.size →
          v.Alike ρ₀ w →
          Copies L ρ₀ ρ s₀ t₀ Value.Alike c' (v.cloneInto fuel c') (w.cloneInto fuel' d') := by
        intro ρ c' d' v w h' hsize hvw
        have := h.size_eq
        have := h'.size_eq
        exact ih h' hvw (by omega) (by omega)
      cases hvw with
      | @array a b hab =>
        simp only [Value.cloneInto]
        obtain ⟨hc, hd⟩ | ⟨copy, copy', hc, hd, hcopy⟩ := rel_cases (h.arrays.lookup hbase hab)
        . rw [hc, hd]
          have hbounds := hbase.bounds hab
          have h₁ := h.beginArray hab hc hd
          have helements := hbase.objects hab
          simp only [Store.Match] at helements
          rw [← show _ = s₀.array a from h₁.left.same .arrays a hbounds.1 not_false,
            ← show _ = t₀.array b from h₁.right.same .arrays b hbounds.2 not_false] at helements
          obtain ⟨ρ₂, hρ₂, h₂, hsize, hall⟩ := h₁.cloneAll hinner
            (by simp only [Copying.size, List.length_cons]; omega) helements
          have hcopy := hρ₂ _ _ _ (ρ.add_self .arrays c.store.arrays.size d.store.arrays.size)
          refine ⟨ρ₂, le_trans (ρ.le_add _ _ _) hρ₂, h₂.endArray hcopy (h.left.grows .arrays)
            (h.right.grows .arrays) hall, ?_, .array hcopy⟩
          simp only [Copying.size, List.length_cons] at hsize ⊢
          omega
        . rw [hc, hd]
          exact ⟨ρ, le_rfl, h, Nat.le_refl _, .array hcopy⟩
      | @record a b hab =>
        simp only [Value.cloneInto]
        obtain ⟨hc, hd⟩ | ⟨copy, copy', hc, hd, hcopy⟩ := rel_cases (h.records.lookup hbase hab)
        . rw [hc, hd]
          have hbounds := hbase.bounds hab
          have hrecord := hbase.record hab
          rw [← show _ = s₀.record a from h.left.same .records a hbounds.1 not_false,
            ← show _ = t₀.record b from h.right.same .records b hbounds.2 not_false] at hrecord
          have h₁ := h.beginRecord hab hc hd (h.passage.le _ _ _ hrecord.type)
          obtain ⟨ρ₂, hρ₂, h₂, hsize, hall⟩ := h₁.cloneAll hinner
            (by simp only [Copying.size, List.length_cons]; omega) (values_of_entries hrecord.fields)
          have hcopy := hρ₂ _ _ _ (ρ.add_self .records c.store.records.size d.store.records.size)
          have htype := hρ₂ _ _ _ (ρ.le_add _ _ _ _ _ _ (h.passage.le _ _ _ hrecord.type))
          refine ⟨ρ₂, le_trans (ρ.le_add _ _ _) hρ₂, h₂.endRecord hcopy (h.left.grows .records)
            (h.right.grows .records) ⟨htype, ?_⟩, ?_, .record hcopy⟩
          . rw [keys_of_entries hrecord.fields]
            exact zip_entries hall
          . simp only [Copying.size, List.length_cons] at hsize ⊢
            omega
        . rw [hc, hd]
          exact ⟨ρ, le_rfl, h, Nat.le_refl _, .record hcopy⟩
      | _ => exact hflat

end CopyingAlike

/--
Copies of values that are alike are alike, and nothing but the copies is new.
-/
theorem Store.Alike.clone {s t : Store} (h : s.Alike L ρ t) {v w : Value} (hvw : v.Alike ρ w) :
    ∃ ρ', s.Passage L ρ ρ' t (Value.clone s v).2 (Value.clone t w).2 ∧
      (Value.clone s v).1.Alike ρ' (Value.clone t w).1 := by
  have hstart : CopyingAlike L ρ ρ s t { store := s } { store := t } :=
    ⟨.refl h, .refl _ s, .refl _ t, ⟨.nil, .nil, .nil⟩, ⟨.nil, .nil, .nil⟩⟩
  have hfuel (u : Store) : u.arrays.size + u.records.size
      < u.arrays.size + u.records.size + 1 + Copying.size { store := u } := by
    simp [Copying.size]
  obtain ⟨ρ', _, hend, _, hcopy⟩ := hstart.cloneInto h hvw (hfuel s) (hfuel t)
  exact ⟨ρ', hend.passage, hcopy⟩

end LispScript
