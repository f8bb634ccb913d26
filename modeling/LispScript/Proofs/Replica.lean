import LispScript.Proofs.CopyStep

/-!
This module contains the proof that a copy has the shape of what it is a copy of, whatever cycles and
shared parts there are. A step of copying leaves alone whatever was there before it, and each object that is
new when it ends has all of its contents.
-/

namespace LispScript

namespace Value

/--
The value `w`, which belongs to the store `t`, is a copy of `v`; arrays and records are copied as `R` says.
-/
inductive CopyOf (s t : Store) (R : Value → Value → Prop) : Value → Value → Prop where
  | absent : CopyOf s t R .absent .null
  | null : CopyOf s t R .null .null
  | integer (n : Int64) : CopyOf s t R (.integer n) (.integer n)
  | real (x : Float) : CopyOf s t R (.real x) (.real x)
  | char (c : Char) : CopyOf s t R (.char c) (.char c)
  | boolean (b : Bool) : CopyOf s t R (.boolean b) (.boolean b)
  | string {a b : Nat} (hnew : s.strings.size ≤ b) (hb : b < t.strings.size)
      (h : (t.string b).chars = (s.string a).chars) : CopyOf s t R (.string a) (.string b)
  | recordType {a b : Nat} (hnew : s.recordTypes.size ≤ b) (hb : b < t.recordTypes.size)
      (h : t.recordType b = s.recordType a) : CopyOf s t R (.recordType a) (.recordType b)
  | closure {a b : Nat} (hnew : s.closures.size ≤ b) (hb : b < t.closures.size)
      (h : t.closure b = s.closure a) : CopyOf s t R (.closure a) (.closure b)
  | object {x y : Value} (hx : x.IsObject) (h : R x y) : CopyOf s t R x y

variable {s t u : Store} {R R' : Value → Value → Prop} {v w x y : Value} {c d e : Copying}

/--
A copy stays one while other arrays and records change.
-/
theorem CopyOf.mono (h : CopyOf s t R v w)
    (htu : t.Spares (fun k _ => k = .arrays ∨ k = .records) u) (hR : ∀ x y, R x y → R' x y) :
    CopyOf s u R' v w := by
  cases h with
  | string hnew hb h =>
    have hsame : u.string _ = t.string _ := htu.same .strings _ hb (by simp)
    exact .string hnew (Nat.lt_of_lt_of_le hb (htu.grows .strings)) (by rw [hsame, h])
  | recordType hnew hb h =>
    have hsame : u.recordType _ = t.recordType _ := htu.same .recordTypes _ hb (by simp)
    exact .recordType hnew (Nat.lt_of_lt_of_le hb (htu.grows .recordTypes)) (by rw [hsame, h])
  | closure hnew hb h =>
    have hsame : u.closure _ = t.closure _ := htu.same .closures _ hb (by simp)
    exact .closure hnew (Nat.lt_of_lt_of_le hb (htu.grows .closures)) (by rw [hsame, h])
  | object hx h => exact .object hx (hR _ _ h)
  | _ => constructor

/-! Steps. -/

/--
A copy according to the copies that have been begun.
-/
abbrev CopyIn (s : Store) (d : Copying) : Value → Value → Prop :=
  CopyOf s d.store fun x y => d.copy? x = some y

/--
The object `y` is the copy of another one, and has all of its contents.
-/
def Copying.Completed (s : Store) (d : Copying) (y : Value) : Prop :=
  ∃ x, d.copy? x = some y ∧ SameShape s d.store x y ∧
    List.Forall₂ (CopyIn s d) (contents s x) (contents d.store y)

/--
From `c` to `d`, copies `ws` of the values `vs` are made.
-/
structure Makes (s : Store) (c d : Copying) (vs ws : List Value) : Prop where
  begun : d.Begun s
  spares : c.store.Spares (fun _ _ => False) d.store
  keeps : ∀ x y, c.copy? x = some y → d.copy? x = some y
  size_le : c.size ≤ d.size
  values : List.Forall₂ (CopyIn s d) vs ws
  objects : ∀ y, y.IsObject → ¬ y.Within c.store → y.Within d.store → d.Completed s y

theorem SameShape.spared (h : SameShape s t x y) (htu : t.Spares (fun _ _ => False) u)
    (hy : y.Within t) : SameShape s u x y := by
  cases h with
  | array => exact .array _ _
  | record htype hkeys =>
    have hsame : u.record _ = t.record _ := htu.same .records _ hy not_false
    rw [← hsame] at htype hkeys
    exact .record htype hkeys

theorem SameShape.source_spared (h : SameShape t u x y) (hst : s.Spares (fun _ _ => False) t)
    (hx : x.Within s) : SameShape s u x y := by
  cases h with
  | array => exact .array _ _
  | record htype hkeys =>
    have hsame : t.record _ = s.record _ := hst.same .records _ hx not_false
    rw [hsame] at htype hkeys
    exact .record htype hkeys

theorem CopyIn.mono (h : CopyIn s d v w) (hde : d.store.Spares (fun _ _ => False) e.store)
    (hkeeps : ∀ x y, d.copy? x = some y → e.copy? x = some y) : CopyIn s e v w :=
  CopyOf.mono h ⟨hde.grows, fun k a ha _ => hde.same k a ha not_false⟩ hkeeps

theorem CopyIn.copy? (h : CopyIn s d x y) (hx : x.IsObject) : d.copy? x = some y := by
  cases h with
  | object _ h => exact h
  | _ => contradiction

theorem Copying.Completed.mono (h : d.Completed s y) (hy : y.Within d.store)
    (hde : d.store.Spares (fun _ _ => False) e.store)
    (hkeeps : ∀ x y, d.copy? x = some y → e.copy? x = some y) : e.Completed s y := by
  obtain ⟨x, hx, hshape, hcontents⟩ := h
  refine ⟨x, hkeeps x y hx, hshape.spared hde hy, ?_⟩
  rw [contents_spared hde hy]
  exact hcontents.imp fun _ _ h => CopyIn.mono h hde hkeeps

namespace Makes

variable {vs vs' ws ws' : List Value}

theorem known (hc : c.Begun s) (hv : v.IsObject) (h : c.copy? v = some w) : Makes s c c [v] [w] where
  begun := hc
  spares := .refl _ _
  keeps := fun _ _ => id
  size_le := Nat.le_refl _
  values := .cons (.object hv h) .nil
  objects := fun _ _ hout hin => absurd hin hout

theorem nil (hc : c.Begun s) : Makes s c c [] [] where
  begun := hc
  spares := .refl _ _
  keeps := fun _ _ => id
  size_le := Nat.le_refl _
  values := .nil
  objects := fun _ _ hout hin => absurd hin hout

theorem cons (h : Makes s c d [v] [w]) (h' : Makes s d e vs ws) : Makes s c e (v :: vs) (w :: ws) where
  begun := h'.begun
  spares := h.spares.trans h'.spares fun _ _ _ => id
  keeps := fun x y hxy => h'.keeps x y (h.keeps x y hxy)
  size_le := Nat.le_trans h.size_le h'.size_le
  values := .cons (CopyIn.mono (List.forall₂_cons.1 h.values).1 h'.spares h'.keeps) h'.values
  objects := by
    intro y hy hout hin
    by_cases hd : y.Within d.store
    . exact (h.objects y hy hout hd).mono hd h'.spares h'.keeps
    . exact h'.objects y hy hd hin

/--
A value is copied that is neither an array nor a record.
-/
theorem flat (hc : c.Begun s) (hflat : ¬ v.IsObject) (hv : v.orNull.Within s) :
    Makes s c (cloneFlat v c).2 [v] [(cloneFlat v c).1] := by
  -- At most one object is added, and it is neither an array nor a record.
  have hadds {k : Realm} {t : Store} {w : Value} (hadd : c.store.Adds k t) (harrays : k ≠ .arrays)
      (hrecords : k ≠ .records) (hvw : CopyIn s { c with store := t } v w) :
      Makes s c { c with store := t } [v] [w] := by
    have hspares := hadd.spares fun _ _ => False
    refine ⟨⟨hc.spares.trans hspares fun _ _ _ => id, hc.arrays.mono (hspares.grows .arrays),
      hc.records.mono (hspares.grows .records)⟩, hspares, fun _ _ => id, Nat.le_refl _,
      .cons hvw .nil, ?_⟩
    intro y hy hout hin
    cases y with
    | array a =>
      exact absurd (hadd.eq_of_new (j := .arrays) (Nat.le_of_not_lt hout) hin).1 harrays.symm
    | record a =>
      exact absurd (hadd.eq_of_new (j := .records) (Nat.le_of_not_lt hout) hin).1 hrecords.symm
    | _ => contradiction
  have hsame (hvw : CopyIn s c v v.orNull) : Makes s c c [v] [v.orNull] :=
    ⟨hc, .refl _ _, fun _ _ => id, Nat.le_refl _, .cons hvw .nil, fun _ _ hout hin => absurd hin hout⟩
  cases v with
  | string r =>
    have hadd := c.store.addString_adds (c.store.string r).clone
    refine hadds hadd nofun nofun (.string (hc.spares.grows .strings) hadd.lt ?_)
    rw [Store.string_addString, show c.store.string r = s.string r from hc.spares.same .strings r hv id]
    rfl
  | recordType r =>
    have hadd := c.store.addRecordType_adds (c.store.recordType r)
    refine hadds hadd nofun nofun (.recordType (hc.spares.grows .recordTypes) hadd.lt ?_)
    rw [Store.recordType_addRecordType]
    exact hc.spares.same .recordTypes r hv id
  | closure r =>
    have hadd := c.store.addClosure_adds (c.store.closure r)
    refine hadds hadd nofun nofun (.closure (hc.spares.grows .closures) hadd.lt ?_)
    rw [Store.closure_addClosure]
    exact hc.spares.same .closures r hv id
  | absent => exact hsame .absent
  | null => exact hsame .null
  | integer n => exact hsame (.integer n)
  | real x => exact hsame (.real x)
  | char x => exact hsame (.char x)
  | boolean b => exact hsame (.boolean b)
  | array | record => exact absurd trivial hflat

/--
The contents of an object are copied, and its copy gets them.
-/
theorem leave (hc : c.Begun s) (hv : v.IsObject) (hin : v.Within s) (hnone : c.copy? v = none)
    (h : Makes s (c.enter v) d (contents s v) ws) : Makes s c (c.leave v ws d) [v] [c.next v] := by
  have hspares : c.store.Spares (fun _ _ => False) d.store :=
    (c.enter_spares v).trans h.spares fun _ _ _ => id
  have hcopy := h.keeps _ _ (Copying.copy?_enter_self (c := c) hv)
  have hnext : (c.next v).Within d.store := (Copying.next_within hv c).of_extent h.spares.grows
  have hwithin : v.Within c.store := hin.of_extent hc.spares.grows
  have hsource : contents c.store v = contents s v := contents_spared hc.spares hin
  have hcopies {x y : Value} (hxy : CopyIn s d x y) : CopyIn s (c.leave v ws d) x y := by
    apply CopyOf.mono hxy (c.leave_spares_flat v ws d)
    rw [Copying.copy?_leave]
    exact fun _ _ => id
  have hlength : ws.length = (contents c.store v).length := by rw [hsource, h.values.length_eq]
  obtain ⟨hshape, hcontents⟩ := Copying.leave_next hv hnext hlength
  refine ⟨h.begun.leave hc hspares v ws, Copying.leave_spares hspares v ws, ?_, ?_, ?_, ?_⟩
  . intro x y hxy
    rw [Copying.copy?_leave]
    exact h.keeps x y (Copying.copy?_enter hnone hxy)
  . rw [Copying.size_leave]
    have := h.size_le
    rw [Copying.size_enter hv] at this
    omega
  . refine .cons (.object hv ?_) .nil
    rw [Copying.copy?_leave, hcopy]
  . intro y hy hout hin'
    by_cases hself : y = c.next v
    . subst hself
      refine ⟨v, by rw [Copying.copy?_leave, hcopy], ?_, ?_⟩
      . exact hshape.source_spared hc.spares hin
      . rw [hcontents]
        exact h.values.imp fun _ _ => hcopies
    . have hnew : ¬ y.Within (c.enter v).store :=
        fun hin => (Copying.within_enter hy hin).elim hout hself
      obtain ⟨x, hx, hxy, hparts⟩ := h.objects y hy hnew (Copying.within_leave.1 hin')
      refine ⟨x, by rw [Copying.copy?_leave, hx], Copying.sameShape_leave_ne hxy hself ws, ?_⟩
      rw [Copying.contents_leave_ne hself]
      exact hparts.imp fun _ _ => hcopies

end Makes

theorem IsObject.within (hx : x.IsObject) (h : x.orNull.Within s) : x.Within s := by
  cases x with
  | array | record => exact h
  | _ => contradiction

theorem cloneAll_makes {f : Value → Copying → Value × Copying} {n : Nat}
    (hf : ∀ {v c}, c.Begun s → n ≤ c.size → v.orNull.Within s → Makes s c (f v c).2 [v] [(f v c).1])
    {vs : List Value} (hvs : ∀ v ∈ vs, v.orNull.Within s) (hc : c.Begun s) (hn : n ≤ c.size) :
    Makes s c (cloneAll f vs c).2 vs (cloneAll f vs c).1 := by
  induction vs generalizing c with
  | nil => exact .nil hc
  | cons v vs ih =>
    obtain ⟨hv, hvs⟩ := List.forall_mem_cons.1 hvs
    have hfirst := hf hc hn hv
    rw [cloneAll_cons]
    exact hfirst.cons (ih hvs hfirst.begun (Nat.le_trans hn hfirst.size_le))

theorem cloneInto_makes (hs : s.Linked) {fuel : Nat} (hc : c.Begun s) (hv : v.orNull.Within s)
    (hfuel : s.arrays.size + s.records.size < fuel + c.size) :
    Makes s c (cloneInto fuel v c).2 [v] [(cloneInto fuel v c).1] := by
  induction fuel generalizing v c with
  | zero =>
    have := hc.size_le
    omega
  | succ fuel ih =>
    by_cases hobject : v.IsObject
    . have hin := hobject.within hv
      cases hcopy : c.copy? v with
      | some w =>
        rw [cloneInto_known hcopy]
        exact .known hc hobject hcopy
      | none =>
        rw [cloneInto_enter hobject (hin.of_extent hc.spares.grows) hcopy, contents_spared hc.spares hin]
        apply Makes.leave hc hobject hin hcopy
        have hsize := Copying.size_enter hobject c
        apply cloneAll_makes (n := c.size + 1) _ (fun x hx => hs.contents hx) (hc.enter hin hcopy)
          (Nat.le_of_eq hsize.symm)
        intro v c' hc' hn hv
        exact ih hc' hv (by omega)
    . rw [cloneInto_flat hobject]
      exact .flat hc hobject hv

/-! The fuel does not matter. -/

theorem cloneAll_congr {f g : Value → Copying → Value × Copying} {n : Nat}
    (hf : ∀ {v c}, c.Begun s → n ≤ c.size → v.orNull.Within s → Makes s c (f v c).2 [v] [(f v c).1])
    (hfg : ∀ {v c}, c.Begun s → n ≤ c.size → v.orNull.Within s → f v c = g v c)
    {vs : List Value} (hvs : ∀ v ∈ vs, v.orNull.Within s) (hc : c.Begun s) (hn : n ≤ c.size) :
    cloneAll f vs c = cloneAll g vs c := by
  induction vs generalizing c with
  | nil => rfl
  | cons v vs ih =>
    obtain ⟨hv, hvs⟩ := List.forall_mem_cons.1 hvs
    have hfirst := hf hc hn hv
    rw [cloneAll_cons, cloneAll_cons, ← hfg hc hn hv,
      ih hvs hfirst.begun (Nat.le_trans hn hfirst.size_le)]

theorem cloneInto_fuel (hs : s.Linked) {fuel fuel' : Nat} (hc : c.Begun s) (hv : v.orNull.Within s)
    (hfuel : s.arrays.size + s.records.size < fuel + c.size)
    (hfuel' : s.arrays.size + s.records.size < fuel' + c.size) :
    cloneInto fuel v c = cloneInto fuel' v c := by
  induction fuel generalizing v c fuel' with
  | zero =>
    have := hc.size_le
    omega
  | succ fuel ih =>
    obtain _ | fuel' := fuel'
    . have := hc.size_le
      omega
    . by_cases hobject : v.IsObject
      . have hin := hobject.within hv
        cases hcopy : c.copy? v with
        | some w => rw [cloneInto_known hcopy, cloneInto_known hcopy]
        | none =>
          have hin' := hin.of_extent hc.spares.grows
          have hsize := Copying.size_enter hobject c
          rw [cloneInto_enter hobject hin' hcopy, cloneInto_enter hobject hin' hcopy,
            contents_spared hc.spares hin]
          have hall := cloneAll_congr (f := cloneInto fuel) (g := cloneInto fuel') (n := c.size + 1)
            (fun hc' hn hv => cloneInto_makes hs hc' hv (by omega))
            (fun hc' hn hv => ih hc' hv (by omega) (by omega)) (fun x hx => hs.contents (v := v) hx)
            (hc.enter hin hcopy) (Nat.le_of_eq hsize.symm)
          rw [hall]
      . rw [cloneInto_flat hobject, cloneInto_flat hobject]

/-! The whole copy. -/

theorem Copying.Begun.start (s : Store) : Copying.Begun s { store := s } where
  spares := .refl _ s
  arrays := ⟨.nil, .nil, nofun⟩
  records := ⟨.nil, .nil, nofun⟩

/--
A copy of `v` from the store `s` on has been made, and `d` is what is known of it.
-/
abbrev MadeFrom (s : Store) (v w : Value) (d : Copying) : Prop :=
  Makes s { store := s } d [v] [w]

theorem clone_made (hs : s.Linked) (hv : v.orNull.Within s) :
    ∃ d, (clone s v).2 = d.store ∧ MadeFrom s v (clone s v).1 d :=
  ⟨_, rfl, cloneInto_makes hs (.start s) hv (Nat.lt_succ_self _)⟩

namespace MadeFrom

theorem copy (h : MadeFrom s v w d) : CopyIn s d v w :=
  (List.forall₂_cons.1 h.values).1

theorem completed (h : MadeFrom s v w d) (hxy : d.copy? x = some y) :
    SameShape s d.store x y ∧ List.Forall₂ (CopyIn s d) (contents s x) (contents d.store y) := by
  obtain ⟨hy, hout, hin⟩ := h.begun.new hxy
  obtain ⟨x', hx', hshape, hcontents⟩ := h.objects y hy hout hin
  obtain rfl := h.begun.injective hxy hx'
  exact ⟨hshape, hcontents⟩

theorem part? (h : MadeFrom s v w d) (hxy : CopyIn s d x y) (a : Access) :
    Option.Rel (CopyIn s d) (part? s x a) (part? d.store y a) := by
  cases hxy with
  | object hx hxy =>
    obtain ⟨hshape, hcontents⟩ := h.completed hxy
    exact hshape.part? hcontents a
  | _ => exact .none

/--
What a path leads to in the copy is a copy of what it leads to in the original.
-/
theorem follow (h : MadeFrom s v w d) (hxy : CopyIn s d x y) (path : List Access) :
    Option.Rel (CopyIn s d) (follow s x path) (follow d.store y path) := by
  induction path generalizing x y with
  | nil => exact .some hxy
  | cons a path ih =>
    rw [Value.follow, Value.follow]
    obtain ⟨hx, hy⟩ | ⟨x', y', hx, hy, hxy'⟩ := rel_cases (h.part? hxy a)
    . rw [hx, hy]
      exact .none
    . rw [hx, hy]
      exact ih hxy'

theorem target (h : MadeFrom s v w d) {path : List Access} (hx : v.follow s path = some x) :
    ∃ y, w.follow d.store path = some y ∧ CopyIn s d x y := by
  obtain ⟨hnone, _⟩ | ⟨x', y, hx', hy, hxy⟩ := rel_cases (h.follow h.copy path)
  . rw [hx] at hnone
    contradiction
  . obtain rfl := Option.some.inj (hx.symm.trans hx')
    exact ⟨y, hy, hxy⟩

theorem source (h : MadeFrom s v w d) {path : List Access} (hy : w.follow d.store path = some y) :
    ∃ x, v.follow s path = some x ∧ CopyIn s d x y := by
  obtain ⟨_, hnone⟩ | ⟨x, y', hx, hy', hxy⟩ := rel_cases (h.follow h.copy path)
  . rw [hy] at hnone
    contradiction
  . obtain rfl := Option.some.inj (hy.symm.trans hy')
    exact ⟨x, hx, hxy⟩

theorem isObject (h : MadeFrom s v w d) (hxy : CopyIn s d x y) : y.IsObject ↔ x.IsObject := by
  cases hxy with
  | object hx hxy => exact iff_of_true (h.begun.new hxy).1 hx
  | _ => exact Iff.rfl

end MadeFrom

end Value

end LispScript
