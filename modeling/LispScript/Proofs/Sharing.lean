import LispScript.Proofs.Replica

/-!
This module contains what a clone shares. Paths that lead to one array or to one record in the original do
so in the clone, but a string is copied again for each place where it is, so that two paths lead to one
string in the clone only if they lead to it through the same place.
-/

namespace LispScript

namespace Value

variable {s t : Store} {v w x y : Value} {c d e : Copying} {vs ws : List Value} {n : Nat}

/-! Places. -/

/--
A place for a value: among the values that are copied, or among the contents of an object.
-/
inductive Spot where
  | top (i : Nat)
  | inside (y : Value) (i : Nat)

namespace Spot

/--
The place when one more value is copied before the others.
-/
def shift : Spot → Spot
  | top i => top (i + 1)
  | inside y i => inside y i

/--
The place when the object `y` has got the values.
-/
def enclose (y : Value) : Spot → Spot
  | top i => inside y i
  | inside z i => inside z i

/--
The string `n` is at a place that is new in `d`, or among the values `ws`.
-/
def Holds (c d : Copying) (ws : List Value) (n : Nat) : Spot → Prop
  | top i => ws[i]? = some (.string n)
  | inside y i =>
    y.IsObject ∧ ¬ y.Within c.store ∧ y.Within d.store ∧ (contents d.store y)[i]? = some (.string n)

variable {spot : Spot}

theorem Holds.of_object (hw : w.IsObject) (h : Holds c c [w] n spot) : False := by
  cases spot with
  | top i =>
    obtain rfl := List.mem_singleton.1 (List.mem_of_getElem? h)
    exact hw
  | inside y i => exact h.2.1 h.2.2.1

theorem Holds.cons (hde : d.store.Spares (fun _ _ => False) e.store) (h : Holds c e (w :: ws) n spot) :
    Holds c d [w] n spot ∨ ∃ spot', Holds d e ws n spot' ∧ spot = spot'.shift := by
  cases spot with
  | top i =>
    cases i with
    | zero => exact .inl h
    | succ i => exact .inr ⟨top i, h, rfl⟩
  | inside y i =>
    obtain ⟨hy, hout, hin, hstring⟩ := h
    by_cases hd : y.Within d.store
    . rw [contents_spared hde hd] at hstring
      exact .inl ⟨hy, hout, hd, hstring⟩
    . exact .inr ⟨inside y i, ⟨hy, hd, hin, hstring⟩, rfl⟩

theorem Holds.leave (hv : v.IsObject) (hnext : (c.next v).Within d.store)
    (hws : ws.length = (contents c.store v).length) (h : Holds c (c.leave v ws d) [c.next v] n spot) :
    ∃ spot', Holds (c.enter v) d ws n spot' ∧ spot = spot'.enclose (c.next v) := by
  obtain ⟨hshape, hcontents⟩ := Copying.leave_next hv hnext hws
  cases spot with
  | top i =>
    have hstring := List.mem_singleton.1 (List.mem_of_getElem? h)
    exact absurd hshape.isObject.2 (by simp [← hstring, IsObject])
  | inside y i =>
    obtain ⟨hy, hout, hin, hstring⟩ := h
    by_cases hself : y = c.next v
    . subst hself
      rw [hcontents] at hstring
      exact ⟨top i, hstring, rfl⟩
    . rw [Copying.contents_leave_ne hself] at hstring
      refine ⟨inside y i, ⟨hy, ?_, Copying.within_leave.1 hin, hstring⟩, rfl⟩
      exact fun hin => (Copying.within_enter hy hin).elim hout hself

end Spot

/-! Steps. -/

/--
The strings that are made from `c` to `d` are new, and each of them is at one place.
-/
structure Unshared (c d : Copying) (ws : List Value) : Prop where
  fresh : ∀ n spot, Spot.Holds c d ws n spot → c.store.strings.size ≤ n ∧ n < d.store.strings.size
  unique : ∀ n spot spot', Spot.Holds c d ws n spot → Spot.Holds c d ws n spot' → spot = spot'

namespace Unshared

theorem known (hw : w.IsObject) : Unshared c c [w] where
  fresh := fun _ _ h => (h.of_object hw).elim
  unique := fun _ _ _ h => (h.of_object hw).elim

theorem nil : Unshared c c [] where
  fresh := by
    rintro n (i | ⟨y, i⟩) h
    . contradiction
    . exact absurd h.2.2.1 h.2.1
  unique := by
    rintro n (i | ⟨y, i⟩) spot' h
    . contradiction
    . exact absurd h.2.2.1 h.2.1

theorem flat (hflat : ¬ v.IsObject) : Unshared c (cloneFlat v c).2 [(cloneFlat v c).1] := by
  -- No array and no record is added.
  have hspot {n : Nat} {spot : Spot} (h : Spot.Holds c (cloneFlat v c).2 [(cloneFlat v c).1] n spot) :
      spot = .top 0 ∧ (cloneFlat v c).1 = .string n := by
    cases spot with
    | top i =>
      cases i with
      | zero => exact ⟨rfl, Option.some.inj h⟩
      | succ i => contradiction
    | inside y i =>
      obtain ⟨hy, hout, hin, -⟩ := h
      have harrays : (cloneFlat v c).2.store.arrays = c.store.arrays := by cases v <;> rfl
      have hrecords : (cloneFlat v c).2.store.records = c.store.records := by cases v <;> rfl
      cases y with
      | array =>
        rw [Within, harrays] at hin
        exact absurd hin hout
      | record =>
        rw [Within, hrecords] at hin
        exact absurd hin hout
      | _ => contradiction
  constructor
  . intro n spot h
    obtain ⟨-, hstring⟩ := hspot h
    cases v with
    | string r =>
      cases hstring
      exact ⟨Nat.le_refl _, (c.store.addString_adds _).lt⟩
    | _ => contradiction
  . intro n spot spot' h h'
    rw [(hspot h).1, (hspot h').1]

theorem cons (h : Unshared c d [w]) (h' : Unshared d e ws)
    (hcd : c.store.Spares (fun _ _ => False) d.store)
    (hde : d.store.Spares (fun _ _ => False) e.store) : Unshared c e (w :: ws) where
  fresh := by
    intro n spot hspot
    have hgrows : c.store.strings.size ≤ d.store.strings.size := hcd.grows .strings
    have hgrows' : d.store.strings.size ≤ e.store.strings.size := hde.grows .strings
    obtain hspot | ⟨spot', hspot, -⟩ := hspot.cons hde
    . have := h.fresh n spot hspot
      omega
    . have := h'.fresh n spot' hspot
      omega
  unique := by
    intro n p q hp hq
    obtain hp' | ⟨p', hp', rfl⟩ := hp.cons hde <;> obtain hq' | ⟨q', hq', rfl⟩ := hq.cons hde
    . exact h.unique n p q hp' hq'
    . have := h.fresh n p hp'
      have := h'.fresh n q' hq'
      omega
    . have := h'.fresh n p' hp'
      have := h.fresh n q hq'
      omega
    . rw [h'.unique n p' q' hp' hq']

theorem leave (hv : v.IsObject) (hnext : (c.next v).Within d.store)
    (hws : ws.length = (contents c.store v).length) (h : Unshared (c.enter v) d ws) :
    Unshared c (c.leave v ws d) [c.next v] where
  fresh := by
    intro n spot hspot
    obtain ⟨spot', hspot, -⟩ := hspot.leave hv hnext hws
    have henter : (c.enter v).store.strings = c.store.strings := by cases v <;> rfl
    have hleave : (c.leave v ws d).store.strings = d.store.strings := by cases v <;> rfl
    rw [← henter, hleave]
    exact h.fresh n spot' hspot
  unique := by
    intro n p q hp hq
    obtain ⟨p', hp', rfl⟩ := hp.leave hv hnext hws
    obtain ⟨q', hq', rfl⟩ := hq.leave hv hnext hws
    rw [h.unique n p' q' hp' hq']

end Unshared

theorem cloneAll_unshared {f : Value → Copying → Value × Copying} {n : Nat}
    (hf : ∀ {v c}, c.Begun s → n ≤ c.size → v.orNull.Within s → Makes s c (f v c).2 [v] [(f v c).1])
    (hunshared : ∀ {v c}, c.Begun s → n ≤ c.size → v.orNull.Within s →
      Unshared c (f v c).2 [(f v c).1])
    (hvs : ∀ v ∈ vs, v.orNull.Within s) (hc : c.Begun s) (hn : n ≤ c.size) :
    Unshared c (cloneAll f vs c).2 (cloneAll f vs c).1 := by
  induction vs generalizing c with
  | nil => exact .nil
  | cons v vs ih =>
    obtain ⟨hv, hvs⟩ := List.forall_mem_cons.1 hvs
    have hfirst := hf hc hn hv
    have hsize := Nat.le_trans hn hfirst.size_le
    rw [cloneAll_cons]
    exact (hunshared hc hn hv).cons (ih hvs hfirst.begun hsize) hfirst.spares
      (cloneAll_makes hf hvs hfirst.begun hsize).spares

theorem cloneInto_unshared (hs : s.Linked) {fuel : Nat} (hc : c.Begun s) (hv : v.orNull.Within s)
    (hfuel : s.arrays.size + s.records.size < fuel + c.size) :
    Unshared c (cloneInto fuel v c).2 [(cloneInto fuel v c).1] := by
  induction fuel generalizing v c with
  | zero =>
    have := hc.size_le
    omega
  | succ fuel ih =>
    by_cases hobject : v.IsObject
    . have hin := hobject.within hv
      cases hcopy : c.copy? v with
      | some w =>
        rw [cloneInto_known hcopy]
        exact .known (hc.new hcopy).1
      | none =>
        have hsize := Copying.size_enter hobject c
        have hmakes := cloneAll_makes (f := cloneInto fuel) (n := c.size + 1)
          (fun hc' hn hv => cloneInto_makes hs hc' hv (by omega)) (fun x hx => hs.contents (v := v) hx)
          (hc.enter hin hcopy) (Nat.le_of_eq hsize.symm)
        rw [cloneInto_enter hobject (hin.of_extent hc.spares.grows) hcopy, contents_spared hc.spares hin]
        apply Unshared.leave hobject
        . exact (Copying.next_within hobject c).of_extent hmakes.spares.grows
        . rw [contents_spared hc.spares hin, hmakes.values.length_eq]
        . exact cloneAll_unshared (n := c.size + 1)
            (fun hc' hn hv => cloneInto_makes hs hc' hv (by omega))
            (fun hc' hn hv => ih hc' hv (by omega)) (fun x hx => hs.contents (v := v) hx)
            (hc.enter hin hcopy) (Nat.le_of_eq hsize.symm)
    . rw [cloneInto_flat hobject]
      exact .flat hobject

theorem clone_unshared (hs : s.Linked) (hv : v.orNull.Within s) :
    ∃ d, (clone s v).2 = d.store ∧ MadeFrom s v (clone s v).1 d ∧
      Unshared { store := s } d [(clone s v).1] :=
  ⟨_, rfl, cloneInto_makes hs (.start s) hv (Nat.lt_succ_self _),
    cloneInto_unshared hs (.start s) hv (Nat.lt_succ_self _)⟩

/-! Paths. -/

/--
Both paths are empty, or they end with the same step from the same object.
-/
inductive SamePlace (s : Store) (v : Value) : List Access → List Access → Prop where
  | nil : SamePlace s v [] []
  | concat {p q : List Access} {x : Value} (a : Access) (hp : v.follow s p = some x)
      (hq : v.follow s q = some x) : SamePlace s v (p ++ [a]) (q ++ [a])

/--
Strings, arrays and records.
-/
def IsMutable : Value → Prop
  | string _ => True
  | v => v.IsObject

variable {p q : List Access}

theorem SamePlace.follow (h : SamePlace s v p q) : v.follow s p = v.follow s q := by
  cases h with
  | nil => rfl
  | concat a hp hq => rw [follow_concat, follow_concat, hp, hq]

theorem SamePlace.getLast? (h : SamePlace s v p q) : p.getLast? = q.getLast? := by
  cases h with
  | nil => rfl
  | concat a hp hq => rw [List.getLast?_concat, List.getLast?_concat]

/--
The place where a path ends.
-/
theorem follow_cases (h : w.follow t p = some x) :
    (p = [] ∧ w = x) ∨ ∃ q a y i, p = q ++ [a] ∧ w.follow t q = some y ∧ y.slot? t a = some i ∧
      (y.contents t)[i]? = some x := by
  obtain rfl | ⟨q, a, rfl⟩ := List.eq_nil_or_concat' p
  . exact .inl ⟨rfl, Option.some.inj h⟩
  . rw [follow_concat] at h
    obtain ⟨y, hy, hx⟩ := Option.bind_eq_some_iff.1 h
    rw [part?_eq_slot?] at hx
    obtain ⟨i, hi, hx⟩ := Option.bind_eq_some_iff.1 hx
    exact .inr ⟨q, a, y, i, rfl, hy, hi, hx⟩

namespace MadeFrom

theorem holds_inside (h : MadeFrom s v w d) {a : Access} {i : Nat} (hp : w.follow d.store p = some y)
    (hi : y.slot? d.store a = some i) (hstring : (y.contents d.store)[i]? = some (.string n)) :
    Spot.Holds { store := s } d [w] n (.inside y i) ∧
      ∃ x, v.follow s p = some x ∧ d.copy? x = some y := by
  have hy : y.IsObject := by
    apply isObject_of_part? (s := d.store) (a := a) (x := .string n)
    rw [part?_eq_slot?, hi, Option.bind_some, hstring]
  obtain ⟨x, hx, hxy⟩ := h.source hp
  have hcopy := hxy.copy? ((h.isObject hxy).1 hy)
  obtain ⟨-, hout, hin⟩ := h.begun.new hcopy
  exact ⟨⟨hy, hout, hin, hstring⟩, x, hx, hcopy⟩

/--
Paths to one string in the copy lead to one place in the original.
-/
theorem samePlace (h : MadeFrom s v w d) (hunshared : Unshared { store := s } d [w])
    (hp : w.follow d.store p = some (.string n)) (hq : w.follow d.store q = some (.string n)) :
    SamePlace s v p q := by
  obtain ⟨rfl, hw⟩ | ⟨p, a, y, i, rfl, hp, hi, hx⟩ := follow_cases hp <;>
    obtain ⟨rfl, hw'⟩ | ⟨q, b, z, j, rfl, hq, hj, hy⟩ := follow_cases hq
  . exact .nil
  . have := hunshared.unique n (.top 0) (.inside z j) (congrArg some hw) (h.holds_inside hq hj hy).1
    contradiction
  . have := hunshared.unique n (.top 0) (.inside y i) (congrArg some hw') (h.holds_inside hp hi hx).1
    contradiction
  . obtain ⟨hspot, x, hxp, hxy⟩ := h.holds_inside hp hi hx
    obtain ⟨hspot', x', hxq, hxy'⟩ := h.holds_inside hq hj hy
    cases hunshared.unique n _ _ hspot hspot'
    obtain rfl := slot?_injective hi hj
    obtain rfl := h.begun.injective hxy hxy'
    exact .concat a hxp hxq

/--
Paths to one place lead to one value in the copy.
-/
theorem follow_samePlace (h : MadeFrom s v w d) (hpq : SamePlace s v p q) :
    w.follow d.store p = w.follow d.store q := by
  cases hpq with
  | nil => rfl
  | @concat p q x a hp hq =>
    obtain ⟨y, hy, hxy⟩ := h.target hp
    obtain ⟨z, hz, hxz⟩ := h.target hq
    rw [follow_concat, follow_concat, hy, hz, Option.bind_some, Option.bind_some]
    by_cases hx : x.IsObject
    . rw [Option.some.inj ((hxy.copy? hx).symm.trans (hxz.copy? hx))]
    . have hnone {y : Value} (hxy : CopyIn s d x y) : Value.part? d.store y a = none :=
        Option.eq_none_iff_forall_ne_some.2 fun _ hpart =>
          hx ((h.isObject hxy).1 (isObject_of_part? hpart))
      rw [hnone hxy, hnone hxz]

theorem isMutable (h : MadeFrom s v w d) (hxy : CopyIn s d x y) (hx : x.IsMutable) : y.IsMutable := by
  cases hxy with
  | string => trivial
  | object _ hcopy =>
    have hy := (h.begun.new hcopy).1
    cases y with
    | array | record => trivial
    | _ => contradiction
  | _ => contradiction

end MadeFrom

end Value

/--
Two paths to mutable objects lead to one object in the clone if they do so in the original, unless the
object is a string: then they also have to lead to it through one place.
-/
theorem clone_sharing {s : Store} {v x y : Value} {p q : List Access} (hs : s.Linked)
    (hv : v.orNull.Within s) (hp : v.follow s p = some x) (hq : v.follow s q = some y)
    (hx : x.IsMutable) (hy : y.IsMutable) :
    ∃ x' y', (Value.clone s v).1.follow (Value.clone s v).2 p = some x' ∧
      (Value.clone s v).1.follow (Value.clone s v).2 q = some y' ∧ x'.IsMutable ∧ y'.IsMutable ∧
      (x' = y' ↔ x = y ∧ (x.IsObject ∨ v.SamePlace s p q)) := by
  obtain ⟨d, hstore, hmade, hunshared⟩ := Value.clone_unshared hs hv
  rw [hstore]
  obtain ⟨x', hp', hxx'⟩ := hmade.target hp
  obtain ⟨y', hq', hyy'⟩ := hmade.target hq
  refine ⟨x', y', hp', hq', hmade.isMutable hxx' hx, hmade.isMutable hyy' hy, ?_, ?_⟩
  . rintro rfl
    by_cases hobject : x.IsObject
    . have hobject' := (hmade.isObject hyy').1 ((hmade.isObject hxx').2 hobject)
      exact ⟨hmade.begun.injective (hxx'.copy? hobject) (hyy'.copy? hobject'), .inl hobject⟩
    . cases hxx' with
      | string =>
        have hplace := hmade.samePlace hunshared hp' hq'
        refine ⟨?_, .inr hplace⟩
        rw [hplace.follow, hq] at hp
        exact (Option.some.inj hp).symm
      | object hobject' => exact absurd hobject' hobject
      | _ => contradiction
  . rintro ⟨rfl, hobject | hplace⟩
    . exact Option.some.inj ((hxx'.copy? hobject).symm.trans (hyy'.copy? hobject))
    . rw [hmade.follow_samePlace hplace, hq'] at hp'
      exact (Option.some.inj hp').symm

/--
An array with one string twice and with itself: the clone has two strings, and contains itself.
-/
theorem clone_sharing_string :
    let s : Store := { strings := #[.ofList ['a']], arrays := #[#[.string 0, .string 0, .array 0]] }
    let follow (path : List Access) := (Value.clone s (.array 0)).1.follow (Value.clone s (.array 0)).2 path
    follow [.index 0] ≠ follow [.index 1] ∧ follow [.index 2] = follow [] := by
  intro s follow
  have hs : s.Linked := ⟨by decide, by decide⟩
  have hv : (Value.array 0).orNull.Within s := by decide
  constructor
  . obtain ⟨x', y', hp, hq, -, -, hsame⟩ :=
      clone_sharing (p := [.index 0]) (q := [.index 1]) hs hv rfl rfl trivial trivial
    have hdistinct : x' ≠ y' := by
      intro heq
      obtain ⟨-, hobject | hplace⟩ := hsame.1 heq
      . exact hobject
      . exact absurd hplace.getLast? (by decide)
    simpa [follow, hp, hq] using hdistinct
  . obtain ⟨x', y', hp, hq, -, -, hsame⟩ :=
      clone_sharing (p := [.index 2]) (q := []) hs hv rfl rfl trivial trivial
    simpa [follow, hp, hq] using hsame.2 ⟨rfl, .inl trivial⟩

end LispScript
