import LispScript.Proofs.Bisimilar
import LispScript.Proofs.Replica

/-!
This module contains the proof that a clone equals its original, if there is no NaN in it. A value inside of
the original and its copy agree up to the values inside of them, which are in turn an original and a copy,
so that the two are bisimilar in the store that has both.
-/

namespace LispScript

theorem beq_self_of_not_nan {x : Float} (h : x.isNaN = false) : (x == x) = true := by
  have hunpack : x.toModel.unpack.isNaN = false := h
  show Float.Model.UnpackedFloat.beq x.toModel.unpack x.toModel.unpack = true
  cases hx : x.toModel.unpack with
  | notANumber =>
    rw [hx] at hunpack
    contradiction
  | infinity sign => cases sign <;> rfl
  | zero sign => rfl
  | finite sign mantissa exponent =>
    have hsame : (compare exponent exponent).then (compare mantissa mantissa) = .eq := by
      rw [Std.ReflOrd.compare_self, Std.ReflOrd.compare_self]
      rfl
    cases sign with
    | positive =>
      show (some ((compare exponent exponent).then (compare mantissa mantissa)) == some .eq) = true
      rw [hsame]
      rfl
    | negative =>
      show (some ((compare exponent exponent).then (compare mantissa mantissa)).swap == some .eq) = true
      rw [hsame]
      rfl

namespace Value

variable {s : Store} {v w x y : Value} {d : Copying}

def isNaN : Value → Bool
  | real x => x.isNaN
  | _ => false

/--
No NaN is inside of the value.
-/
def NaNFree (s : Store) (v : Value) : Prop :=
  ∀ x, v.Contains s x → x.isNaN = false

theorem NaNFree.of_everywhere (hs : s.Everywhere fun x => x.isNaN = false) (hv : v.isNaN = false) :
    NaNFree s v := by
  rintro x ⟨path, hpath⟩
  exact hs.follow hv hpath

/--
A value inside of the original `v`, and its copy.
-/
structure Counterpart (s : Store) (v : Value) (d : Copying) (x y : Value) : Prop where
  inside : v.Contains s x
  copy : CopyIn s d x y

/--
An original and its copy, in either order; or what two records have in place of a member that they lack.
-/
inductive Mirrored (s : Store) (v : Value) (d : Copying) : Value → Value → Prop where
  | copy {x y : Value} (h : Counterpart s v d x y) : Mirrored s v d x y
  | original {x y : Value} (h : Counterpart s v d x y) : Mirrored s v d y x
  | lacking : Mirrored s v d .absent .absent

namespace MadeFrom

theorem counterpart_part? (h : MadeFrom s v w d) (hxy : Counterpart s v d x y) (a : Access) :
    Option.Rel (Counterpart s v d) (Value.part? s x a) (Value.part? d.store y a) := by
  obtain ⟨hx, hy⟩ | ⟨x', y', hx, hy, hxy'⟩ := rel_cases (h.part? hxy.copy a)
  . rw [hx, hy]
    exact .none
  . rw [hx, hy]
    exact .some ⟨hxy.inside.part hx, hxy'⟩

/--
The two fields with one name, of a record and its copy.
-/
theorem counterpart_field (h : MadeFrom s v w d) {a b : Nat} (hab : Counterpart s v d (.record a) (.record b))
    (name : String) :
    (field (s.record a) name = .absent ∧ field (d.store.record b) name = .absent) ∨
      Counterpart s v d (field (s.record a) name) (field (d.store.record b) name) := by
  unfold field
  obtain ⟨hx, hy⟩ | ⟨x, y, hx, hy, hxy⟩ := rel_cases (h.counterpart_part? hab (.member name))
  . rw [Value.part?] at hx hy
    rw [hx, hy]
    exact .inl ⟨rfl, rfl⟩
  . rw [Value.part?] at hx hy
    rw [hx, hy]
    exact .inr hxy

/--
An original and its copy match in either order.
-/
theorem matches_counterpart (h : MadeFrom s v w d) (hs : s.Linked) (hv : v.orNull.Within s)
    (hnan : NaNFree s v) (hxy : Counterpart s v d x y) :
    Matches d.store (Mirrored s v d) x y ∧ Matches d.store (Mirrored s v d) y x := by
  obtain ⟨⟨path, hpath⟩, hcopy⟩ := hxy
  have hwithin := hs.follow hv hpath
  cases hcopy with
  | absent => exact ⟨.null (.inr rfl) (.inl rfl), .null (.inl rfl) (.inr rfl)⟩
  | null => exact ⟨.null (.inl rfl) (.inl rfl), .null (.inl rfl) (.inl rfl)⟩
  | integer n => exact ⟨.integer n, .integer n⟩
  | real x =>
    have hx := beq_self_of_not_nan (hnan (.real x) ⟨path, hpath⟩)
    exact ⟨.real (.inl rfl) rfl rfl hx, .real (.inl rfl) rfl rfl hx⟩
  | char c => exact ⟨.char c, .char c⟩
  | boolean b => exact ⟨.boolean b, .boolean b⟩
  | @string a b _ _ hchars =>
    have hsame : d.store.string a = s.string a := h.spares.same .strings a hwithin id
    rw [← hsame] at hchars
    exact ⟨.string hchars.symm, .string hchars⟩
  | @recordType a b _ _ htype =>
    have hsame : d.store.recordType a = s.recordType a := h.spares.same .recordTypes a hwithin id
    rw [← hsame] at htype
    exact ⟨.recordType (by rw [htype]) (by rw [htype]), .recordType (by rw [htype]) (by rw [htype])⟩
  | @closure a b _ _ hclosure =>
    have hsame : d.store.closure a = s.closure a := h.spares.same .closures a hwithin id
    rw [← hsame] at hclosure
    exact ⟨.closure (by simp [Store.sameClosure, hclosure]),
      .closure (by simp [Store.sameClosure, hclosure])⟩
  | object hx hcopied =>
    have hxy : Counterpart s v d x y := ⟨⟨path, hpath⟩, .object hx hcopied⟩
    obtain ⟨hshape, hcontents⟩ := h.completed hcopied
    cases hshape with
    | array a b =>
      have hsame : d.store.array a = s.array a := h.spares.same .arrays a hwithin id
      have hsize : (d.store.array a).size = (d.store.array b).size := by
        rw [hsame]
        simpa [contents] using hcontents.length_eq
      have hparts (i : Nat) : Option.Rel (Counterpart s v d) (d.store.array a)[i]? (d.store.array b)[i]? := by
        rw [hsame]
        exact h.counterpart_part? hxy (.index i)
      constructor
      . refine .array hsize fun i p q hp hq => ?_
        have := hparts i
        rw [hp, hq] at this
        exact .copy (Option.rel_some_some.1 this)
      . refine .array hsize.symm fun i q p hq hp => ?_
        have := hparts i
        rw [hp, hq] at this
        exact .original (Option.rel_some_some.1 this)
    | @record a b htype hkeys =>
      have hsame : d.store.record a = s.record a := h.spares.same .records a hwithin id
      have htypes : d.store.typeOf a = d.store.typeOf b := by
        rw [Store.typeOf, Store.typeOf, htype, hsame]
      constructor
      . refine .record htypes fun name _ => ?_
        rw [hsame]
        obtain ⟨hp, hq⟩ | hpq := h.counterpart_field hxy name
        . rw [hp, hq]
          exact .lacking
        . exact .copy hpq
      . refine .record htypes.symm fun name _ => ?_
        rw [hsame]
        obtain ⟨hp, hq⟩ | hpq := h.counterpart_field hxy name
        . rw [hp, hq]
          exact .lacking
        . exact .original hpq

theorem bisimilar (h : MadeFrom s v w d) (hs : s.Linked) (hv : v.orNull.Within s)
    (hnan : NaNFree s v) : Bisimilar d.store w v ∧ Bisimilar d.store v w := by
  have hmatches : ∀ x y, Mirrored s v d x y → Matches d.store (Mirrored s v d) x y := by
    intro x y hxy
    cases hxy with
    | copy hxy => exact (h.matches_counterpart hs hv hnan hxy).1
    | original hxy => exact (h.matches_counterpart hs hv hnan hxy).2
    | lacking => exact .null (.inr rfl) (.inr rfl)
  have hstart : Counterpart s v d v w := ⟨.refl s v, h.copy⟩
  exact ⟨⟨_, hmatches, .original hstart⟩, ⟨_, hmatches, .copy hstart⟩⟩

end MadeFrom

end Value

/--
A value in which there is no NaN equals its clone, whichever of the two comes first.
-/
theorem clone_equal {s : Store} {v : Value} (hs : s.Linked) (hv : v.orNull.Within s)
    (hnan : v.NaNFree s) :
    Value.equal (Value.clone s v).2 (Value.clone s v).1 v = true ∧
      Value.equal (Value.clone s v).2 v (Value.clone s v).1 = true := by
  obtain ⟨d, hstore, hmade⟩ := Value.clone_made hs hv
  rw [hstore, Value.equal_eq_true_iff, Value.equal_eq_true_iff]
  exact hmade.bisimilar hs hv hnan

/--
An array that contains itself, one string twice and a record that contains the array.
-/
theorem clone_equal_cycle :
    let s : Store := {
      strings := #[.ofList ['a']]
      arrays := #[#[.array 0, .string 0, .string 0, .real 0.5, .record 0]]
      recordTypes := #[{ name := "P", members := ["x"] }]
      records := #[{ type := 0, fields := [("x", .array 0)] }] }
    s.Linked ∧ (Value.array 0).orNull.Within s ∧ (Value.array 0).NaNFree s ∧
      Value.equal (Value.clone s (.array 0)).2 (Value.clone s (.array 0)).1 (.array 0) = true := by
  intro s
  have hs : s.Linked := ⟨by decide, by decide⟩
  have hv : (Value.array 0).orNull.Within s := by decide
  have hnan : (Value.array 0).NaNFree s := .of_everywhere ⟨by decide, by decide⟩ rfl
  exact ⟨hs, hv, hnan, (clone_equal hs hv hnan).1⟩

end LispScript
