import LispScript.Value.Print
import Mathlib.Data.List.Perm.Subperm
import Mathlib.Logic.Relation

/-!
This module contains the proof that values are printed as their unfolding says, whatever cycles the
arrays of the store form. `Value.Prints` follows the unfolding without a bound: it looks at an occurrence
of an array and at the arrays that enclose the occurrence, and goes on into the elements unless the array
is one of these. The bound on the depth is never reached, because the arrays that enclose each other are
different ones.
-/

namespace LispScript

namespace Value

/--
The printed form of an array whose elements are printed as `texts`.
-/
def bracketed (texts : List String) : String :=
  "[" ++ " ".intercalate texts ++ "]"

/--
An occurrence of a value inside of the arrays `outer` is printed as a text. An array is cut off exactly
where it is one of those that enclose the occurrence.
-/
inductive Prints (s : Store) : List Nat → Value → String → Prop where
  | flat {outer : List Nat} {v : Value} (hflat : v.array? = none) : Prints s outer v (v.flatText s)
  | again {outer : List Nat} {r : Nat} (houter : r ∈ outer) : Prints s outer (.array r) "[...]"
  | elements {outer : List Nat} {r : Nat} {texts : List String} (houter : r ∉ outer)
      (hlength : texts.length = (s.array r).size)
      (htexts : ∀ (i : Nat) (v : Value) (t : String), (s.array r)[i]? = some v → texts[i]? = some t →
        Prints s (r :: outer) v t) : Prints s outer (.array r) (bracketed texts)

/--
A value is printed as a text if arrays are never cut off.
-/
inductive PrintsPlainly (s : Store) : Value → String → Prop where
  | flat {v : Value} (hflat : v.array? = none) : PrintsPlainly s v (v.flatText s)
  | elements {r : Nat} {texts : List String} (hlength : texts.length = (s.array r).size)
      (htexts : ∀ (i : Nat) (v : Value) (t : String), (s.array r)[i]? = some v → texts[i]? = some t →
        PrintsPlainly s v t) : PrintsPlainly s (.array r) (bracketed texts)

variable {s : Store} {outer : List Nat} {v : Value} {r r' : Nat} {t t' : String}

/-! One text. -/

theorem texts_unique {elements : Array Value} {texts texts' : List String}
    (hlength : texts.length = elements.size) (hlength' : texts'.length = elements.size)
    (h : ∀ (i : Nat) (v : Value) (t t' : String), elements[i]? = some v → texts[i]? = some t →
      texts'[i]? = some t' → t = t') : texts = texts' := by
  apply List.ext_getElem (by omega)
  intro i hi hi'
  have hvalue : elements[i]? = some elements[i] := Array.getElem?_eq_getElem (by omega)
  apply h i _ _ _ hvalue (List.getElem?_eq_getElem hi) (List.getElem?_eq_getElem hi')

theorem Prints.unique (h : Prints s outer v t) (h' : Prints s outer v t') : t = t' := by
  induction h generalizing t' with
  | flat hflat =>
    cases h' with
    | flat => rfl
    | again => contradiction
    | elements => contradiction
  | again houter =>
    cases h' with
    | flat => contradiction
    | again => rfl
    | elements houter' => contradiction
  | @elements outer r texts houter hlength _ ih =>
    cases h' with
    | flat => contradiction
    | again houter' => contradiction
    | @elements _ _ texts' _ hlength' htexts' =>
      rw [texts_unique hlength hlength']
      intro i v t t' hv ht ht'
      apply ih i v t hv ht (htexts' i v t' hv ht')

/-! The bound on the depth. -/

/--
The arrays that enclose an occurrence: they are different ones, and together with the levels that are
left they are more than all the arrays.
-/
structure Enclosing (s : Store) (fuel : Nat) (outer : List Nat) : Prop where
  distinct : outer.Nodup
  within : ∀ r ∈ outer, r < s.arrays.size
  levels : s.arrays.size < fuel + outer.length

theorem Enclosing.fuel_pos {fuel : Nat} (h : Enclosing s fuel outer) : fuel ≠ 0 := by
  rintro rfl
  have hsubset : outer ⊆ List.range s.arrays.size := by
    intro r hr
    apply List.mem_range.2 (h.within r hr)
  have hlength := (List.subperm_of_subset h.distinct hsubset).length_le
  have hlevels := h.levels
  rw [List.length_range] at hlength
  omega

theorem Enclosing.enter {fuel : Nat} (h : Enclosing s (fuel + 1) outer) (houter : r ∉ outer)
    (hr : r < s.arrays.size) : Enclosing s fuel (r :: outer) where
  distinct := List.nodup_cons.2 ⟨houter, h.distinct⟩
  within := List.forall_mem_cons.2 ⟨hr, h.within⟩
  levels := by
    have hlevels := h.levels
    rw [List.length_cons]
    omega

theorem array_of_le (hr : s.arrays.size ≤ r) : s.array r = #[] := by
  simp [Store.array, hr]

theorem textInside_flat (fuel : Nat) (hflat : v.array? = none) :
    textInside s fuel outer v = v.flatText s := by
  unfold textInside
  split
  . contradiction
  . rfl

theorem textInside_prints {fuel : Nat} (h : Enclosing s fuel outer) (v : Value) :
    Prints s outer v (textInside s fuel outer v) := by
  induction fuel generalizing outer v with
  | zero => exact absurd rfl h.fuel_pos
  | succ fuel ih =>
    cases hv : v.array? with
    | none =>
      rw [textInside_flat _ hv]
      apply Prints.flat hv
    | some r =>
      obtain rfl : v = .array r := by
        cases v with
        | array => simpa [array?] using hv
        | _ => contradiction
      rw [textInside]
      split
      . next houter => apply Prints.again houter
      . next houter =>
        apply Prints.elements houter (by simp)
        intro i w t hw ht
        rw [List.getElem?_map, Array.getElem?_toList, hw] at ht
        cases ht
        -- An array that the store does not have has no elements.
        have hr : r < s.arrays.size := by
          apply Nat.lt_of_not_le
          intro hr
          rw [array_of_le hr] at hw
          contradiction
        apply ih (h.enter houter hr)

theorem text_prints (s : Store) (v : Value) : Prints s [] v (v.text s) := by
  apply textInside_prints
  exact ⟨List.nodup_nil, by simp, by simp⟩

/-! Arrays without cycles. -/

/--
The array `r'` is an element of the array `r`.
-/
def Holds (s : Store) (r r' : Nat) : Prop :=
  .array r' ∈ s.array r

/--
From a value no array can be reached that stands inside of itself. Only elements of arrays are followed.
-/
def CycleFree (s : Store) (v : Value) : Prop :=
  ∀ r, v = .array r → ∀ r', Relation.ReflTransGen (Holds s) r r' → ¬ Relation.TransGen (Holds s) r' r'

theorem CycleFree.element (h : CycleFree s (.array r)) {i : Nat} (hv : (s.array r)[i]? = some v) :
    CycleFree s v := by
  rintro r₁ rfl r' hreach
  have hholds : Holds s r r₁ := Array.mem_of_getElem? hv
  apply h r rfl r' (.head hholds hreach)

theorem CycleFree.of_elements
    (h : ∀ (i : Nat) (v : Value), (s.array r)[i]? = some v → CycleFree s v) : CycleFree s (.array r) := by
  have hholds : ∀ r₁, Holds s r r₁ → CycleFree s (.array r₁) := by
    intro r₁ hr₁
    obtain ⟨i, hi⟩ := Array.mem_iff_getElem?.1 hr₁
    apply h i _ hi
  rintro _ ⟨⟩ r' hreach hcycle
  cases hreach.cases_head with
  | inl hsame =>
    -- The first step of the cycle leads to an element, which would be on the cycle, too.
    subst hsame
    obtain ⟨r₁, hr₁, hback⟩ := Relation.TransGen.head'_iff.1 hcycle
    apply hholds r₁ hr₁ r₁ rfl r₁ .refl
    apply Relation.TransGen.tail' hback hr₁
  | inr hstep =>
    obtain ⟨r₁, hr₁, hrest⟩ := hstep
    apply hholds r₁ hr₁ r₁ rfl r' hrest hcycle

theorem PrintsPlainly.cycleFree (h : PrintsPlainly s v t) : CycleFree s v := by
  induction h with
  | flat hflat =>
    rintro r rfl
    contradiction
  | @elements r texts hlength _ ih =>
    apply CycleFree.of_elements
    intro i w hw
    have hi : i < texts.length := by
      rw [hlength]
      exact (Array.getElem?_eq_some_iff.1 hw).1
    apply ih i w _ hw (List.getElem?_eq_getElem hi)

/--
Where there are no cycles, none of the enclosing arrays, from which the value is reached, is met again.
-/
theorem Prints.plainly (h : Prints s outer v t) (hfree : CycleFree s v)
    (houter : ∀ a ∈ outer, ∀ r, v = .array r → Relation.TransGen (Holds s) a r) :
    PrintsPlainly s v t := by
  induction h with
  | flat hflat => apply PrintsPlainly.flat hflat
  | @again outer r hr => exact absurd (houter r hr r rfl) (hfree r rfl r .refl)
  | @elements outer r texts _ hlength _ ih =>
    apply PrintsPlainly.elements hlength
    intro i w t hw ht
    apply ih i w t hw ht (hfree.element hw)
    have hholds : ∀ r₁, w = .array r₁ → Holds s r r₁ := by
      rintro r₁ rfl
      apply Array.mem_of_getElem? hw
    rw [List.forall_mem_cons]
    constructor
    . intro r₁ hr₁
      apply Relation.TransGen.single (hholds r₁ hr₁)
    . intro a ha r₁ hr₁
      apply (houter a ha r rfl).tail (hholds r₁ hr₁)

theorem PrintsPlainly.unique (h : PrintsPlainly s v t) (h' : PrintsPlainly s v t') : t = t' := by
  induction h generalizing t' with
  | flat hflat =>
    cases h' with
    | flat => rfl
    | elements => contradiction
  | @elements r texts hlength _ ih =>
    cases h' with
    | flat => contradiction
    | @elements _ texts' hlength' htexts' =>
      rw [texts_unique hlength hlength']
      intro i v t t' hv ht ht'
      apply ih i v t hv ht (htexts' i v t' hv ht')

/--
Printing ends for every value of every store, with the text that the unfolding of the value says. The plain
recursion ends if and only if no cycle of arrays can be reached, and then with the same text, no matter how
many arrays share their elements.
-/
theorem text_unfolds (s : Store) (v : Value) :
    (∀ t, Prints s [] v t ↔ t = v.text s) ∧
      ((∃ t, PrintsPlainly s v t) ↔ CycleFree s v) ∧
      (CycleFree s v → ∀ t, PrintsPlainly s v t ↔ t = v.text s) := by
  have hprints := text_prints s v
  have hplainly : CycleFree s v → PrintsPlainly s v (v.text s) :=
    fun hfree => hprints.plainly hfree (by simp)
  refine ⟨?_, ?_, ?_⟩
  . intro t
    constructor
    . intro h
      apply h.unique hprints
    . rintro rfl
      apply hprints
  . constructor
    . rintro ⟨t, h⟩
      apply h.cycleFree
    . intro hfree
      exact ⟨_, hplainly hfree⟩
  . intro hfree t
    constructor
    . intro h
      apply h.unique (hplainly hfree)
    . rintro rfl
      apply hplainly hfree

/--
An array that is shared prints as often as it is met.
-/
theorem text_unfolds_shared :
    let s : Store := { arrays := #[#[.boolean true], #[.array 0, .array 0]] }
    CycleFree s (.array 1) ∧ PrintsPlainly s (.array 1) "[[true] [true]]" := by
  intro s
  have hinner : CycleFree s (.array 0) := by
    apply CycleFree.of_elements
    intro i v hi
    obtain ⟨rfl⟩ : v = .boolean true := by
      have := Array.mem_of_getElem? hi
      simpa [s, Store.array] using this
    nofun
  have hfree : CycleFree s (.array 1) := by
    apply CycleFree.of_elements
    intro i v hi
    obtain ⟨rfl⟩ : v = .array 0 := by
      have := Array.mem_of_getElem? hi
      simpa [s, Store.array] using this
    apply hinner
  exact ⟨hfree, ((text_unfolds s (.array 1)).2.2 hfree _).2 rfl⟩

example : text { arrays := #[#[.boolean true, .array 0]] } (.array 0) = "[true [...]]" := by
  rfl

end Value

end LispScript
