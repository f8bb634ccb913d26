import LispScript.Proofs.Observation

/-!
This module contains the proof that two values are equal if and only if they are bisimilar, whatever
cycles and shared parts they have. A comparison takes every pair of objects for equal that it has met
before, whether that pair is still being compared or is done with. This is sound because a comparison
that comes out true leaves behind only pairs whose parts are met as well, and so adds nothing to what
follows from the pairs that were met before it.
-/

namespace LispScript

namespace Value

/--
What two values have to agree in directly; the values inside of them have to be related by `R`.
-/
inductive Matches (s : Store) (R : Value → Value → Prop) : Value → Value → Prop where
  | null {a b : Value} (ha : a = .null ∨ a = .absent) (hb : b = .null ∨ b = .absent) : Matches s R a b
  | integer (n : Int64) : Matches s R (.integer n) (.integer n)
  /-- Numbers that are not both integers are compared as reals. -/
  | real {a b : Value} {x y : Float} (hreal : a.integer? = none ∨ b.integer? = none)
      (ha : a.real? = some x) (hb : b.real? = some y) (h : x == y) : Matches s R a b
  | char (c : Char) : Matches s R (.char c) (.char c)
  | boolean (x : Bool) : Matches s R (.boolean x) (.boolean x)
  | string {r t : Nat} (h : (s.string r).chars = (s.string t).chars) :
      Matches s R (.string r) (.string t)
  | closure {r t : Nat} (h : s.sameClosure r t) : Matches s R (.closure r) (.closure t)
  | recordType {r t : Nat} (hname : (s.recordType r).name = (s.recordType t).name)
      (hmembers : (s.recordType r).members = (s.recordType t).members) :
      Matches s R (.recordType r) (.recordType t)
  | sameArray (r : Nat) : Matches s R (.array r) (.array r)
  | array {r t : Nat} (hsize : (s.array r).size = (s.array t).size)
      (h : ∀ (i : Nat) (x y : Value), (s.array r)[i]? = some x → (s.array t)[i]? = some y → R x y) :
      Matches s R (.array r) (.array t)
  | sameRecord (r : Nat) : Matches s R (.record r) (.record r)
  | record {r t : Nat} (htype : s.typeOf r = s.typeOf t)
      (h : ∀ m ∈ (s.typeOf r).members, R (field (s.record r) m) (field (s.record t) m)) :
      Matches s R (.record r) (.record t)

/--
Some relation holds between the two values, and whatever it relates agrees up to that relation.
-/
def Bisimilar (s : Store) (a b : Value) : Prop :=
  ∃ R : Value → Value → Prop, (∀ x y, R x y → Matches s R x y) ∧ R a b

/-! Pairs. -/

/--
The pair of objects that has to be entered to compare two values.
-/
def pair? : Value → Value → Option Pair
  | .array a, .array b => some (.arrays a b)
  | .record a, .record b => some (.records a b)
  | _, _ => none

namespace Pair

def IsSame : Pair → Prop
  | arrays a b => a = b
  | records a b => a = b

/--
The two objects have the same shape.
-/
def Fits (s : Store) : Pair → Prop
  | arrays a b => (s.array a).size = (s.array b).size
  | records a b => s.typeOf a = s.typeOf b

/--
The values inside of the two objects that are compared with each other.
-/
def parts (s : Store) : Pair → List (Value × Value)
  | arrays a b => (s.array a).toList.zip (s.array b).toList
  | records a b => (s.typeOf a).members.map fun m => (field (s.record a) m, field (s.record b) m)

instance (p : Pair) : Decidable p.IsSame :=
  match p with
  | arrays a b => inferInstanceAs (Decidable (a = b))
  | records a b => inferInstanceAs (Decidable (a = b))

instance (s : Store) (p : Pair) : Decidable (p.Fits s) :=
  match p with
  | arrays a b => inferInstanceAs (Decidable ((s.array a).size = (s.array b).size))
  | records a b => inferInstanceAs (Decidable (s.typeOf a = s.typeOf b))

end Pair

variable {s : Store} {R R' : Value → Value → Prop} {a b : Value} {p : Pair} {fuel : Nat}
  {met met' later : List Pair}

theorem equalMeeting_flat (h : pair? a b = none) (fuel : Nat) (met : List Pair) :
    equalMeeting s fuel met a b = (equalFlat s a b, met) := by
  cases fuel <;> cases a <;> cases b <;> first | rfl | contradiction

theorem equalMeeting_zero (h : pair? a b = some p) (met : List Pair) :
    equalMeeting s 0 met a b = (false, met) := by
  cases a <;> cases b <;> first | rfl | contradiction

theorem equalMeeting_succ (h : pair? a b = some p) (fuel : Nat) (met : List Pair) :
    equalMeeting s (fuel + 1) met a b
      = if p.IsSame ∨ p ∈ met then (true, met)
        else if p.Fits s then equalAll (equalMeeting s fuel) (p :: met) (p.parts s)
        else (false, p :: met) := by
  cases a <;> cases b <;> first | contradiction | cases h; rfl

/--
A comparison descends from a pair of objects to pairs of values on less fuel.
-/
@[elab_as_elim]
theorem descent {motive : Nat → Value → Value → Prop}
    (flat : ∀ fuel a b, pair? a b = none → motive fuel a b)
    (spent : ∀ a b p, pair? a b = some p → motive 0 a b)
    (enter : ∀ fuel a b p, pair? a b = some p → (∀ x y, motive fuel x y) → motive (fuel + 1) a b)
    (fuel : Nat) (a b : Value) : motive fuel a b := by
  induction fuel generalizing a b with
  | zero =>
    cases hp : pair? a b with
    | none => exact flat 0 a b hp
    | some p => exact spent a b p hp
  | succ fuel ih =>
    cases hp : pair? a b with
    | none => exact flat (fuel + 1) a b hp
    | some p => exact enter fuel a b p hp ih

theorem Matches.mono (h : Matches s R a b) (hR : ∀ x y, R x y → R' x y) : Matches s R' a b := by
  cases h with
  | null ha hb => exact .null ha hb
  | integer n => exact .integer n
  | real hreal ha hb h => exact .real hreal ha hb h
  | char c => exact .char c
  | boolean x => exact .boolean x
  | string h => exact .string h
  | closure h => exact .closure h
  | recordType hname hmembers => exact .recordType hname hmembers
  | sameArray r => exact .sameArray r
  | array hsize h => exact .array hsize fun i x y hx hy => hR x y (h i x y hx hy)
  | sameRecord r => exact .sameRecord r
  | record htype h => exact .record htype fun m hm => hR _ _ (h m hm)

theorem equalFlat_of_matches (hflat : pair? a b = none) (hab : Matches s R a b) :
    equalFlat s a b = true := by
  cases hab with
  | null ha hb => rcases ha with rfl | rfl <;> rcases hb with rfl | rfl <;> rfl
  | integer n => simp [equalFlat, orNull, equalNumbers]
  | real hreal ha hb h =>
    cases a <;> cases b <;> simp_all [equalFlat, orNull, equalNumbers, real?, integer?]
  | char c => simp [equalFlat, orNull]
  | boolean x => simp [equalFlat, orNull]
  | string h => simp [equalFlat, orNull, h]
  | closure h => simp [equalFlat, orNull, h]
  | @recordType r t hname hmembers =>
    have : s.recordType r = s.recordType t := by
      cases hr : s.recordType r
      cases ht : s.recordType t
      simp_all
    simp [equalFlat, orNull, this]
  | sameArray | array | sameRecord | record => contradiction

theorem matches_of_equalFlat (h : equalFlat s a b = true) : Matches s R a b := by
  cases a <;> cases b
  case null.null => exact .null (.inl rfl) (.inl rfl)
  case null.absent => exact .null (.inl rfl) (.inr rfl)
  case absent.null => exact .null (.inr rfl) (.inl rfl)
  case absent.absent => exact .null (.inr rfl) (.inr rfl)
  case integer.integer m n =>
    obtain rfl : m = n := by simpa [equalFlat, orNull, equalNumbers] using h
    exact .integer m
  case integer.real => exact .real (.inr rfl) rfl rfl h
  case real.integer => exact .real (.inl rfl) rfl rfl h
  case real.real => exact .real (.inl rfl) rfl rfl h
  case char.char c d =>
    obtain rfl : c = d := by simpa [equalFlat, orNull] using h
    exact .char c
  case boolean.boolean x y =>
    obtain rfl : x = y := by simpa [equalFlat, orNull] using h
    exact .boolean x
  case string.string => exact .string (by simpa [equalFlat, orNull] using h)
  case closure.closure => exact .closure h
  case recordType.recordType r t =>
    have : s.recordType r = s.recordType t := by simpa [equalFlat, orNull] using h
    exact .recordType (by rw [this]) (by rw [this])
  all_goals contradiction

theorem matches_flat (h : pair? a b = none) : Matches s R a b ↔ equalFlat s a b = true :=
  ⟨equalFlat_of_matches h, matches_of_equalFlat⟩

theorem matches_pair (h : pair? a b = some p) :
    Matches s R a b ↔ p.IsSame ∨ p.Fits s ∧ ∀ c ∈ p.parts s, R c.1 c.2 := by
  cases a <;> cases b <;> cases h
  case array.array r t =>
    have hparts : (∀ c ∈ (Pair.arrays r t).parts s, R c.1 c.2) ↔
        ∀ (i : Nat) (x y : Value), (s.array r)[i]? = some x → (s.array t)[i]? = some y → R x y := by
      simp only [Pair.parts, List.mem_iff_getElem?, List.getElem?_zip_eq_some, Prod.forall,
        Array.getElem?_toList]
      exact ⟨fun h i x y hx hy => h x y ⟨i, hx, hy⟩, fun h x y ⟨i, hx, hy⟩ => h i x y hx hy⟩
    rw [hparts]
    constructor
    . intro h
      cases h with
      | null ha => simp at ha
      | real _ ha => contradiction
      | sameArray => exact .inl rfl
      | array hsize h => exact .inr ⟨hsize, h⟩
    . rintro (hsame | ⟨hsize, h⟩)
      . cases hsame
        exact .sameArray r
      . exact .array hsize h
  case record.record r t =>
    simp only [Pair.parts, List.forall_mem_map]
    constructor
    . intro h
      cases h with
      | null ha => simp at ha
      | real _ ha => contradiction
      | sameRecord => exact .inl rfl
      | record htype h => exact .inr ⟨htype, h⟩
    . rintro (hsame | ⟨htype, h⟩)
      . cases hsame
        exact .sameRecord r
      . exact .record htype h

/-! Pairs that are met. -/

theorem equalAll_grows {f : List Pair → Value → Value → Bool × List Pair}
    (hf : ∀ met a b, met ⊆ (f met a b).2) (met : List Pair) (pairs : List (Value × Value)) :
    met ⊆ (equalAll f met pairs).2 := by
  induction pairs generalizing met with
  | nil => exact List.Subset.refl met
  | cons c rest ih =>
    obtain ⟨a, b⟩ := c
    have hhead := hf met a b
    simp only [equalAll]
    rcases hr : f met a b with ⟨answer, first⟩
    rw [hr] at hhead
    cases answer with
    | false => exact hhead
    | true => exact List.Subset.trans hhead (ih first)

theorem equalMeeting_grows (fuel : Nat) (met : List Pair) (a b : Value) :
    met ⊆ (equalMeeting s fuel met a b).2 := by
  induction fuel, a, b using descent generalizing met with
  | flat fuel a b hp => simp [equalMeeting_flat hp]
  | spent a b p hp => simp [equalMeeting_zero hp]
  | enter fuel a b p hp ih =>
    rw [equalMeeting_succ hp]
    split
    . exact List.Subset.refl met
    . split
      . exact List.Subset.trans (List.subset_cons_self p met)
          (equalAll_grows (fun met a b => ih a b met) _ _)
      . exact List.subset_cons_self p met

/--
The pairs of objects of a store that have not been met.
-/
def unmet (s : Store) (met : List Pair) : List Pair :=
  (Pair.all s).filter fun p => !met.contains p

theorem unmet_length_le (h : met ⊆ met') : (unmet s met').length ≤ (unmet s met).length := by
  apply List.Sublist.length_le
  apply List.monotone_filter_right
  intro p hp
  simp only [List.contains_eq_mem, Bool.not_eq_true', decide_eq_false_iff_not] at hp ⊢
  exact fun hmet => hp (h hmet)

theorem unmet_length_lt (hall : p ∈ Pair.all s) (hp : p ∉ met) :
    (unmet s (p :: met)).length < (unmet s met).length := by
  have hfilter : unmet s (p :: met) = (unmet s met).filter fun q => decide (q ≠ p) := by
    simp [unmet, List.filter_filter]
  rw [hfilter, List.length_filter_lt_length_iff_exists]
  refine ⟨p, ?_, by simp⟩
  simp [unmet, hall, hp]

theorem array_of_size_le {r : Nat} (h : s.arrays.size ≤ r) : s.array r = #[] := by
  simp [Store.array, h]

theorem field_of_size_le {r : Nat} (h : s.records.size ≤ r) (m : String) :
    field (s.record r) m = .absent := by
  have hrecord : s.record r = default := by simp [Store.record, h]
  rw [hrecord]
  rfl

/--
Objects that a store does not have are empty, so that a pair with one of them has no parts that would
have to be entered.
-/
theorem pair?_parts (h : p ∉ Pair.all s) (hfits : p.Fits s) :
    ∀ c ∈ p.parts s, pair? c.1 c.2 = none := by
  cases p with
  | arrays r t =>
    have hout : s.arrays.size ≤ r ∨ s.arrays.size ≤ t := by
      simp [Pair.all] at h
      omega
    have hempty : s.array r = #[] := by
      rcases hout with hr | ht
      . exact array_of_size_le hr
      . simpa [Pair.Fits, array_of_size_le ht] using hfits
    simp [Pair.parts, hempty]
  | records r t =>
    have hout : s.records.size ≤ r ∨ s.records.size ≤ t := by
      simp [Pair.all] at h
      omega
    simp only [Pair.parts, List.forall_mem_map]
    intro m _
    rcases hout with hr | ht
    . rw [field_of_size_le hr]
      rfl
    . rw [field_of_size_le ht]
      cases field (s.record r) m <;> rfl

/--
The fuel lasts for a comparison of the two values when the pairs `met` have been met.
-/
def Lasts (s : Store) (fuel : Nat) (met : List Pair) (a b : Value) : Prop :=
  ∀ p, pair? a b = some p → (unmet s met).length < fuel

theorem lasts_of_lt (h : (Pair.all s).length < fuel) (met : List Pair) (a b : Value) :
    Lasts s fuel met a b :=
  fun _ _ => Nat.lt_of_le_of_lt (List.length_filter_le _ _) h

theorem Lasts.part (h : Lasts s (fuel + 1) met a b) (hp : pair? a b = some p) (hmet : p ∉ met)
    (hfits : p.Fits s) (hlater : p :: met ⊆ later) {c : Value × Value} (hc : c ∈ p.parts s) :
    Lasts s fuel later c.1 c.2 := by
  intro q hq
  by_cases hall : p ∈ Pair.all s
  . have hlt := unmet_length_lt hall hmet
    have hle := unmet_length_le (s := s) hlater
    have := h p hp
    omega
  . rw [pair?_parts hall hfits c hc] at hq
    contradiction

theorem equalAll_congr {f g : List Pair → Value → Value → Bool × List Pair}
    (hf : ∀ met a b, met ⊆ (f met a b).2) {pairs : List (Value × Value)}
    (h : ∀ later, met ⊆ later → ∀ c ∈ pairs, f later c.1 c.2 = g later c.1 c.2) :
    equalAll f met pairs = equalAll g met pairs := by
  induction pairs generalizing met with
  | nil => rfl
  | cons c rest ih =>
    obtain ⟨a, b⟩ := c
    have hhead := hf met a b
    simp only [equalAll]
    rw [← h met (List.Subset.refl met) (a, b) List.mem_cons_self]
    rcases hr : f met a b with ⟨answer, first⟩
    rw [hr] at hhead
    cases answer with
    | false => rfl
    | true =>
      apply ih
      intro later hlater c hc
      exact h later (List.Subset.trans hhead hlater) c (List.mem_cons_of_mem _ hc)

theorem equalMeeting_fuel {fuel' : Nat} (h : Lasts s fuel met a b) (h' : Lasts s fuel' met a b) :
    equalMeeting s fuel met a b = equalMeeting s fuel' met a b := by
  induction fuel, a, b using descent generalizing met fuel' with
  | flat fuel a b hp => rw [equalMeeting_flat hp, equalMeeting_flat hp]
  | spent a b p hp =>
    have := h p hp
    omega
  | enter fuel a b p hp ih =>
    obtain _ | fuel' := fuel'
    . have := h' p hp
      omega
    . rw [equalMeeting_succ hp, equalMeeting_succ hp]
      by_cases hknown : p.IsSame ∨ p ∈ met
      . rw [if_pos hknown, if_pos hknown]
      . obtain ⟨_, hmet⟩ := not_or.1 hknown
        rw [if_neg hknown, if_neg hknown]
        by_cases hfits : p.Fits s
        . rw [if_pos hfits, if_pos hfits]
          apply equalAll_congr (equalMeeting_grows fuel)
          intro later hlater c hc
          exact ih c.1 c.2 (h.part hp hmet hfits hlater hc) (h'.part hp hmet hfits hlater hc)
        . rw [if_neg hfits, if_neg hfits]

/-! What follows from the pairs that have been met. -/

/--
The two values are bisimilar if the pairs `met` are.
-/
def BisimilarGiven (s : Store) (met : List Pair) (a b : Value) : Prop :=
  ∃ R : Value → Value → Prop,
    (∀ x y, R x y → (∃ p ∈ met, pair? x y = some p) ∨ Matches s R x y) ∧ R a b

theorem bisimilarGiven_nil : BisimilarGiven s [] a b ↔ Bisimilar s a b := by
  simp [BisimilarGiven, Bisimilar]

theorem equalAll_true {f : List Pair → Value → Value → Bool × List Pair}
    (hf : ∀ met a b, met ⊆ (f met a b).2) {pairs : List (Value × Value)}
    (h : ∀ later, met ⊆ later → ∀ c ∈ pairs, (f later c.1 c.2).1 = true) :
    (equalAll f met pairs).1 = true := by
  induction pairs generalizing met with
  | nil => rfl
  | cons c rest ih =>
    obtain ⟨a, b⟩ := c
    have hhead := hf met a b
    have htrue := h met (List.Subset.refl met) (a, b) List.mem_cons_self
    simp only [equalAll]
    rcases hr : f met a b with ⟨answer, first⟩
    rw [hr] at hhead htrue
    obtain rfl : answer = true := htrue
    apply ih
    intro later hlater c hc
    exact h later (List.Subset.trans hhead hlater) c (List.mem_cons_of_mem _ hc)

theorem equalMeeting_true (hR : ∀ x y, R x y → (∃ p ∈ met, pair? x y = some p) ∨ Matches s R x y)
    (hlater : met ⊆ later) (hab : R a b) (hfuel : Lasts s fuel later a b) :
    (equalMeeting s fuel later a b).1 = true := by
  induction fuel, a, b using descent generalizing later with
  | flat fuel a b hp =>
    rw [equalMeeting_flat hp]
    exact (matches_flat hp).1 ((hR a b hab).resolve_left (by simp [hp]))
  | spent a b p hp =>
    have := hfuel p hp
    omega
  | enter fuel a b p hp ih =>
    rw [equalMeeting_succ hp]
    by_cases hknown : p.IsSame ∨ p ∈ later
    . rw [if_pos hknown]
    . obtain ⟨hsame, hmet⟩ := not_or.1 hknown
      rw [if_neg hknown]
      have hnew : ¬∃ p ∈ met, pair? a b = some p := by
        rintro ⟨q, hq, hpq⟩
        obtain rfl : p = q := Option.some.inj (hp.symm.trans hpq)
        exact hmet (hlater hq)
      have hmatches := (hR a b hab).resolve_left hnew
      obtain ⟨hfits, hparts⟩ := ((matches_pair hp).1 hmatches).resolve_left hsame
      rw [if_pos hfits]
      apply equalAll_true (equalMeeting_grows fuel)
      intro later' hlater' c hc
      have hsub : met ⊆ later' :=
        List.Subset.trans hlater (List.Subset.trans (List.subset_cons_self p later) hlater')
      exact ih c.1 c.2 hsub (hparts c hc) (hfuel.part hp hmet hfits hlater' hc)

/--
The two values are equal as far as they can be seen without entering a pair that has not been met.
-/
def Agreed (s : Store) (met : List Pair) (a b : Value) : Prop :=
  match pair? a b with
  | none => equalFlat s a b = true
  | some p => p.IsSame ∨ p ∈ met

theorem agreed_flat (h : pair? a b = none) : Agreed s met a b ↔ equalFlat s a b = true := by
  simp [Agreed, h]

theorem agreed_pair (h : pair? a b = some p) : Agreed s met a b ↔ p.IsSame ∨ p ∈ met := by
  simp [Agreed, h]

theorem Agreed.mono (h : Agreed s met a b) (hsub : met ⊆ later) : Agreed s later a b := by
  cases hp : pair? a b with
  | none =>
    rw [agreed_flat hp] at h ⊢
    exact h
  | some p =>
    rw [agreed_pair hp] at h ⊢
    exact h.imp id fun hmet => hsub hmet

/--
From `met` on, only pairs have been met whose parts agree by now.
-/
structure Completes (s : Store) (met later : List Pair) : Prop where
  grows : met ⊆ later
  parts : ∀ p ∈ later, p ∉ met → p.Fits s ∧ ∀ c ∈ p.parts s, Agreed s later c.1 c.2

namespace Completes

theorem refl (s : Store) (met : List Pair) : Completes s met met where
  grows := List.Subset.refl met
  parts := fun _ hp hnew => absurd hp hnew

theorem trans {last : List Pair} (h : Completes s met later) (h' : Completes s later last) :
    Completes s met last where
  grows := List.Subset.trans h.grows h'.grows
  parts := by
    intro p hp hnew
    by_cases hlater : p ∈ later
    . obtain ⟨hfits, hparts⟩ := h.parts p hlater hnew
      exact ⟨hfits, fun c hc => (hparts c hc).mono h'.grows⟩
    . exact h'.parts p hp hlater

/--
A pair is completed when the comparison of its parts is.
-/
theorem enter (h : Completes s (p :: met) later) (hfits : p.Fits s)
    (hparts : ∀ c ∈ p.parts s, Agreed s later c.1 c.2) : Completes s met later where
  grows := List.Subset.trans (List.subset_cons_self p met) h.grows
  parts := by
    intro q hq hnew
    by_cases hqp : q = p
    . subst hqp
      exact ⟨hfits, hparts⟩
    . exact h.parts q hq (by simp [hqp, hnew])

/--
What agrees is bisimilar, if the pairs are that were met at the start.
-/
theorem bisimilar (h : Completes s met later) {x y : Value} (hxy : Agreed s later x y) :
    (∃ p ∈ met, pair? x y = some p) ∨ Matches s (Agreed s later) x y := by
  cases hp : pair? x y with
  | none => exact .inr ((matches_flat hp).2 ((agreed_flat hp).1 hxy))
  | some p =>
    by_cases hmet : p ∈ met
    . exact .inl ⟨p, hmet, rfl⟩
    . right
      rw [matches_pair hp]
      exact ((agreed_pair hp).1 hxy).imp id fun hlater => h.parts p hlater hmet

end Completes

theorem equalAll_completes {f : List Pair → Value → Value → Bool × List Pair}
    (hf : ∀ a b {met later}, f met a b = (true, later) → Completes s met later ∧ Agreed s later a b)
    {pairs : List (Value × Value)} (h : equalAll f met pairs = (true, later)) :
    Completes s met later ∧ ∀ c ∈ pairs, Agreed s later c.1 c.2 := by
  induction pairs generalizing met with
  | nil =>
    obtain rfl : met = later := congrArg Prod.snd h
    exact ⟨.refl s met, nofun⟩
  | cons c rest ih =>
    obtain ⟨a, b⟩ := c
    simp only [equalAll] at h
    rcases hr : f met a b with ⟨answer, first⟩
    rw [hr] at h
    cases answer with
    | false => simp at h
    | true =>
      obtain ⟨hhead, hagreed⟩ := hf a b hr
      obtain ⟨hrest, hall⟩ := ih h
      exact ⟨hhead.trans hrest, List.forall_mem_cons.2 ⟨hagreed.mono hrest.grows, hall⟩⟩

theorem equalMeeting_completes (h : equalMeeting s fuel met a b = (true, later)) :
    Completes s met later ∧ Agreed s later a b := by
  induction fuel, a, b using descent generalizing met later with
  | flat fuel a b hp =>
    rw [equalMeeting_flat hp, Prod.mk.injEq] at h
    obtain ⟨hflat, rfl⟩ := h
    exact ⟨.refl s met, (agreed_flat hp).2 hflat⟩
  | spent a b p hp =>
    rw [equalMeeting_zero hp] at h
    simp at h
  | enter fuel a b p hp ih =>
    rw [equalMeeting_succ hp] at h
    split at h
    . next hknown =>
      obtain rfl : met = later := congrArg Prod.snd h
      exact ⟨.refl s met, (agreed_pair hp).2 hknown⟩
    . split at h
      . next hfits =>
        obtain ⟨hcompletes, hparts⟩ := equalAll_completes ih h
        exact ⟨hcompletes.enter hfits hparts,
          (agreed_pair hp).2 (.inr (hcompletes.grows List.mem_cons_self))⟩
      . simp at h

theorem equalMeeting_eq_true_iff (hfuel : Lasts s fuel met a b) :
    (equalMeeting s fuel met a b).1 = true ↔ BisimilarGiven s met a b := by
  constructor
  . intro h
    obtain ⟨hcompletes, hagreed⟩ := equalMeeting_completes (Prod.ext_iff.2 ⟨h, rfl⟩)
    exact ⟨_, fun _ _ => hcompletes.bisimilar, hagreed⟩
  . rintro ⟨R, hR, hab⟩
    exact equalMeeting_true hR (List.Subset.refl met) hab hfuel

/--
Pairs whose comparison was completed may be taken for equal or not: the same follows.
-/
theorem Completes.bisimilarGiven_iff (h : Completes s met later) :
    BisimilarGiven s later a b ↔ BisimilarGiven s met a b := by
  constructor
  . rintro ⟨R, hR, hab⟩
    refine ⟨fun x y => R x y ∨ Agreed s later x y, ?_, .inl hab⟩
    have hagreed : ∀ x y, Agreed s later x y → (∃ p ∈ met, pair? x y = some p) ∨
        Matches s (fun x y => R x y ∨ Agreed s later x y) x y :=
      fun x y hxy => (h.bisimilar hxy).imp id fun hmatches => hmatches.mono fun _ _ => .inr
    rintro x y (hxy | hxy)
    . rcases hR x y hxy with ⟨p, hp, hpair⟩ | hmatches
      . exact hagreed x y ((agreed_pair hpair).2 (.inr hp))
      . exact .inr (hmatches.mono fun _ _ => .inl)
    . exact hagreed x y hxy
  . rintro ⟨R, hR, hab⟩
    refine ⟨R, fun x y hxy => (hR x y hxy).imp ?_ id, hab⟩
    rintro ⟨p, hp, hpair⟩
    exact ⟨p, h.grows hp, hpair⟩

theorem equal_eq_true_iff (s : Store) (a b : Value) : equal s a b = true ↔ Bisimilar s a b := by
  have hfuel := lasts_of_lt (Nat.lt_succ_self (Pair.all s).length) [] a b
  rw [← bisimilarGiven_nil, ← equalMeeting_eq_true_iff hfuel, Pair.length_all]
  rfl

/--
What there is to say about the comparison of two values.
-/
structure Compared (s : Store) (a b : Value) : Prop where
  exact : equal s a b = true ↔ Bisimilar s a b
  -- The comparison ends by itself: no fuel beyond the number of pairs changes anything.
  ends : ∀ fuel met, (Pair.all s).length < fuel →
    equalMeeting s fuel met a b = equalMeeting s ((Pair.all s).length + 1) met a b
  -- It does not matter which pairs an earlier comparison has met, as long as that came out true.
  unswayed : ∀ fuel met later x y, (Pair.all s).length < fuel →
    equalMeeting s fuel met x y = (true, later) →
    (equalMeeting s fuel later a b).1 = (equalMeeting s fuel met a b).1

end Value

theorem equal_iff_bisimilar (s : Store) (a b : Value) : Value.Compared s a b where
  exact := Value.equal_eq_true_iff s a b
  ends := by
    intro fuel met hfuel
    exact Value.equalMeeting_fuel (Value.lasts_of_lt hfuel met a b)
      (Value.lasts_of_lt (Nat.lt_succ_self _) met a b)
  unswayed := by
    intro fuel met later x y hfuel h
    obtain ⟨hcompletes, _⟩ := Value.equalMeeting_completes h
    rw [Bool.eq_iff_iff, Value.equalMeeting_eq_true_iff (Value.lasts_of_lt hfuel later a b),
      Value.equalMeeting_eq_true_iff (Value.lasts_of_lt hfuel met a b)]
    exact hcompletes.bisimilarGiven_iff

-- Two arrays that contain each other are equal; one that contains itself twice is equal to neither.
example :
    let s : Store := { arrays := #[#[.array 1], #[.array 0], #[.array 2, .array 2]] }
    Value.equal s (.array 0) (.array 1) = true ∧ Value.equal s (.array 1) (.array 2) = false := by
  decide

end LispScript
