import LispScript.Proofs.Alike
import Mathlib.Data.List.Perm.Subperm
import Mathlib.Data.List.ProdSigma

/-!
This module contains what can be seen of stores that are alike: names are resolved in frames that stand
for each other, and values that are alike have one printed form, compare in one way and are equal to
the same values. The bounds on recursion that a store's size gives may differ; they are large enough in
either store, because no object is entered twice.
-/

namespace LispScript

variable {L : Likeness} {ρ : Renaming} {s t : Store}

/-! Lists. -/

theorem mem_iff_of_unique {α β : Type} {R : α → β → Prop} {xs : List α} {ys : List β} {a : α} {b : β}
    (h : List.Forall₂ R xs ys) (hab : R a b)
    (hunique : ∀ {a b a' b'}, R a b → R a' b' → (a = a' ↔ b = b')) : a ∈ xs ↔ b ∈ ys := by
  induction h with
  | nil => simp
  | cons hxy _ ih => rw [List.mem_cons, List.mem_cons, ih, hunique hab hxy]

theorem map_eq_of_forall₂ {α β γ : Type} {R : α → β → Prop} {xs : List α} {ys : List β} {f : α → γ}
    {g : β → γ} (h : List.Forall₂ R xs ys) (hfg : ∀ a b, R a b → f a = g b) :
    xs.map f = ys.map g := by
  induction h with
  | nil => rfl
  | cons hxy _ ih => rw [List.map_cons, List.map_cons, hfg _ _ hxy, ih]

theorem left_of_forall₂ {α β : Type} {R : α → β → Prop} {xs : List α} {ys : List β}
    (h : List.Forall₂ R xs ys) : ∀ a ∈ xs, ∃ b, R a b := by
  induction h with
  | nil => simp
  | cons hxy _ ih => exact List.forall_mem_cons.2 ⟨⟨_, hxy⟩, ih⟩

/-! Names. -/

theorem EntriesAlike.lookup {ps qs : List (String × Value)} (h : EntriesAlike ρ ps qs) (name : String) :
    Option.Rel (Value.Alike ρ) (ps.lookup name) (qs.lookup name) := by
  induction h with
  | nil => exact .none
  | @cons p q ps qs hpq _ ih =>
    obtain ⟨key, v⟩ := p
    obtain ⟨key', w⟩ := q
    obtain ⟨rfl, hvw⟩ := hpq
    simp only [List.lookup_cons]
    split
    . exact .some hvw
    . exact ih

theorem isSome_eq_of_rel {α β : Type} {R : α → β → Prop} {x : Option α} {y : Option β}
    (h : Option.Rel R x y) : x.isSome = y.isSome := by
  cases h <;> rfl

theorem Frame.Alike.binds {f f' : Frame} (h : f.Alike L ρ f') {name : String} (hname : L.name name) :
    f.binds name = f'.binds name :=
  isSome_eq_of_rel (h.lookup hname)

namespace Store.Alike

theorem frame (h : s.Alike L ρ t) {a b : Nat} (hab : ρ .frames a b) :
    (s.frame a).Alike L ρ (t.frame b) :=
  (h.objects hab).1

theorem string (h : s.Alike L ρ t) {a b : Nat} (hab : ρ .strings a b) :
    (s.string a).Alike (t.string b) :=
  h.objects hab

theorem chars (h : s.Alike L ρ t) {a b : Nat} (hab : ρ .strings a b) :
    (s.string a).chars = (t.string b).chars :=
  (h.string hab).chars

theorem recordType (h : s.Alike L ρ t) {a b : Nat} (hab : ρ .recordTypes a b) :
    s.recordType a = t.recordType b :=
  (h.objects hab).1

theorem record (h : s.Alike L ρ t) {a b : Nat} (hab : ρ .records a b) :
    (s.record a).Alike ρ (t.record b) :=
  h.objects hab

theorem typeOf (h : s.Alike L ρ t) {a b : Nat} (hab : ρ .records a b) : s.typeOf a = t.typeOf b :=
  h.recordType (h.record hab).type

theorem closure (h : s.Alike L ρ t) {a b : Nat} (hab : ρ .closures a b) :
    (s.closure a).Alike L ρ (t.closure b) :=
  h.objects hab

theorem nearest (h : s.Alike L ρ t) {name : String} (hname : L.name name) {fuel fuel' a b : Nat}
    (hab : ρ .frames a b) (hfuel : a < fuel) (hfuel' : b < fuel') :
    Option.Rel (ρ .frames) (s.nearest name fuel a) (t.nearest name fuel' b) := by
  induction fuel generalizing fuel' a b with
  | zero => contradiction
  | succ fuel ih =>
    obtain _ | fuel' := fuel'
    . contradiction
    . obtain ⟨halike, hleft, hright⟩ := h.objects hab
      have hbinds := halike.binds hname
      rw [Store.nearest, Store.nearest, hbinds]
      split
      . exact .some hab
      . obtain ⟨hp, hq⟩ | ⟨p, q, hp, hq, hpq⟩ := rel_cases halike.parent
        . rw [hp, hq]
          exact .none
        . -- Parents are older, so the bounds go down together with the frames.
          have hpa := hleft p hp
          have hqb := hright q hq
          rw [hp, hq]
          exact ih hpq (by omega) (by omega)

theorem resolve (h : s.Alike L ρ t) {name : String} (hname : L.name name) {a b : Nat}
    (hab : ρ .frames a b) : Option.Rel (ρ .frames) (s.resolve a name) (t.resolve b name) :=
  h.nearest hname hab (Nat.lt_succ_self a) (Nat.lt_succ_self b)

theorem lookup (h : s.Alike L ρ t) {name : String} (hname : L.name name) {a b : Nat}
    (hab : ρ .frames a b) : Option.Rel (Value.Alike ρ) (s.lookup a name) (t.lookup b name) := by
  rw [lookup_eq, lookup_eq]
  obtain ⟨hc, hd⟩ | ⟨c, d, hc, hd, hcd⟩ := rel_cases (h.resolve hname hab)
  . rw [hc, hd]
    exact .none
  . rw [hc, hd]
    exact (h.frame hcd).lookup hname

theorem isBound (h : s.Alike L ρ t) {name : String} (hname : L.name name) {a b : Nat}
    (hab : ρ .frames a b) : s.isBound a name = t.isBound b name := by
  rw [isBound_eq, isBound_eq]
  exact isSome_eq_of_rel (h.resolve hname hab)

end Store.Alike

/-! Printed forms. -/

theorem length_le_of_nodup {xs : List Nat} {n : Nat} (h : xs.Nodup) (hxs : ∀ x ∈ xs, x < n) :
    xs.length ≤ n := by
  have hsub : xs ⊆ List.range n := fun x hx => List.mem_range.2 (hxs x hx)
  simpa using (h.subperm hsub).length_le

/--
The arrays that have been entered in the two stores.
-/
structure Entered (ρ : Renaming) (outer outer' : List Nat) : Prop where
  pairs : List.Forall₂ (ρ .arrays) outer outer'
  left : outer.Nodup
  right : outer'.Nodup

namespace Store.Alike

theorem entered_lt (h : s.Alike L ρ t) {outer outer' : List Nat} (houter : Entered ρ outer outer') :
    outer.length ≤ s.arrays.size ∧ outer'.length ≤ t.arrays.size := by
  constructor
  . apply length_le_of_nodup houter.left
    intro a ha
    obtain ⟨b, hab⟩ := left_of_forall₂ houter.pairs a ha
    exact (h.bounds hab).1
  . apply length_le_of_nodup houter.right
    intro b hb
    obtain ⟨a, hab⟩ := left_of_forall₂ houter.pairs.flip b hb
    exact (h.bounds hab).2

theorem flatText (h : s.Alike L ρ t) {v w : Value} (hvw : v.Alike ρ w) :
    v.flatText s = w.flatText t := by
  cases hvw with
  | string hab => simp only [Value.flatText, h.chars hab]
  | recordType hab => simp only [Value.flatText, h.recordType hab]
  | record hab => simp only [Value.flatText, h.typeOf hab]
  | closure hab => simp only [Value.flatText, (h.closure hab).params]
  | _ => rfl

theorem textInside (h : s.Alike L ρ t) {v w : Value} (hvw : v.Alike ρ w) {outer outer' : List Nat}
    (houter : Entered ρ outer outer') {fuel fuel' : Nat} (hfuel : s.arrays.size < fuel + outer.length)
    (hfuel' : t.arrays.size < fuel' + outer'.length) :
    v.textInside s fuel outer = w.textInside t fuel' outer' := by
  induction fuel generalizing v w outer outer' fuel' with
  | zero =>
    have := h.entered_lt houter
    omega
  | succ fuel ih =>
    obtain _ | fuel' := fuel'
    . have := h.entered_lt houter
      omega
    . have hflat := h.flatText hvw
      cases hvw with
      | @array a b hab =>
        have hmem : a ∈ outer ↔ b ∈ outer' := mem_iff_of_unique houter.pairs hab h.unique
        simp only [Value.textInside, hmem]
        by_cases hb : b ∈ outer'
        . rw [if_pos hb, if_pos hb]
        . have hinside : Entered ρ (a :: outer) (b :: outer') :=
            ⟨.cons hab houter.pairs, List.nodup_cons.2 ⟨fun ha => hb (hmem.1 ha), houter.left⟩,
              List.nodup_cons.2 ⟨hb, houter.right⟩⟩
          rw [if_neg hb, if_neg hb]
          congr 3
          apply map_eq_of_forall₂ (h.objects hab)
          intro x y hxy
          apply ih hxy hinside
          . rw [List.length_cons]
            omega
          . rw [List.length_cons]
            omega
      | _ => exact hflat

theorem text (h : s.Alike L ρ t) {v w : Value} (hvw : v.Alike ρ w) : v.text s = w.text t := by
  apply h.textInside hvw ⟨.nil, .nil, .nil⟩
  . simp
  . simp

/-! Order. -/

theorem compare? (h : s.Alike L ρ t) {v v' w w' : Value} (hv : v.Alike ρ v') (hw : w.Alike ρ w') :
    Value.compare? s v w = Value.compare? t v' w' := by
  cases hv <;> cases hw
  case string.string hab _ _ hcd => simp only [Value.compare?, h.chars hab, h.chars hcd]
  all_goals rfl

/-! Equality. -/

theorem eq_iff (h : s.Alike L ρ t) {k : Realm} {a b a' b' : Nat} (ha : ρ k a a') (hb : ρ k b b') :
    (a == b) = (a' == b') := by
  have := h.unique ha hb
  by_cases hab : a = b <;> simp_all

theorem sameClosure (h : s.Alike L ρ t) {a b a' b' : Nat} (ha : ρ .closures a a')
    (hb : ρ .closures b b') : s.sameClosure a b = t.sameClosure a' b' := by
  have hx := h.closure ha
  have hy := h.closure hb
  simp only [Store.sameClosure, hx.params, hy.params, hx.body.isAbsent, hy.body.isAbsent,
    h.eq_iff ha hb, h.eq_iff hx.frame hy.frame, h.eq_iff hx.site hy.site]

theorem equalFlat (h : s.Alike L ρ t) {v v' w w' : Value} (hv : v.Alike ρ v') (hw : w.Alike ρ w') :
    Value.equalFlat s v w = Value.equalFlat t v' w' := by
  cases hv <;> cases hw
  case string.string hab _ _ hcd =>
    simp only [Value.equalFlat, Value.orNull, h.chars hab, h.chars hcd]
  case recordType.recordType hab _ _ hcd =>
    simp only [Value.equalFlat, Value.orNull, h.recordType hab, h.recordType hcd]
  case closure.closure hab _ _ hcd =>
    simp only [Value.equalFlat, Value.orNull, h.sameClosure hab hcd]
  all_goals rfl

end Store.Alike

namespace Value

inductive Pair.Alike (ρ : Renaming) : Pair → Pair → Prop where
  | arrays {a b a' b' : Nat} (ha : ρ .arrays a a') (hb : ρ .arrays b b') :
      Alike ρ (.arrays a b) (.arrays a' b')
  | records {a b a' b' : Nat} (ha : ρ .records a a') (hb : ρ .records b b') :
      Alike ρ (.records a b) (.records a' b')

/--
The pairs of objects that a store has.
-/
def Pair.all (s : Store) : List Pair :=
  (List.range s.arrays.size ×ˢ List.range s.arrays.size).map (fun p => .arrays p.1 p.2) ++
    (List.range s.records.size ×ˢ List.range s.records.size).map fun p => .records p.1 p.2

theorem Pair.length_all (s : Store) :
    (Pair.all s).length = s.arrays.size * s.arrays.size + s.records.size * s.records.size := by
  simp [Pair.all, List.length_product]

/--
The pairs that have been met in the two stores.
-/
structure Met (ρ : Renaming) (met met' : List Pair) : Prop where
  pairs : List.Forall₂ (Pair.Alike ρ) met met'
  left : met.Nodup
  right : met'.Nodup

/--
Two comparisons agree; by now, at least `n` pairs have been met.
-/
structure Agree (ρ : Renaming) (n : Nat) (r r' : Bool × List Pair) : Prop where
  answer : r.1 = r'.1
  met : Met ρ r.2 r'.2
  length : n ≤ r.2.length

end Value

namespace Store.Alike

open Value (Pair Met Agree)

theorem pair_unique (h : s.Alike L ρ t) {p p' q q' : Pair} (hp : p.Alike ρ p') (hq : q.Alike ρ q') :
    p = q ↔ p' = q' := by
  cases hp with
  | arrays ha hb =>
    cases hq with
    | arrays hc hd => simp [h.unique ha hc, h.unique hb hd]
    | records hc hd => simp
  | records ha hb =>
    cases hq with
    | arrays hc hd => simp
    | records hc hd => simp [h.unique ha hc, h.unique hb hd]

theorem pair_mem_all (h : s.Alike L ρ t) {p p' : Pair} (hp : p.Alike ρ p') :
    p ∈ Pair.all s ∧ p' ∈ Pair.all t := by
  cases hp with
  | arrays ha hb =>
    have ha := h.bounds ha
    have hb := h.bounds hb
    simp only [extent] at ha hb
    simp [Pair.all, ha, hb]
  | records ha hb =>
    have ha := h.bounds ha
    have hb := h.bounds hb
    simp only [extent] at ha hb
    simp [Pair.all, ha, hb]

theorem met_le (h : s.Alike L ρ t) {met met' : List Pair} (hmet : Met ρ met met') :
    met.length ≤ (Pair.all s).length ∧ met'.length ≤ (Pair.all t).length := by
  constructor
  . apply (hmet.left.subperm _).length_le
    intro p hp
    obtain ⟨p', hpp'⟩ := left_of_forall₂ hmet.pairs p hp
    exact (h.pair_mem_all hpp').1
  . apply (hmet.right.subperm _).length_le
    intro p' hp'
    obtain ⟨p, hpp'⟩ := left_of_forall₂ hmet.pairs.flip p' hp'
    exact (h.pair_mem_all hpp').2

theorem equalAll {f f' : List Pair → Value → Value → Bool × List Pair} {n : Nat}
    (hf : ∀ {met met' v v' w w'}, Met ρ met met' → n ≤ met.length → v.Alike ρ v' → w.Alike ρ w' →
      Agree ρ met.length (f met v w) (f' met' v' w'))
    {pairs pairs' : List (Value × Value)}
    (hpairs : List.Forall₂ (fun p q => p.1.Alike ρ q.1 ∧ p.2.Alike ρ q.2) pairs pairs')
    {met met' : List Pair} (hmet : Met ρ met met') (hn : n ≤ met.length) :
    Agree ρ met.length (Value.equalAll f met pairs) (Value.equalAll f' met' pairs') := by
  induction hpairs generalizing met met' with
  | nil => exact ⟨rfl, hmet, Nat.le_refl _⟩
  | @cons p q pairs pairs' hpq _ ih =>
    obtain ⟨a, b⟩ := p
    obtain ⟨a', b'⟩ := q
    have hhead := hf hmet hn hpq.1 hpq.2
    simp only [Value.equalAll]
    rcases hr : f met a b with ⟨answer, first⟩
    rcases hr' : f' met' a' b' with ⟨answer', first'⟩
    rw [hr, hr'] at hhead
    obtain rfl : answer = answer' := hhead.answer
    cases answer with
    | false => exact hhead
    | true =>
      have hrest := ih hhead.met (Nat.le_trans hn hhead.length)
      exact ⟨hrest.answer, hrest.met, Nat.le_trans hhead.length hrest.length⟩

/--
How a pair `p` is compared that comes up when the pairs `met` have been met.
-/
theorem meet (h : s.Alike L ρ t) {p p' : Pair} (hp : p.Alike ρ p') {same same' fits fits' : Prop}
    [Decidable same] [Decidable same'] [Decidable fits] [Decidable fits'] (hsame : same ↔ same')
    (hfits : fits ↔ fits') {met met' : List Pair} (hmet : Met ρ met met') {r r' : Bool × List Pair}
    (hr : Met ρ (p :: met) (p' :: met') → fits' → Agree ρ (met.length + 1) r r') :
    Agree ρ met.length
      (if same ∨ p ∈ met then (true, met) else if fits then r else (false, p :: met))
      (if same' ∨ p' ∈ met' then (true, met') else if fits' then r' else (false, p' :: met')) := by
  have hmem : p ∈ met ↔ p' ∈ met' := mem_iff_of_unique hmet.pairs hp h.pair_unique
  simp only [hsame, hmem, hfits]
  by_cases hknown : same' ∨ p' ∈ met'
  . rw [if_pos hknown, if_pos hknown]
    exact ⟨rfl, hmet, Nat.le_refl _⟩
  . obtain ⟨_, hp'⟩ := not_or.1 hknown
    have hmet' : Met ρ (p :: met) (p' :: met') :=
      ⟨.cons hp hmet.pairs, List.nodup_cons.2 ⟨fun hp => hp' (hmem.1 hp), hmet.left⟩,
        List.nodup_cons.2 ⟨hp', hmet.right⟩⟩
    rw [if_neg hknown, if_neg hknown]
    by_cases hfits' : fits'
    . rw [if_pos hfits', if_pos hfits']
      have := hr hmet' hfits'
      exact ⟨this.answer, this.met, Nat.le_of_succ_le this.length⟩
    . rw [if_neg hfits', if_neg hfits']
      exact ⟨rfl, hmet', Nat.le_succ _⟩

theorem zip {vs vs' ws ws' : List Value} (hv : ValuesAlike ρ vs vs') (hw : ValuesAlike ρ ws ws') :
    List.Forall₂ (fun p q => p.1.Alike ρ q.1 ∧ p.2.Alike ρ q.2) (vs.zip ws) (vs'.zip ws') := by
  induction hv generalizing ws ws' with
  | nil => exact .nil
  | cons hhead _ ih =>
    cases hw with
    | nil => exact .nil
    | cons hhead' hrest' => exact .cons ⟨hhead, hhead'⟩ (ih hrest')

theorem field {r r' : Record} (hr : r.Alike ρ r') (member : String) :
    (Value.field r member).Alike ρ (Value.field r' member) := by
  unfold Value.field
  obtain ⟨hv, hw⟩ | ⟨v, w, hv, hw, hvw⟩ := rel_cases (EntriesAlike.lookup hr.fields member)
  . rw [hv, hw]
    exact .absent
  . rw [hv, hw]
    exact hvw

theorem equalMeeting (h : s.Alike L ρ t) {v v' w w' : Value} (hv : v.Alike ρ v') (hw : w.Alike ρ w')
    {met met' : List Pair} (hmet : Met ρ met met') {fuel fuel' : Nat}
    (hfuel : (Pair.all s).length < fuel + met.length)
    (hfuel' : (Pair.all t).length < fuel' + met'.length) :
    Agree ρ met.length (Value.equalMeeting s fuel met v w) (Value.equalMeeting t fuel' met' v' w') := by
  induction fuel generalizing v v' w w' met met' fuel' with
  | zero =>
    have := h.met_le hmet
    omega
  | succ fuel ih =>
    obtain _ | fuel' := fuel'
    . have := h.met_le hmet
      omega
    . have hlength : met.length = met'.length := hmet.pairs.length_eq
      have hinner : ∀ {later later' : List Pair} {v v' w w' : Value}, Met ρ later later' →
          met.length + 1 ≤ later.length → v.Alike ρ v' → w.Alike ρ w' →
          Agree ρ later.length (Value.equalMeeting s fuel later v w)
            (Value.equalMeeting t fuel' later' v' w') := by
        intro later later' v v' w w' hlater hle hv hw
        have := hlater.pairs.length_eq
        exact ih hv hw hlater (by omega) (by omega)
      have hflat : Agree ρ met.length (Value.equalFlat s v w, met) (Value.equalFlat t v' w', met') :=
        ⟨h.equalFlat hv hw, hmet, Nat.le_refl _⟩
      cases hv <;> cases hw
      case array.array a a' ha b b' hb =>
        have hx : ValuesAlike ρ (s.array a).toList (t.array a').toList := h.objects ha
        have hy : ValuesAlike ρ (s.array b).toList (t.array b').toList := h.objects hb
        apply h.meet (.arrays ha hb) (h.unique ha hb) _ hmet
        . intro hmet' _
          exact equalAll hinner (zip hx hy) hmet' (Nat.le_refl _)
        . have hx := hx.length_eq
          have hy := hy.length_eq
          simp only [Array.length_toList] at hx hy
          rw [hx, hy]
      case record.record a a' ha b b' hb =>
        apply h.meet (.records ha hb) (h.unique ha hb) _ hmet
        . intro hmet' _
          apply equalAll hinner _ hmet' (Nat.le_refl _)
          rw [h.typeOf ha, List.forall₂_map_left_iff, List.forall₂_map_right_iff, List.forall₂_same]
          intro member _
          exact ⟨field (h.record ha) member, field (h.record hb) member⟩
        . rw [h.typeOf ha, h.typeOf hb]
      all_goals exact hflat

theorem equal (h : s.Alike L ρ t) {v v' w w' : Value} (hv : v.Alike ρ v') (hw : w.Alike ρ w') :
    Value.equal s v w = Value.equal t v' w' := by
  apply Agree.answer
  apply h.equalMeeting hv hw ⟨.nil, .nil, .nil⟩
  . simp [Pair.length_all]
  . simp [Pair.length_all]

theorem compare (h : s.Alike L ρ t) (op : CompareOp) {v v' w w' : Value} (hv : v.Alike ρ v')
    (hw : w.Alike ρ w') : Primitive.compare s op v w = Primitive.compare t op v' w' := by
  have hcomparable : v.comparable w = v'.comparable w' := by
    simp only [Value.comparable, Value.isNumber, hv.kind, hw.kind]
  unfold Primitive.compare
  rw [hcomparable, hv.kind, hw.kind, h.equal hv hw, h.compare? hv hw]

end Store.Alike

end LispScript
