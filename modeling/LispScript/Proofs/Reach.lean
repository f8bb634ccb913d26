import LispScript.Proofs.TwinSources

/-!
This module contains what can be reached in a store, and the proof that evaluations stay within it. The
argument compares an evaluation with itself: a renaming that maps every object that can be reached to
itself, and no other one, makes the store alike to itself; so the evaluation goes alongside itself, and
whatever changes, or is in reach of the result, is renamed or new.
-/

namespace LispScript

/--
Nothing may differ.
-/
def Likeness.exact : Likeness where
  placed := True
  name := fun _ => true
  bound := fun _ => True
  bound_of_name := fun _ _ => trivial
  type := fun _ => True
  type_of_nodup := fun _ _ => trivial

variable {L : Likeness} {ρ : Renaming} {s t : Store} {k j : Realm} {a b : Nat}

/-! References. -/

inductive Value.Refers : Value → Realm → Nat → Prop where
  | string (r : Nat) : Refers (.string r) .strings r
  | array (r : Nat) : Refers (.array r) .arrays r
  | recordType (r : Nat) : Refers (.recordType r) .recordTypes r
  | record (r : Nat) : Refers (.record r) .records r
  | closure (r : Nat) : Refers (.closure r) .closures r

/--
What a form itself refers to: the value of a literal, or the site of closures.
-/
inductive Form.Refers : Form Value → Realm → Nat → Prop where
  | literal {v : Value} {k : Realm} {a : Nat} (h : v.Refers k a) : Refers (.literal v) k a
  | lambda (site : Nat) (params : List String) (body : Expr Value) :
      Refers (.lambda site params body) .sites site

inductive Expr.Refers (k : Realm) (a : Nat) : Expr Value → Prop where
  | here {l : Option Location} {form : Form Value} (h : form.Refers k a) : Refers k a (.node l form)
  | part {l : Option Location} {form : Form Value} {e : Expr Value} (he : e ∈ form.parts)
      (h : Refers k a e) : Refers k a (.node l form)

namespace Store

/--
One object holds a reference to another one.
-/
inductive Points (s : Store) : Realm → Nat → Realm → Nat → Prop where
  | element {a : Nat} {v : Value} {j : Realm} {b : Nat} (hv : v ∈ (s.array a).toList)
      (h : v.Refers j b) : Points s .arrays a j b
  | type (a : Nat) : Points s .records a .recordTypes (s.record a).type
  | field {a : Nat} {p : String × Value} {j : Realm} {b : Nat} (hp : p ∈ (s.record a).fields)
      (h : p.2.Refers j b) : Points s .records a j b
  | captured (a : Nat) : Points s .closures a .frames (s.closure a).frame
  | site (a : Nat) : Points s .closures a .sites (s.closure a).site
  | body {a : Nat} {j : Realm} {b : Nat} (h : (s.closure a).body.Refers j b) :
      Points s .closures a j b
  | parent {a p : Nat} (h : (s.frame a).parent = some p) : Points s .frames a .frames p
  | binding {a : Nat} {name : String} {v : Value} {j : Realm} {b : Nat}
      (hv : (s.frame a).lookup name = some v) (h : v.Refers j b) : Points s .frames a j b

/--
The objects that can be reached from those at the start.
-/
inductive Reaches (s : Store) (start : Realm → Nat → Prop) : Realm → Nat → Prop where
  | start {k : Realm} {a : Nat} (h : start k a) : Reaches s start k a
  | step {k j : Realm} {a b : Nat} (h : Reaches s start k a) (hp : s.Points k a j b) :
      Reaches s start j b

end Store

/-! Whatever is alike is renamed as far as it reaches. -/

theorem Value.Alike.refers {v w : Value} (h : v.Alike ρ w) (hv : v.Refers k a) : ∃ b, ρ k a b := by
  cases hv <;> cases h
  all_goals exact ⟨_, by assumption⟩

theorem Form.Alike.parts {A : Expr Value → Expr Value → Prop} {form form' : Form Value}
    (h : form.Alike L ρ A form') : List.Forall₂ A form.parts form'.parts := by
  cases h with
  | sequence hes | block hes | arrayOf hes => exact hes
  | call _ hes => exact hes
  | apply he hes => exact .cons he hes
  | cond hcases =>
    induction hcases with
    | nil => exact .nil
    | cons hc _ ih => exact .cons hc.1 (.cons hc.2 ih)
  | _ => simp_all [Form.parts]

theorem Form.Alike.refers {A : Expr Value → Expr Value → Prop} {form form' : Form Value}
    (h : form.Alike L ρ A form') (hform : form.Refers k a) : ∃ b, ρ k a b := by
  cases hform with
  | literal hv =>
    cases h with
    | literal h => exact h.refers hv
  | lambda =>
    cases h with
    | lambda hsite => exact ⟨_, hsite⟩

theorem Expr.Alike.refers {e e' : Expr Value} (h : e.Alike L ρ e') (he : e.Refers k a) :
    ∃ b, ρ k a b := by
  induction h with
  | absent => cases he
  | node A _ hform _ ih =>
    cases he with
    | here hrefers => exact hform.refers hrefers
    | part hpart hrefers =>
      obtain ⟨e', hA⟩ := left_of_forall₂ hform.parts _ hpart
      exact ih _ _ hA hrefers

theorem Store.Alike.points (hname : ∀ name, L.name name) (h : s.Alike L ρ t) (hab : ρ k a b)
    {c : Nat} (hpoints : s.Points k a j c) : ∃ d, ρ j c d := by
  cases hpoints with
  | element hv hrefers =>
    obtain ⟨w, hvw⟩ := left_of_forall₂ (h.objects hab) _ hv
    exact hvw.refers hrefers
  | type => exact ⟨_, (h.record hab).type⟩
  | field hp hrefers =>
    obtain ⟨q, _, hvw⟩ := left_of_forall₂ (h.record hab).fields _ hp
    exact hvw.refers hrefers
  | captured => exact ⟨_, (h.closure hab).frame⟩
  | site => exact ⟨_, (h.closure hab).site⟩
  | body hrefers => exact (h.closure hab).body.refers hrefers
  | parent hp =>
    obtain ⟨hp', _⟩ | ⟨p, q, hp', _, hpq⟩ := rel_cases (h.frame hab).parent
    . rw [hp'] at hp
      contradiction
    . rw [hp'] at hp
      cases hp
      exact ⟨q, hpq⟩
  | @binding _ name _ _ _ hv hrefers =>
    obtain ⟨hv', _⟩ | ⟨v, w, hv', _, hvw⟩ := rel_cases ((h.frame hab).lookup (hname name))
    . rw [hv'] at hv
      contradiction
    . rw [hv'] at hv
      cases hv
      exact hvw.refers hrefers

theorem Store.Alike.reaches (hname : ∀ name, L.name name) (h : s.Alike L ρ t)
    {start : Realm → Nat → Prop} (hstart : ∀ k a, start k a → ∃ b, ρ k a b)
    (hreaches : s.Reaches start k a) : ∃ b, ρ k a b := by
  induction hreaches with
  | start h => exact hstart _ _ h
  | step _ hpoints ih =>
    obtain ⟨b, hab⟩ := ih
    exact h.points hname hab hpoints

/-! Whatever is renamed to itself, as far as it reaches, is alike to itself. -/

theorem Value.alike_self {v : Value} (h : ∀ k a, v.Refers k a → ρ k a a) : v.Alike ρ v := by
  cases v with
  | string r => exact .string (h _ _ (.string r))
  | array r => exact .array (h _ _ (.array r))
  | recordType r => exact .recordType (h _ _ (.recordType r))
  | record r => exact .record (h _ _ (.record r))
  | closure r => exact .closure (h _ _ (.closure r))
  | _ => constructor

theorem Form.alike_self (hname : ∀ name, L.name name) {A : Expr Value → Expr Value → Prop}
    {form : Form Value} (h : ∀ k a, form.Refers k a → ρ k a a) (hparts : ∀ e ∈ form.parts, A e e) :
    form.Alike L ρ A form := by
  cases form with
  | literal v => exact .literal (Value.alike_self fun k a hv => h k a (.literal hv))
  | lambda site params body =>
    exact .lambda (h _ _ (.lambda ..)) (fun p _ => hname p) (hparts body (by simp [Form.parts]))
  | function name lambda => exact .function (hname name) (hparts lambda (by simp [Form.parts]))
  | cond cases =>
    apply Form.Alike.cond
    rw [List.forall₂_same]
    intro c hc
    constructor
    . exact hparts c.1 (List.mem_flatMap.2 ⟨c, hc, by simp⟩)
    . exact hparts c.2 (List.mem_flatMap.2 ⟨c, hc, by simp⟩)
  | sequence es => exact .sequence (List.forall₂_same.2 hparts)
  | block es => exact .block (List.forall₂_same.2 hparts)
  | arrayOf es => exact .arrayOf (List.forall₂_same.2 hparts)
  | call name es => exact .call (hname name) (List.forall₂_same.2 hparts)
  | apply e es =>
    obtain ⟨he, hes⟩ := List.forall_mem_cons.1 hparts
    exact .apply he (List.forall₂_same.2 hes)
  | _ =>
    constructor
    all_goals first | exact hname _ | exact hparts _ (by simp [Form.parts])

theorem Expr.alike_self (hname : ∀ name, L.name name) (e : Expr Value)
    (h : ∀ k a, e.Refers k a → ρ k a a) : e.Alike L ρ e := by
  have hevery : e.Every fun _ _ => True := Every.of_forall (fun _ _ => trivial) e
  induction hevery with
  | absent => exact .absent
  | @node l form _ _ ih =>
    apply Expr.Alike.node (fun e e' => e = e' ∧ e ∈ form.parts) (fun _ => rfl)
    . apply Form.alike_self hname
      . intro k a hform
        exact h k a (.here hform)
      . intro e he
        exact ⟨rfl, he⟩
    . rintro e _ ⟨rfl, he⟩
      apply ih e he
      intro k a hrefers
      exact h k a (.part he hrefers)

/-! Evaluations. -/

/--
The objects with the given property are there, and their frames are inside of older ones.
-/
structure Store.Intact (s : Store) (P : Realm → Nat → Prop) : Prop where
  lt : ∀ k a, P k a → a < s.extent k
  older : ∀ a, P .frames a → (s.frame a).Older a

theorem Store.Alike.intact (hname : ∀ name, L.name name) (h : s.Alike L ρ t)
    {start : Realm → Nat → Prop} (hstart : ∀ k a, start k a → ∃ b, ρ k a b) :
    s.Intact (s.Reaches start) where
  lt := by
    intro k a ha
    obtain ⟨b, hab⟩ := h.reaches hname hstart ha
    exact (h.bounds hab).1
  older := by
    intro a ha
    obtain ⟨b, hab⟩ := h.reaches hname hstart ha
    exact (h.objects hab).2.1

/--
What is in reach from a start is renamed to itself.
-/
def Store.reachRenaming (s : Store) (start : Realm → Nat → Prop) : Renaming :=
  fun k a b => a = b ∧ s.Reaches start k a

theorem Store.alike_self {start : Realm → Nat → Prop} (h : s.Intact (s.Reaches start)) :
    s.Alike .exact (s.reachRenaming start) s := by
  have hvalue {k : Realm} {a : Nat} (ha : s.Reaches start k a) {v : Value}
      (hv : ∀ j b, v.Refers j b → s.Points k a j b) : v.Alike (s.reachRenaming start) v :=
    Value.alike_self fun j b hb => ⟨rfl, ha.step (hv j b hb)⟩
  have hentries {k : Realm} {a : Nat} (ha : s.Reaches start k a) {ps : List (String × Value)}
      (hps : ∀ p ∈ ps, ∀ j b, p.2.Refers j b → s.Points k a j b) :
      EntriesAlike (s.reachRenaming start) ps ps :=
    List.forall₂_same.2 fun p hp => ⟨rfl, hvalue ha (hps p hp)⟩
  refine ⟨?_, ?_, ?_⟩
  . rintro k a _ ⟨rfl, ha⟩
    exact ⟨h.lt k a ha, h.lt k a ha⟩
  . rintro k a _ a' _ ⟨rfl, _⟩ ⟨rfl, _⟩
    exact Iff.rfl
  . rintro k a _ ⟨rfl, ha⟩
    cases k with
    | strings => exact .refl _
    | arrays => exact List.forall₂_same.2 fun v hv => hvalue ha fun j b hb => .element hv hb
    | recordTypes => exact ⟨rfl, trivial⟩
    | records => exact ⟨⟨rfl, ha.step (.type a)⟩, hentries ha fun p hp j b hb => .field hp hb⟩
    | closures =>
      refine ⟨rfl, fun p _ => rfl, ?_, ⟨rfl, ha.step (.site a)⟩, ⟨rfl, ha.step (.captured a)⟩⟩
      apply Expr.alike_self fun _ => rfl
      intro j b hb
      exact ⟨rfl, ha.step (.body hb)⟩
    | frames =>
      have holder := h.older a ha
      refine ⟨⟨?_, ?_, fun _ _ => trivial, fun _ _ => trivial⟩, holder, holder⟩
      . cases hp : (s.frame a).parent with
        | none => exact .none
        | some p => exact .some ⟨rfl, ha.step (.parent hp)⟩
      . intro name _
        cases hv : (s.frame a).lookup name with
        | none => exact .none
        | some v => exact .some (hvalue ha fun j b hb => .binding hv hb)
    | sites => trivial

/--
Where an evaluation of `e` in a frame starts from.
-/
def Expr.start (e : Expr Value) (frame : Nat) (k : Realm) (a : Nat) : Prop :=
  (k = .frames ∧ a = frame) ∨ e.Refers k a

/--
An evaluation that started from `s` has changed nothing old but what it could reach, and its value
reaches nothing else that is old.
-/
def Store.StaysWithin (s : Store) (reached : Realm → Nat → Prop) :
    EStateM.Result Interrupt Machine Value → Prop
  | .ok v m => s.Spares reached m.store ∧
      ∀ k a, m.store.Reaches v.Refers k a → a < s.extent k → reached k a
  | .error _ m => s.Spares reached m.store

theorem Store.Spares.imp {P Q : Realm → Nat → Prop} (h : s.Spares P t) (hPQ : ∀ k a, P k a → Q k a) :
    s.Spares Q t where
  grows := h.grows
  same := fun k a ha hQ => h.same k a ha fun hP => hQ (hPQ k a hP)

theorem eval_within (context : Option Context) (fuel frame : Nat) (e : Expr Value) (m : Machine)
    (h : m.store.Intact (m.store.Reaches (e.start frame))) :
    m.store.StaysWithin (m.store.Reaches (e.start frame)) (eval context fuel frame e m) := by
  have hstore := Store.alike_self h
  have hframe : m.store.reachRenaming (e.start frame) .frames frame frame :=
    ⟨rfl, .start (.inl ⟨rfl, rfl⟩)⟩
  have he : e.Alike .exact (m.store.reachRenaming (e.start frame)) e :=
    Expr.alike_self (fun _ => rfl) e fun k a ha => ⟨rfl, .start (.inr ha)⟩
  have hcontext : Likeness.exact.placed → context = context := fun _ => rfl
  have hends := eval_twin hcontext fuel hframe he m m ⟨hstore, rfl, rfl, rfl⟩
  generalize eval context fuel frame e m = r at hends ⊢
  have hspares {ρ' : Renaming} {m' n' : Machine}
      (hpassage : m.Passage .exact (m.store.reachRenaming (e.start frame)) ρ' m m' n') :
      m.store.Spares (m.store.Reaches (e.start frame)) m'.store :=
    hpassage.store.left.imp fun k a ⟨b, hab⟩ => hab.2
  cases hends with
  | error hpassage _ => exact hspares hpassage
  | ok hpassage hv =>
    refine ⟨hspares hpassage, ?_⟩
    intro k a ha hold
    obtain ⟨b, hab⟩ := hpassage.alike.store.reaches (fun _ => rfl) (fun j c hc => hv.refers hc) ha
    exact (hpassage.store.old_left hold hab).2

end LispScript
