import LispScript.Eval
import LispScript.Proofs.Realm
import LispScript.Proofs.Tree
import Mathlib.Data.List.Forall2
import Mathlib.Order.Basic

/-!
This module contains what it means that two runs of programs are alike. A `Renaming` says which objects
of the one run stand for which objects of the other. Objects that are not renamed may be anything, so
that two stores can be alike in one part only. A `Likeness` says what else may differ: whether
locations count, and which names trees mention, so that other bindings of a frame are of no account.
-/

namespace LispScript

abbrev Renaming := Realm → Nat → Nat → Prop

/--
The renaming with one more pair of objects.
-/
def Renaming.add (ρ : Renaming) (k : Realm) (a b : Nat) : Renaming :=
  fun j c d => ρ j c d ∨ (j = k ∧ c = a ∧ d = b)

theorem Renaming.le_add (ρ : Renaming) (k : Realm) (a b : Nat) : ρ ≤ ρ.add k a b :=
  fun _ _ _ h => .inl h

theorem Renaming.add_self (ρ : Renaming) (k : Realm) (a b : Nat) : ρ.add k a b k a b :=
  .inr ⟨rfl, rfl, rfl⟩

/--
The renaming of one frame.
-/
def Renaming.single (a b : Nat) : Renaming :=
  fun k c d => k = .frames ∧ c = a ∧ d = b

/--
Every object of either store stands for one of the other.
-/
def Renaming.Covers (ρ : Renaming) (s t : Store) : Prop :=
  ∀ k, (∀ a < s.extent k, ∃ b, ρ k a b) ∧ ∀ b < t.extent k, ∃ a, ρ k a b

theorem rel_imp {α β : Type} {R S : α → β → Prop} {x : Option α} {y : Option β} (h : Option.Rel R x y)
    (hRS : ∀ a b, R a b → S a b) : Option.Rel S x y := by
  cases h with
  | some h => exact .some (hRS _ _ h)
  | none => exact .none

theorem rel_cases {α β : Type} {R : α → β → Prop} {x : Option α} {y : Option β} (h : Option.Rel R x y) :
    (x = none ∧ y = none) ∨ ∃ a b, x = some a ∧ y = some b ∧ R a b := by
  cases h with
  | some h => exact .inr ⟨_, _, rfl, rfl, h⟩
  | none => exact .inl ⟨rfl, rfl⟩

structure Likeness where
  /-- Do locations count? -/
  placed : Prop
  /-- The names that trees may mention. -/
  name : String → Bool
  /-- The names that frames may bind. -/
  bound : String → Prop
  bound_of_name : ∀ n, name n → bound n
  type : RecordType → Prop
  type_of_nodup : ∀ t : RecordType, t.members.Nodup → type t

variable {L : Likeness} {ρ ρ' : Renaming}

/-! Outcomes. -/

def Likeness.place (L : Likeness) (l l' : Option Location) : Prop :=
  L.placed → l = l'

structure Failure.Alike (L : Likeness) (f g : Failure) : Prop where
  fault : f.fault = g.fault
  placed : L.placed → f = g

inductive Interrupt.Alike (L : Likeness) : Interrupt → Interrupt → Prop where
  | breakLoop {l l' : Option Location} (h : L.place l l') : Alike L (.breakLoop l) (.breakLoop l')
  | failure {f g : Failure} (h : f.Alike L g) : Alike L (.failure f) (.failure g)
  | exhausted : Alike L .exhausted .exhausted

namespace Failure.Alike

theorem refl (L : Likeness) (f : Failure) : f.Alike L f where
  fault := rfl
  placed := fun _ => rfl

theorem fault_locate (context : Option Context) (location : Option Location) (f : Failure) :
    (f.locate context location).fault = f.fault := by
  unfold Failure.locate
  split <;> rfl

theorem locate {f g : Failure} (h : f.Alike L g) {c c' : Option Context} (hcontext : L.placed → c = c')
    {l l' : Option Location} (hplace : L.place l l') : (f.locate c l).Alike L (g.locate c' l') where
  fault := by
    rw [fault_locate, fault_locate, h.fault]
  placed := by
    intro hplaced
    rw [h.placed hplaced, hplace hplaced, hcontext hplaced]

theorem ofBreak {c c' : Option Context} (hcontext : L.placed → c = c') {l l' : Option Location}
    (hplace : L.place l l') : (Failure.ofBreak c l).Alike L (Failure.ofBreak c' l') where
  fault := rfl
  placed := by
    intro hplaced
    rw [hplace hplaced, hcontext hplaced]

end Failure.Alike

/-! Values. -/

namespace Value

inductive Alike (ρ : Renaming) : Value → Value → Prop where
  | absent : Alike ρ .absent .absent
  | null : Alike ρ .null .null
  | integer (n : Int64) : Alike ρ (.integer n) (.integer n)
  | real (x : Float) : Alike ρ (.real x) (.real x)
  | char (c : Char) : Alike ρ (.char c) (.char c)
  | boolean (b : Bool) : Alike ρ (.boolean b) (.boolean b)
  | string {a b : Nat} (h : ρ .strings a b) : Alike ρ (.string a) (.string b)
  | array {a b : Nat} (h : ρ .arrays a b) : Alike ρ (.array a) (.array b)
  | recordType {a b : Nat} (h : ρ .recordTypes a b) : Alike ρ (.recordType a) (.recordType b)
  | record {a b : Nat} (h : ρ .records a b) : Alike ρ (.record a) (.record b)
  | closure {a b : Nat} (h : ρ .closures a b) : Alike ρ (.closure a) (.closure b)

namespace Alike

variable {v w : Value}

theorem mono (h : v.Alike ρ w) (hρ : ρ ≤ ρ') : v.Alike ρ' w := by
  cases h with
  | string h => exact .string (hρ _ _ _ h)
  | array h => exact .array (hρ _ _ _ h)
  | recordType h => exact .recordType (hρ _ _ _ h)
  | record h => exact .record (hρ _ _ _ h)
  | closure h => exact .closure (hρ _ _ _ h)
  | _ => constructor

theorem kind (h : v.Alike ρ w) : v.kind = w.kind := by
  cases h <;> rfl

theorem orNull (h : v.Alike ρ w) : v.orNull.Alike ρ w.orNull := by
  cases h with
  | absent => exact .null
  | null => exact .null
  | integer n => exact .integer n
  | real x => exact .real x
  | char c => exact .char c
  | boolean b => exact .boolean b
  | string h => exact .string h
  | array h => exact .array h
  | recordType h => exact .recordType h
  | record h => exact .record h
  | closure h => exact .closure h

end Alike

end Value

abbrev ValuesAlike (ρ : Renaming) : List Value → List Value → Prop :=
  List.Forall₂ (Value.Alike ρ)

/--
Named values: the names are the same, and the values are alike.
-/
def EntryAlike (ρ : Renaming) (p q : String × Value) : Prop :=
  p.1 = q.1 ∧ p.2.Alike ρ q.2

abbrev EntriesAlike (ρ : Renaming) : List (String × Value) → List (String × Value) → Prop :=
  List.Forall₂ (EntryAlike ρ)

theorem ValuesAlike.mono {vs ws : List Value} (h : ValuesAlike ρ vs ws) (hρ : ρ ≤ ρ') :
    ValuesAlike ρ' vs ws :=
  h.imp fun _ _ hv => hv.mono hρ

theorem EntriesAlike.mono {ps qs : List (String × Value)} (h : EntriesAlike ρ ps qs) (hρ : ρ ≤ ρ') :
    EntriesAlike ρ' ps qs :=
  h.imp fun _ _ hp => ⟨hp.1, hp.2.mono hρ⟩

/-! Trees. -/

/--
Forms of one shape, if parts that are related by `A` are alike.
-/
inductive Form.Alike (L : Likeness) (ρ : Renaming) (A : Expr Value → Expr Value → Prop) :
    Form Value → Form Value → Prop where
  | literal {v w : Value} (h : v.Alike ρ w) : Alike L ρ A (.literal v) (.literal w)
  | symbol {name : String} (hname : L.name name) : Alike L ρ A (.symbol name) (.symbol name)
  | define {name : String} {e e' : Expr Value} (hname : L.name name) (he : A e e') :
      Alike L ρ A (.define name e) (.define name e')
  | assign {name : String} {e e' : Expr Value} (hname : L.name name) (he : A e e') :
      Alike L ρ A (.assign name e) (.assign name e')
  | isBound {name : String} (hname : L.name name) : Alike L ρ A (.isBound name) (.isBound name)
  | clone {e e' : Expr Value} (he : A e e') : Alike L ρ A (.clone e) (.clone e')
  | sequence {es es' : List (Expr Value)} (hes : List.Forall₂ A es es') :
      Alike L ρ A (.sequence es) (.sequence es')
  | block {es es' : List (Expr Value)} (hes : List.Forall₂ A es es') :
      Alike L ρ A (.block es) (.block es')
  | arith {op : ArithOp} {a a' b b' : Expr Value} (ha : A a a') (hb : A b b') :
      Alike L ρ A (.arith op a b) (.arith op a' b')
  | compare {op : CompareOp} {a a' b b' : Expr Value} (ha : A a a') (hb : A b b') :
      Alike L ρ A (.compare op a b) (.compare op a' b')
  | logic {op : LogicOp} {a a' b b' : Expr Value} (ha : A a a') (hb : A b b') :
      Alike L ρ A (.logic op a b) (.logic op a' b')
  | negate {e e' : Expr Value} (he : A e e') : Alike L ρ A (.negate e) (.negate e')
  | branch {a a' b b' c c' : Expr Value} (ha : A a a') (hb : A b b') (hc : A c c') :
      Alike L ρ A (.branch a b c) (.branch a' b' c')
  | cond {cases cases' : List (Expr Value × Expr Value)}
      (hcases : List.Forall₂ (fun c d => A c.1 d.1 ∧ A c.2 d.2) cases cases') :
      Alike L ρ A (.cond cases) (.cond cases')
  | loop {a a' b b' c c' d d' : Expr Value} (ha : A a a') (hb : A b b') (hc : A c c') (hd : A d d') :
      Alike L ρ A (.loop a b c d) (.loop a' b' c' d')
  | breakLoop : Alike L ρ A .breakLoop .breakLoop
  | lambda {site site' : Nat} {params : List String} {e e' : Expr Value} (hsite : ρ .sites site site')
      (hparams : ∀ p ∈ params, L.name p) (he : A e e') :
      Alike L ρ A (.lambda site params e) (.lambda site' params e')
  | apply {e e' : Expr Value} {es es' : List (Expr Value)} (he : A e e')
      (hes : List.Forall₂ A es es') : Alike L ρ A (.apply e es) (.apply e' es')
  | function {name : String} {e e' : Expr Value} (hname : L.name name) (he : A e e') :
      Alike L ρ A (.function name e) (.function name e')
  | call {name : String} {es es' : List (Expr Value)} (hname : L.name name)
      (hes : List.Forall₂ A es es') : Alike L ρ A (.call name es) (.call name es')
  | isType {e e' : Expr Value} {type : TypeName} (he : A e e') :
      Alike L ρ A (.isType e type) (.isType e' type)
  | print {e e' : Expr Value} {newline : Bool} (he : A e e') :
      Alike L ρ A (.print e newline) (.print e' newline)
  | read : Alike L ρ A .read .read
  | recordType {name : String} {members : List String} :
      Alike L ρ A (.recordType name members) (.recordType name members)
  | isTypeNamed {e e' : Expr Value} {name : String} (he : A e e') :
      Alike L ρ A (.isTypeNamed e name) (.isTypeNamed e' name)
  | makeRecord {e e' : Expr Value} (he : A e e') : Alike L ρ A (.makeRecord e) (.makeRecord e')
  | isRecordOf {a a' b b' : Expr Value} (ha : A a a') (hb : A b b') :
      Alike L ρ A (.isRecordOf a b) (.isRecordOf a' b')
  | getMember {e e' : Expr Value} {member : String} (he : A e e') :
      Alike L ρ A (.getMember e member) (.getMember e' member)
  | setMember {a a' b b' : Expr Value} {member : String} (ha : A a a') (hb : A b b') :
      Alike L ρ A (.setMember a member b) (.setMember a' member b')
  | stringLength {e e' : Expr Value} (he : A e e') : Alike L ρ A (.stringLength e) (.stringLength e')
  | charAt {a a' b b' : Expr Value} (ha : A a a') (hb : A b b') :
      Alike L ρ A (.charAt a b) (.charAt a' b')
  | setCharAt {a a' b b' c c' : Expr Value} (ha : A a a') (hb : A b b') (hc : A c c') :
      Alike L ρ A (.setCharAt a b c) (.setCharAt a' b' c')
  | concat {a a' b b' : Expr Value} (ha : A a a') (hb : A b b') :
      Alike L ρ A (.concat a b) (.concat a' b')
  | substring {a a' b b' c c' : Expr Value} (ha : A a a') (hb : A b b') (hc : A c c') :
      Alike L ρ A (.substring a b c) (.substring a' b' c')
  | find {a a' b b' c c' : Expr Value} (ha : A a a') (hb : A b b') (hc : A c c') :
      Alike L ρ A (.find a b c) (.find a' b' c')
  | arrayOf {es es' : List (Expr Value)} (hes : List.Forall₂ A es es') :
      Alike L ρ A (.arrayOf es) (.arrayOf es')
  | makeArray {a a' b b' : Expr Value} (ha : A a a') (hb : A b b') :
      Alike L ρ A (.makeArray a b) (.makeArray a' b')
  | arrayLength {e e' : Expr Value} (he : A e e') : Alike L ρ A (.arrayLength e) (.arrayLength e')
  | arrayGet {a a' b b' : Expr Value} (ha : A a a') (hb : A b b') :
      Alike L ρ A (.arrayGet a b) (.arrayGet a' b')
  | arraySet {a a' b b' c c' : Expr Value} (ha : A a a') (hb : A b b') (hc : A c c') :
      Alike L ρ A (.arraySet a b c) (.arraySet a' b' c')
  | arrayAdd {a a' b b' : Expr Value} (ha : A a a') (hb : A b b') :
      Alike L ρ A (.arrayAdd a b) (.arrayAdd a' b')

/--
Trees of one shape. `A` is any relation of the parts that makes them alike in turn.
-/
inductive Expr.Alike (L : Likeness) (ρ : Renaming) : Expr Value → Expr Value → Prop where
  | absent : Alike L ρ .absent .absent
  | node {l l' : Option Location} {form form' : Form Value} (A : Expr Value → Expr Value → Prop)
      (hplace : L.place l l') (hform : form.Alike L ρ A form')
      (hparts : ∀ e e', A e e' → Alike L ρ e e') : Alike L ρ (.node l form) (.node l' form')

theorem Form.Alike.mono {A B : Expr Value → Expr Value → Prop} {form form' : Form Value}
    (h : form.Alike L ρ A form') (hρ : ρ ≤ ρ') (hA : ∀ e e', A e e' → B e e') :
    form.Alike L ρ' B form' := by
  cases h with
  | literal h => exact .literal (h.mono hρ)
  | lambda hsite hparams he => exact .lambda (hρ _ _ _ hsite) hparams (hA _ _ he)
  | sequence hes => exact .sequence (hes.imp hA)
  | block hes => exact .block (hes.imp hA)
  | apply he hes => exact .apply (hA _ _ he) (hes.imp hA)
  | call hname hes => exact .call hname (hes.imp hA)
  | arrayOf hes => exact .arrayOf (hes.imp hA)
  | cond hcases => exact .cond (hcases.imp fun _ _ hc => ⟨hA _ _ hc.1, hA _ _ hc.2⟩)
  | _ =>
    constructor
    all_goals first | assumption | (apply hA; assumption)

namespace Expr.Alike

variable {e e' : Expr Value}

theorem mono (h : e.Alike L ρ e') (hρ : ρ ≤ ρ') : e.Alike L ρ' e' := by
  induction h with
  | absent => exact .absent
  | node A hplace hform _ ih => exact .node A hplace (hform.mono hρ fun _ _ h => h) ih

theorem form {l l' : Option Location} {form form' : Form Value}
    (h : Expr.Alike L ρ (.node l form) (.node l' form')) :
    L.place l l' ∧ form.Alike L ρ (Expr.Alike L ρ) form' := by
  cases h with
  | node A hplace hform hparts => exact ⟨hplace, hform.mono le_rfl hparts⟩

theorem isAbsent (h : e.Alike L ρ e') : e.isAbsent = e'.isAbsent := by
  cases h <;> rfl

end Expr.Alike

/-! Objects. -/

/--
Buffers that hold the same characters and have room for as many more. The storages that they have left
are of no account.
-/
structure TextBuffer.Alike (b b' : TextBuffer) : Prop where
  chars : b.chars = b'.chars
  room : b.room = b'.room

theorem TextBuffer.Alike.refl (b : TextBuffer) : b.Alike b where
  chars := rfl
  room := rfl

/--
Two buffers that were `b` and `b'` have become `c` and `c'`, and have left the same storages meanwhile.
-/
def TextBuffer.MoveAlike (b b' c c' : TextBuffer) : Prop :=
  ∃ recent, c.left = recent ++ b.left ∧ c'.left = recent ++ b'.left

theorem TextBuffer.MoveAlike.trans {b b' c c' d d' : TextBuffer} (h : MoveAlike b b' c c')
    (h' : MoveAlike c c' d d') : MoveAlike b b' d d' := by
  obtain ⟨recent, hc, hc'⟩ := h
  obtain ⟨later, hd, hd'⟩ := h'
  refine ⟨later ++ recent, ?_, ?_⟩
  . rw [hd, hc, List.append_assoc]
  . rw [hd', hc', List.append_assoc]

/--
What an earlier look at either buffer sees now.
-/
theorem TextBuffer.MoveAlike.seen {b b' c c' : TextBuffer} (h : MoveAlike b b' c c') (hb : b.Alike b')
    (hc : c.Alike c') (ref ref' : Nat) : c.seen (b.view ref) = c'.seen (b'.view ref') := by
  obtain ⟨recent, hleft, hleft'⟩ := h
  simp only [TextBuffer.seen, view, hb.chars, hc.chars, hleft, hleft', List.length_append, List.reverse_append,
    Nat.lt_add_left_iff_pos]
  split
  . rw [List.getElem?_append_right (by simp), List.getElem?_append_right (by simp)]
    simp
  . rfl

/--
A change that does the same to buffers that are alike.
-/
structure TextBuffer.Uniform (f : TextBuffer → TextBuffer) : Prop where
  alike : ∀ {b b' : TextBuffer}, b.Alike b' → (f b).Alike (f b')
  moves : ∀ {b b' : TextBuffer}, b.Alike b' → MoveAlike b b' (f b) (f b')

theorem TextBuffer.Uniform.set (i : Nat) (c : Char) : Uniform (·.set i c) where
  alike := by
    intro b b' h
    refine ⟨?_, h.room⟩
    rw [chars_set, chars_set, h.chars]
  moves := fun _ => ⟨[], rfl, rfl⟩

theorem TextBuffer.Uniform.append (suffix : Array Char) : Uniform (·.append suffix) where
  alike := by
    intro b b' h
    refine ⟨?_, ?_⟩
    . rw [chars_append, chars_append, h.chars]
    . simp only [TextBuffer.append, h.chars, h.room]
      split <;> rfl
  moves := by
    intro b b' h
    simp only [TextBuffer.append, h.chars, h.room]
    split
    . exact ⟨[], rfl, rfl⟩
    . exact ⟨[b'.chars], rfl, rfl⟩

structure Record.Alike (ρ : Renaming) (r r' : Record) : Prop where
  type : ρ .recordTypes r.type r'.type
  fields : EntriesAlike ρ r.fields r'.fields

structure Closure.Alike (L : Likeness) (ρ : Renaming) (c c' : Closure) : Prop where
  params : c.params = c'.params
  names : ∀ p ∈ c.params, L.name p
  body : c.body.Alike L ρ c'.body
  site : ρ .sites c.site c'.site
  frame : ρ .frames c.frame c'.frame

theorem Record.Alike.mono {r r' : Record} (h : r.Alike ρ r') (hρ : ρ ≤ ρ') : r.Alike ρ' r' where
  type := hρ _ _ _ h.type
  fields := EntriesAlike.mono h.fields hρ

theorem Closure.Alike.mono {c c' : Closure} (h : c.Alike L ρ c') (hρ : ρ ≤ ρ') : c.Alike L ρ' c' where
  params := h.params
  names := h.names
  body := h.body.mono hρ
  site := hρ _ _ _ h.site
  frame := hρ _ _ _ h.frame

/--
The frame with the reference `a` is inside of an older one, or of none.
-/
def Frame.Older (f : Frame) (a : Nat) : Prop :=
  ∀ p, f.parent = some p → p < a

structure Frame.Alike (L : Likeness) (ρ : Renaming) (f f' : Frame) : Prop where
  parent : Option.Rel (ρ .frames) f.parent f'.parent
  lookup : ∀ {name : String}, L.name name →
    Option.Rel (Value.Alike ρ) (f.lookup name) (f'.lookup name)
  left : ∀ name ∈ f.names, L.bound name
  right : ∀ name ∈ f'.names, L.bound name

theorem Frame.Alike.mono {f f' : Frame} (h : f.Alike L ρ f') (hρ : ρ ≤ ρ') : f.Alike L ρ' f' where
  parent := rel_imp h.parent (hρ .frames)
  lookup := fun hname => rel_imp (h.lookup hname) fun _ _ hvw => hvw.mono hρ
  left := h.left
  right := h.right

namespace Store

/--
Two objects that stand for each other hold the same.
-/
def Match (L : Likeness) (ρ : Renaming) (s t : Store) : Realm → Nat → Nat → Prop
  | .strings, a, b => (s.string a).Alike (t.string b)
  | .arrays, a, b => ValuesAlike ρ (s.array a).toList (t.array b).toList
  | .recordTypes, a, b => s.recordType a = t.recordType b ∧ L.type (s.recordType a)
  | .records, a, b => (s.record a).Alike ρ (t.record b)
  | .closures, a, b => (s.closure a).Alike L ρ (t.closure b)
  | .frames, a, b => (s.frame a).Alike L ρ (t.frame b) ∧ (s.frame a).Older a ∧ (t.frame b).Older b
  | .sites, _, _ => True

structure Alike (L : Likeness) (ρ : Renaming) (s t : Store) : Prop where
  bounds : ∀ {k a b}, ρ k a b → a < s.extent k ∧ b < t.extent k
  unique : ∀ {k a b a' b'}, ρ k a b → ρ k a' b' → (a = a' ↔ b = b')
  objects : ∀ {k a b}, ρ k a b → s.Match L ρ t k a b

variable {s t u s' t' s'' t'' : Store}

theorem Match.mono {k : Realm} {a b : Nat} (h : s.Match L ρ t k a b) (hρ : ρ ≤ ρ')
    (hs : s.SameAt s' k a) (ht : t.SameAt t' k b) : s'.Match L ρ' t' k a b := by
  cases k <;> simp only [Match, SameAt] at h hs ht ⊢
  case strings =>
    rw [hs, ht]
    exact h
  case arrays =>
    rw [hs, ht]
    exact ValuesAlike.mono h hρ
  case recordTypes =>
    rw [hs, ht]
    exact h
  case records =>
    rw [hs, ht]
    exact h.mono hρ
  case closures =>
    rw [hs, ht]
    exact h.mono hρ
  case frames =>
    rw [hs, ht]
    exact ⟨h.1.mono hρ, h.2⟩

/-! Steps of two runs. -/

/--
From `s` to `t` there may be more objects, and of the old ones only those that are `touched` differ.
-/
structure Spares (touched : Realm → Nat → Prop) (s t : Store) : Prop where
  grows : ∀ k, s.extent k ≤ t.extent k
  same : ∀ k a, a < s.extent k → ¬ touched k a → s.SameAt t k a

theorem Spares.refl (P : Realm → Nat → Prop) (s : Store) : s.Spares P s where
  grows := fun _ => Nat.le_refl _
  same := fun k a _ _ => .refl s k a

theorem Spares.trans {P Q : Realm → Nat → Prop} (hst : s.Spares P t) (htu : t.Spares Q u)
    (hQ : ∀ k a, a < s.extent k → Q k a → P k a) : s.Spares P u where
  grows := fun k => Nat.le_trans (hst.grows k) (htu.grows k)
  same := by
    intro k a ha hP
    apply (hst.same k a ha hP).trans
    apply htu.same k a (Nat.lt_of_lt_of_le ha (hst.grows k))
    intro hq
    exact hP (hQ k a ha hq)

theorem Adds.spares {k : Realm} (h : Adds k s t) (P : Realm → Nat → Prop) : s.Spares P t where
  grows := h.grows
  same := fun j a ha _ => h.same j a ha

theorem Changes.spares {k : Realm} {a : Nat} (h : Changes k a s t) {P : Realm → Nat → Prop}
    (hP : P k a) : s.Spares P t where
  grows := fun j => Nat.le_of_eq (h.extent j).symm
  same := by
    intro j b _ hb
    apply h.same
    rintro ⟨⟩
    exact hb hP

/--
Two runs have gone from `s` and `t`, alike under `ρ`, to `s'` and `t'`, alike under `ρ'`. Only objects
that are renamed have changed, and all new ones are renamed among each other.
-/
structure Passage (L : Likeness) (ρ ρ' : Renaming) (s t s' t' : Store) : Prop where
  alike : s'.Alike L ρ' t'
  le : ρ ≤ ρ'
  fresh : ∀ {k a b}, ρ' k a b → ρ k a b ∨ s.extent k ≤ a ∧ t.extent k ≤ b
  left : s.Spares (fun k a => ∃ b, ρ k a b) s'
  right : t.Spares (fun k b => ∃ a, ρ k a b) t'
  newLeft : ∀ {k a}, s.extent k ≤ a → a < s'.extent k → ∃ b, ρ' k a b
  newRight : ∀ {k b}, t.extent k ≤ b → b < t'.extent k → ∃ a, ρ' k a b
  moves : ∀ {a b}, ρ .strings a b →
    TextBuffer.MoveAlike (s.string a) (t.string b) (s'.string a) (t'.string b)

namespace Passage

variable {ρ'' : Renaming}

theorem refl (h : s.Alike L ρ t) : Passage L ρ ρ s t s t where
  alike := h
  le := le_rfl
  fresh := fun hab => .inl hab
  left := .refl _ s
  right := .refl _ t
  newLeft := fun hold hnew => absurd hnew (Nat.not_lt.2 hold)
  newRight := fun hold hnew => absurd hnew (Nat.not_lt.2 hold)
  moves := fun _ => ⟨[], rfl, rfl⟩

theorem old_left (h : Passage L ρ ρ' s t s' t') {k : Realm} {a b : Nat} (ha : a < s.extent k)
    (hab : ρ' k a b) : ρ k a b := by
  cases h.fresh hab with
  | inl hold => exact hold
  | inr hnew => exact absurd ha (Nat.not_lt.2 hnew.1)

theorem old_right (h : Passage L ρ ρ' s t s' t') {k : Realm} {a b : Nat} (hb : b < t.extent k)
    (hab : ρ' k a b) : ρ k a b := by
  cases h.fresh hab with
  | inl hold => exact hold
  | inr hnew => exact absurd hb (Nat.not_lt.2 hnew.2)

theorem trans (h : Passage L ρ ρ' s t s' t') (h' : Passage L ρ' ρ'' s' t' s'' t'') :
    Passage L ρ ρ'' s t s'' t'' where
  alike := h'.alike
  le := le_trans h.le h'.le
  fresh := by
    intro k a b hab
    cases h'.fresh hab with
    | inl hab => exact h.fresh hab
    | inr hab => exact .inr ⟨Nat.le_trans (h.left.grows k) hab.1, Nat.le_trans (h.right.grows k) hab.2⟩
  left := by
    apply h.left.trans h'.left
    rintro k a ha ⟨b, hab⟩
    exact ⟨b, h.old_left ha hab⟩
  right := by
    apply h.right.trans h'.right
    rintro k b hb ⟨a, hab⟩
    exact ⟨a, h.old_right hb hab⟩
  newLeft := by
    intro k a hold hnew
    by_cases ha : a < s'.extent k
    . obtain ⟨b, hab⟩ := h.newLeft hold ha
      exact ⟨b, h'.le _ _ _ hab⟩
    . exact h'.newLeft (Nat.le_of_not_gt ha) hnew
  newRight := by
    intro k b hold hnew
    by_cases hb : b < t'.extent k
    . obtain ⟨a, hab⟩ := h.newRight hold hb
      exact ⟨a, h'.le _ _ _ hab⟩
    . exact h'.newRight (Nat.le_of_not_gt hb) hnew
  moves := fun hab => (h.moves hab).trans (h'.moves (h.le _ _ _ hab))

theorem covers (h : Passage L ρ ρ' s t s' t') (hρ : ρ.Covers s t) : ρ'.Covers s' t' := by
  intro k
  constructor
  . intro a ha
    by_cases hold : a < s.extent k
    . obtain ⟨b, hab⟩ := (hρ k).1 a hold
      exact ⟨b, h.le _ _ _ hab⟩
    . exact h.newLeft (Nat.le_of_not_gt hold) ha
  . intro b hb
    by_cases hold : b < t.extent k
    . obtain ⟨a, hab⟩ := (hρ k).2 b hold
      exact ⟨a, h.le _ _ _ hab⟩
    . exact h.newRight (Nat.le_of_not_gt hold) hb

end Passage

namespace Alike

/--
Both runs make a new object, and the two hold the same.
-/
theorem add {k : Realm} (h : s.Alike L ρ t) (hs : Adds k s s') (ht : Adds k t t')
    (hnew : s'.Match L (ρ.add k (s.extent k) (t.extent k)) t' k (s.extent k) (t.extent k)) :
    Passage L ρ (ρ.add k (s.extent k) (t.extent k)) s t s' t' where
  le := ρ.le_add _ _ _
  fresh := by
    rintro j a b (hab | ⟨rfl, rfl, rfl⟩)
    . exact .inl hab
    . exact .inr ⟨Nat.le_refl _, Nat.le_refl _⟩
  left := hs.spares _
  right := ht.spares _
  newLeft := by
    intro j a hold hnew
    obtain ⟨rfl, rfl⟩ := hs.eq_of_new hold hnew
    exact ⟨_, ρ.add_self ..⟩
  newRight := by
    intro j b hold hnew
    obtain ⟨rfl, rfl⟩ := ht.eq_of_new hold hnew
    exact ⟨_, ρ.add_self ..⟩
  moves := by
    intro a b hab
    have hbounds := h.bounds hab
    have hleft : s'.string a = s.string a := hs.same .strings a hbounds.1
    have hright : t'.string b = t.string b := ht.same .strings b hbounds.2
    rw [hleft, hright]
    exact ⟨[], rfl, rfl⟩
  alike := by
    refine ⟨?_, ?_, ?_⟩
    . rintro j a b (hab | ⟨rfl, rfl, rfl⟩)
      . have := h.bounds hab
        exact ⟨Nat.lt_of_lt_of_le this.1 (hs.grows j), Nat.lt_of_lt_of_le this.2 (ht.grows j)⟩
      . rw [hs.new, ht.new]
        omega
    . rintro j a b a' b' (hab | ⟨rfl, rfl, rfl⟩) (hab' | ⟨hj, rfl, rfl⟩)
      . exact h.unique hab hab'
      . -- An old object is never the new one.
        subst hj
        have := h.bounds hab
        omega
      . have := h.bounds hab'
        omega
      . simp
    . rintro j a b (hab | ⟨rfl, rfl, rfl⟩)
      . have hbounds := h.bounds hab
        exact (h.objects hab).mono (ρ.le_add _ _ _) (hs.same j a hbounds.1) (ht.same j b hbounds.2)
      . exact hnew

/--
Both runs change one object, and the two hold the same again.
-/
theorem change {k : Realm} {a b : Nat} (h : s.Alike L ρ t) (hab : ρ k a b)
    (hs : Changes k a s s') (ht : Changes k b t t') (hnew : s'.Match L ρ t' k a b)
    (hmoves : k = .strings →
      TextBuffer.MoveAlike (s.string a) (t.string b) (s'.string a) (t'.string b)) :
    Passage L ρ ρ s t s' t' where
  le := le_rfl
  fresh := fun hcd => .inl hcd
  left := hs.spares ⟨b, hab⟩
  right := ht.spares ⟨a, hab⟩
  newLeft := by
    intro j c hold hnew
    rw [hs.extent] at hnew
    exact absurd hnew (Nat.not_lt.2 hold)
  newRight := by
    intro j c hold hnew
    rw [ht.extent] at hnew
    exact absurd hnew (Nat.not_lt.2 hold)
  moves := by
    intro c d hcd
    by_cases hc : k = .strings ∧ c = a
    . obtain ⟨rfl, rfl⟩ := hc
      obtain rfl := (h.unique hcd hab).1 rfl
      exact hmoves rfl
    . have hleft : s'.string c = s.string c := by
        apply hs.same .strings c
        rintro ⟨⟩
        exact hc ⟨rfl, rfl⟩
      have hright : t'.string d = t.string d := by
        apply ht.same .strings d
        rintro ⟨⟩
        exact hc ⟨rfl, (h.unique hcd hab).2 rfl⟩
      rw [hleft, hright]
      exact ⟨[], rfl, rfl⟩
  alike := by
    refine ⟨?_, h.unique, ?_⟩
    . intro j c d hcd
      rw [hs.extent, ht.extent]
      exact h.bounds hcd
    . intro j c d hcd
      by_cases hj : j = k
      . subst hj
        by_cases hc : c = a
        . subst hc
          obtain rfl := (h.unique hcd hab).1 rfl
          exact hnew
        . have hd : d ≠ b := fun hd => hc ((h.unique hcd hab).2 hd)
          exact (h.objects hcd).mono le_rfl (hs.same j c (by simpa using hc))
            (ht.same j d (by simpa using hd))
      . exact (h.objects hcd).mono le_rfl (hs.same j c (by simp [hj])) (ht.same j d (by simp [hj]))

end Alike

/--
Two root frames in which nothing is bound stand for each other, and nothing else does.
-/
theorem alike_single {a b : Nat} (ha : a < s.frames.size) (hb : b < t.frames.size)
    (hs : s.frame a = { parent := none }) (ht : t.frame b = { parent := none }) :
    s.Alike L (.single a b) t where
  bounds := by
    rintro k _ _ ⟨rfl, rfl, rfl⟩
    exact ⟨ha, hb⟩
  unique := by
    rintro k _ _ _ _ ⟨_, rfl, rfl⟩ ⟨_, rfl, rfl⟩
    simp
  objects := by
    rintro k _ _ ⟨rfl, rfl, rfl⟩
    simp only [Match, hs, ht]
    exact ⟨⟨.none, fun _ => .none, nofun, nofun⟩, nofun, nofun⟩

end Store

end LispScript
