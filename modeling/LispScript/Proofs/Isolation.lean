import LispScript.Proofs.Reach

/-!
This module contains the proof that environments are isolated from each other. Source texts are evaluated
in turn on two root frames of one store. The objects of the one environment are compared with those of a
run in which the other one does not exist; the objects of the other environment are kept apart from them
by a renaming of their own.
-/

namespace LispScript

/--
What a program prints to and reads from.
-/
structure Streams where
  output : String
  input : List Text
  muted : Bool

def Machine.streams (m : Machine) : Streams :=
  { output := m.output, input := m.input, muted := m.muted }

def Workspace.attach (w : Workspace) (p : Streams) : Workspace :=
  { w with machine := { w.machine with output := p.output, input := p.input, muted := p.muted } }

/--
A source text that is evaluated in one of two environments.
-/
structure Call where
  side : Bool
  file : String
  source : Text
  /-- New streams, unless the call goes on with those of the last one on the same side. -/
  streams : Option Streams

/--
What a call leaves behind.
-/
structure Reply where
  side : Bool
  outcome : Except Failure Value
  store : Store
  streams : Streams

/--
Two environments that share a workspace, and the streams of either.
-/
structure Desk where
  workspace : Workspace
  streams : Bool → Streams

namespace Call

variable (files : Files) (roots : Bool → Nat)

def perform (c : Call) (d : Desk) : Reply × Desk :=
  let r := (Job.evalSource (roots c.side) c.file c.source).result files
    (d.workspace.attach (c.streams.getD (d.streams c.side)))
  let streams := r.2.machine.streams
  ({ side := c.side, outcome := r.1, store := r.2.machine.store, streams },
    { workspace := r.2, streams := Function.update d.streams c.side streams })

def performAll : List Call → Desk → List Reply
  | [], _ => []
  | c :: rest, d => (c.perform files roots d).1 :: performAll rest (c.perform files roots d).2

end Call

/--
Replies that cannot be told apart, as seen from the roots of two environments.
-/
structure Reply.Alike (ρ : Renaming) (root root' : Nat) (r r' : Reply) : Prop where
  outcome : OutcomeAlike .exact ρ r.outcome r'.outcome
  streams : r.streams = r'.streams
  store : r.store.Alike .exact ρ r'.store
  roots : ρ .frames root root'
  bindings : EntriesAlike ρ (r.store.bindings root) (r'.store.bindings root')
  /-- Whatever the first of them can reach is there. -/
  intact : r.store.Intact (r.store.Reaches fun k a => k = .frames ∧ a = root)

/--
No two objects stand for the same one.
-/
def Renaming.OneToOne (ρ : Renaming) : Prop :=
  ∀ {k a b a' b'}, ρ k a b → ρ k a' b' → (a = a' ↔ b = b')

variable {L : Likeness} {ρ ρ' σ : Renaming} {s t s' t' : Store}

/-! What is not renamed is left alone. -/

/--
Stores stay alike as long as nothing that is renamed changes.
-/
theorem Store.Alike.keep {P Q : Realm → Nat → Prop} (h : s.Alike L σ t) (hs : s.Spares P s')
    (ht : t.Spares Q t') (hP : ∀ k a b, σ k a b → ¬ P k a) (hQ : ∀ k a b, σ k a b → ¬ Q k b) :
    s'.Alike L σ t' where
  bounds := by
    intro k a b hab
    have := h.bounds hab
    exact ⟨Nat.lt_of_lt_of_le this.1 (hs.grows k), Nat.lt_of_lt_of_le this.2 (ht.grows k)⟩
  unique := h.unique
  objects := by
    intro k a b hab
    have hbounds := h.bounds hab
    exact (h.objects hab).mono le_rfl (hs.same k a hbounds.1 (hP k a b hab))
      (ht.same k b hbounds.2 (hQ k a b hab))

theorem Store.Alike.bindings (hname : ∀ name, L.name name) (h : s.Alike L ρ t) {a b : Nat}
    (hab : ρ .frames a b) : EntriesAlike ρ (s.bindings a) (t.bindings b) := by
  have hframe := h.frame hab
  have hnames : sortNames (s.frame a).names = sortNames (t.frame b).names := by
    apply sortNames_congr
    intro name
    rw [Frame.mem_names_iff, Frame.mem_names_iff, (hframe.binds (hname name))]
  simp only [Store.bindings, hnames]
  rw [EntriesAlike, List.forall₂_map_left_iff, List.forall₂_map_right_iff, List.forall₂_same]
  intro name _
  refine ⟨rfl, ?_⟩
  obtain ⟨hv, hw⟩ | ⟨v, w, hv, hw, hvw⟩ := rel_cases (hframe.lookup (hname name))
  . rw [hv, hw]
    exact .null
  . rw [hv, hw]
    exact hvw

theorem Machine.Alike.streams {m n : Machine} (h : m.Alike L ρ n) : m.streams = n.streams := by
  rw [Machine.streams, Machine.streams, h.output, h.input, h.muted]

theorem Expr.mentions_exact {α : Type} (e : Expr α) : e.Mentions .exact :=
  Every.of_forall (fun _ _ _ _ => rfl) e

/-! Calls. -/

/--
The environment on the given side is alike to the only one of `d'`; the other one, renamed by `σ`, has
no object in common with it.
-/
structure Desk.Apart (side : Bool) (roots : Bool → Nat) (root' : Nat) (ρ σ : Renaming) (d d' : Desk) :
    Prop where
  alike : d.workspace.machine.store.Alike .exact ρ d'.workspace.machine.store
  root : ρ .frames (roots side) root'
  other : d.workspace.machine.store.Alike .exact σ d.workspace.machine.store
  otherRoot : ∀ b ≠ side, σ .frames (roots b) (roots b)
  apart : ∀ k a b, σ k a b → (¬ ∃ c, ρ k a c) ∧ ¬ ∃ c, ρ k b c
  streams : d.streams side = d'.streams side

namespace Call

variable (files : Files) (roots roots' : Bool → Nat) {d d' : Desk}

/--
One call, made at two desks where its environments are alike.
-/
theorem perform_twin (c : Call)
    (hstore : d.workspace.machine.store.Alike .exact ρ d'.workspace.machine.store)
    (hroot : ρ .frames (roots c.side) (roots' c.side))
    (hstreams : d.streams c.side = d'.streams c.side) :
    ∃ ρ', d.workspace.machine.store.Passage .exact ρ ρ' d'.workspace.machine.store
        (c.perform files roots d).2.workspace.machine.store
        (c.perform files roots' d').2.workspace.machine.store ∧
      (c.perform files roots d).1.Alike ρ' (roots c.side) (roots' c.side)
        (c.perform files roots' d').1 := by
  have hstart : (d.workspace.attach (c.streams.getD (d.streams c.side))).machine.Alike .exact ρ
      (d'.workspace.attach (c.streams.getD (d'.streams c.side))).machine := by
    rw [hstreams]
    exact ⟨hstore, rfl, rfl, rfl⟩
  obtain ⟨ρ', hpassage, houtcome⟩ :=
    Job.evalSource_twin (fun _ _ e _ => e.mentions_exact) hroot hstart
  have hroot' := hpassage.store.le _ _ _ hroot
  refine ⟨ρ', hpassage.store, houtcome, hpassage.alike.streams, hpassage.alike.store, hroot',
    hpassage.alike.store.bindings (fun _ => rfl) hroot', ?_⟩
  apply hpassage.alike.store.intact fun _ => rfl
  rintro k a ⟨rfl, rfl⟩
  exact ⟨_, hroot'⟩

end Call

namespace Desk.Apart

variable (files : Files) {side : Bool} {roots : Bool → Nat} {root' : Nat}
  {d d' : Desk}

/--
A call on the side that is compared: it is made at both desks.
-/
theorem same (h : Apart side roots root' ρ σ d d') (c : Call) (hc : c.side = side) :
    ∃ ρ', ρ ≤ ρ' ∧
      Apart side roots root' ρ' σ (c.perform files roots d).2
        (c.perform files (fun _ => root') d').2 ∧
      (c.perform files roots d).1.Alike ρ' (roots side) root'
        (c.perform files (fun _ => root') d').1 := by
  subst hc
  obtain ⟨ρ', hpassage, hreply⟩ := c.perform_twin files roots (fun _ => root') h.alike h.root
    h.streams
  refine ⟨ρ', hpassage.le, ?_, hreply⟩
  refine ⟨hpassage.alike, hpassage.le _ _ _ h.root, ?_, h.otherRoot, ?_, ?_⟩
  . exact h.other.keep hpassage.left hpassage.left (fun k a b hab => (h.apart k a b hab).1)
      (fun k a b hab => (h.apart k a b hab).2)
  . intro k a b hab
    obtain ⟨ha, hb⟩ := h.other.bounds hab
    constructor
    . rintro ⟨c, hac⟩
      exact (h.apart k a b hab).1 ⟨c, hpassage.old_left ha hac⟩
    . rintro ⟨c, hbc⟩
      exact (h.apart k a b hab).2 ⟨c, hpassage.old_left hb hbc⟩
  . simpa [Call.perform] using hreply.streams

/--
A call on the other side: nothing that it can come upon belongs to the side that is compared.
-/
theorem other_side (h : Apart side roots root' ρ σ d d') (c : Call) (hc : c.side ≠ side) :
    ∃ σ', Apart side roots root' ρ σ' (c.perform files roots d).2 d' := by
  obtain ⟨σ', hpassage, _⟩ :=
    c.perform_twin files roots roots h.other (h.otherRoot c.side hc) rfl
  refine ⟨σ', ?_, h.root, hpassage.alike, fun b hb => hpassage.le _ _ _ (h.otherRoot b hb), ?_, ?_⟩
  . have hidle : d'.workspace.machine.store.Spares (fun _ _ => False) d'.workspace.machine.store :=
      .refl _ _
    apply h.alike.keep hpassage.left hidle
    . rintro k a c hac ⟨b, hab⟩
      exact (h.apart k a b hab).1 ⟨c, hac⟩
    . exact fun _ _ _ _ => id
  . intro k a b hab
    constructor
    . rintro ⟨c, hac⟩
      have hold := hpassage.old_left (h.alike.bounds hac).1 hab
      exact (h.apart k a b hold).1 ⟨c, hac⟩
    . rintro ⟨c, hbc⟩
      have hold := hpassage.old_right (h.alike.bounds hbc).1 hab
      exact (h.apart k a b hold).2 ⟨c, hbc⟩
  . simpa [Call.perform, Function.update_of_ne (Ne.symm hc)] using h.streams

theorem performAll (h : Apart side roots root' ρ σ d d') (calls : List Call) :
    ∃ ρ', ρ ≤ ρ' ∧ ρ'.OneToOne ∧
      List.Forall₂ (fun r r' => ∃ ρ'' ≤ ρ', Reply.Alike ρ'' (roots side) root' r r')
        ((Call.performAll files roots calls d).filter (·.side == side))
        (Call.performAll files (fun _ => root') (calls.filter (·.side == side)) d') := by
  induction calls generalizing ρ σ d d' with
  | nil => exact ⟨ρ, le_rfl, h.alike.unique, .nil⟩
  | cons c rest ih =>
    by_cases hc : c.side = side
    . obtain ⟨ρ₁, hle, hapart, hreply⟩ := h.same files c hc
      obtain ⟨ρ₂, hle₂, hunique, hreplies⟩ := ih hapart
      refine ⟨ρ₂, le_trans hle hle₂, hunique, ?_⟩
      have hside : (c.perform files roots d).1.side = side := hc
      simp only [Call.performAll, List.filter_cons, hc, hside, beq_self_eq_true, if_true]
      exact .cons ⟨ρ₁, hle₂, hreply⟩ hreplies
    . obtain ⟨σ', hapart⟩ := h.other_side files c hc
      obtain ⟨ρ₂, hle₂, hunique, hreplies⟩ := ih hapart
      refine ⟨ρ₂, hle₂, hunique, ?_⟩
      have hside : (c.perform files roots d).1.side = c.side := rfl
      simpa only [Call.performAll, List.filter_cons, hside, beq_iff_eq, hc, if_false] using hreplies

end Desk.Apart

/-! New environments. -/

theorem Desk.Apart.opened (files : Files) (w w' : Workspace)
    (streams : Bool → Streams) (side : Bool) :
    let first := Job.newRoot.result files w
    let second := Job.newRoot.result files first.2
    let alone := Job.newRoot.result files w'
    let roots (b : Bool) := if b then second.1 else first.1
    Desk.Apart side roots alone.1 (.single (roots side) alone.1) (.single (roots !side) (roots !side))
      ⟨second.2, streams⟩ ⟨alone.2, streams⟩ := by
  intro first second alone roots
  have hfirst := w.machine.store.addFrame_adds none
  have hsecond := first.2.machine.store.addFrame_adds none
  have halone := w'.machine.store.addFrame_adds none
  have hlt : first.1 < first.2.machine.store.frames.size := hfirst.lt
  have hframe (b : Bool) : second.2.machine.store.frame (roots b) = { parent := none } := by
    cases b with
    | false =>
      calc second.2.machine.store.frame first.1
        _ = first.2.machine.store.frame first.1 := hsecond.same .frames first.1 hlt
        _ = { parent := none } := w.machine.store.frame_addFrame none
    | true => exact first.2.machine.store.frame_addFrame none
  have hlts (b : Bool) : roots b < second.2.machine.store.frames.size := by
    cases b with
    | false => exact Nat.lt_of_lt_of_le hlt (hsecond.grows .frames)
    | true => exact hsecond.lt
  have hne : roots (!side) ≠ roots side := by
    cases side with
    | false => exact Nat.ne_of_gt hlt
    | true => exact Nat.ne_of_lt hlt
  refine ⟨?_, ⟨rfl, rfl, rfl⟩, ?_, ?_, ?_, rfl⟩
  . exact Store.alike_single (hlts side) halone.lt (hframe side) (w'.machine.store.frame_addFrame none)
  . exact Store.alike_single (hlts _) (hlts _) (hframe _) (hframe _)
  . intro b hb
    rw [Bool.eq_not_of_ne hb]
    exact ⟨rfl, rfl, rfl⟩
  . rintro k a b ⟨rfl, rfl, rfl⟩
    constructor
    all_goals
      rintro ⟨c, _, hc, _⟩
      exact hne hc

/--
Two environments are new in one workspace, and calls on them are made in any order. The replies on either
side are those that the calls of that side have when they are made alone, in any other workspace; what
stands for what is the same in all of them. The law behind it: an evaluation changes nothing old but what
it can reach, and its value reaches nothing else that is old.
-/
theorem environments_isolated (files : Files) :
    (∀ (w w' : Workspace) (streams : Bool → Streams) (calls : List Call) (side : Bool),
      let first := Job.newRoot.result files w
      let second := Job.newRoot.result files first.2
      let alone := Job.newRoot.result files w'
      let roots (b : Bool) := if b then second.1 else first.1
      ∃ ρ : Renaming, ρ.OneToOne ∧
        List.Forall₂ (fun r r' => ∃ ρ' ≤ ρ, Reply.Alike ρ' (roots side) alone.1 r r')
          ((Call.performAll files roots calls ⟨second.2, streams⟩).filter (·.side == side))
          (Call.performAll files (fun _ => alone.1) (calls.filter (·.side == side))
            ⟨alone.2, streams⟩)) ∧
    ∀ (context : Option Context) (fuel frame : Nat) (e : Expr Value) (m : Machine),
      m.store.Intact (m.store.Reaches (e.start frame)) →
      m.store.StaysWithin (m.store.Reaches (e.start frame)) (eval context fuel frame e m) := by
  constructor
  . intro w w' streams calls side first second alone roots
    obtain ⟨ρ, _, hunique, hreplies⟩ :=
      (Desk.Apart.opened files w w' streams side).performAll files calls
    exact ⟨ρ, hunique, hreplies⟩
  . exact eval_within

theorem environments_isolated_define :
    let m : Machine := { store := { frames := #[{ parent := none }, { parent := none }] } }
    let e : Expr Value := .node none (.define "x" (.node none (.literal (.integer 1))))
    m.store.Intact (m.store.Reaches (e.start 0)) ∧
      m.store.StaysWithin (m.store.Reaches (e.start 0)) (eval none unbounded 0 e m) := by
  intro m e
  have hrefers (k : Realm) (a : Nat) : ¬ e.Refers k a := by
    intro h
    simp only [e] at h
    cases h with
    | here hform => cases hform
    | part hpart h =>
      rw [List.mem_singleton.1 hpart] at h
      cases h with
      | here hform =>
        cases hform with
        | literal hv => cases hv
      | part hpart => cases hpart
  have hreached (k : Realm) (a : Nat) (h : m.store.Reaches (e.start 0) k a) : k = .frames ∧ a = 0 := by
    induction h with
    | start hstart => exact hstart.resolve_right (hrefers _ _)
    | step _ hpoints ih =>
      obtain ⟨rfl, rfl⟩ := ih
      cases hpoints with
      | parent hparent => cases hparent
      | binding hbinding => cases hbinding
  have hintact : m.store.Intact (m.store.Reaches (e.start 0)) := by
    constructor
    . intro k a ha
      obtain ⟨rfl, rfl⟩ := hreached k a ha
      decide
    . intro a ha
      obtain ⟨_, rfl⟩ := hreached _ a ha
      exact nofun
  exact ⟨hintact, (environments_isolated Files.none).2 none unbounded 0 e m hintact⟩

end LispScript
