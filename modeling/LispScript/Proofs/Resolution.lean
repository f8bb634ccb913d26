import LispScript.Proofs.Retention
import LispScript.Proofs.Tidy

/-!
This module contains how names are resolved through a tree of frames. `Store.Resolves` says which frame a
name is resolved to, without a bound on the number of frames that are looked at. A new value or a new name
is seen from exactly those frames that resolve the name to the frame it was put into. This holds in every
tree that frames have been added to one by one, whatever else has been done to them in between.
-/

namespace LispScript

/--
From the frame `a` outward, `b` is the first frame that binds the name.
-/
inductive Store.Resolves (s : Store) (name : String) : Nat → Nat → Prop where
  | here {a : Nat} (h : (s.frame a).binds name) : Resolves s name a a
  | outside {a p b : Nat} (h : ¬ (s.frame a).binds name) (hp : (s.frame a).parent = some p)
      (hb : Resolves s name p b) : Resolves s name a b

namespace Store

variable {s t : Store} {name other : String} {a b e : Nat} {v : Value}

theorem Resolves.of_nearest {fuel : Nat} (h : s.nearest name fuel a = some b) :
    s.Resolves name a b := by
  induction fuel generalizing a with
  | zero => contradiction
  | succ fuel ih =>
    unfold nearest at h
    split at h
    . next hbinds =>
      cases h
      exact .here hbinds
    . next hbinds =>
      split at h
      . next p hp => exact .outside hbinds hp (ih h)
      . contradiction

theorem Resolves.resolve (hs : ∀ f, (s.frame f).Older f) (h : s.Resolves name a b) :
    s.resolve a name = some b := by
  induction h with
  | here h => rw [resolve_eq hs, if_pos h]
  | outside h hp _ ih =>
    rw [resolve_eq hs, if_neg h, hp]
    exact ih

theorem resolve_eq_some_iff (hs : ∀ f, (s.frame f).Older f) :
    s.resolve a name = some b ↔ s.Resolves name a b :=
  ⟨Resolves.of_nearest, Resolves.resolve hs⟩

/-! Changes of a frame. -/

theorem parent_modify {g : Frame → Frame} (hg : ∀ f, (g f).parent = f.parent) (e f : Nat) :
    ({ s with frames := s.frames.modify e g : Store }.frame f).parent = (s.frame f).parent := by
  simp only [frame, Array.getElem?_modify]
  split
  . cases s.frames[f]? with
    | none => rfl
    | some x => exact hg x
  . rfl

theorem parent_bind (e : Nat) (name : String) (v : Value) (f : Nat) :
    ((s.bind e name v).frame f).parent = (s.frame f).parent := by
  unfold bind
  apply parent_modify
  intro _
  rfl

theorem parent_rebind (e : Nat) (name : String) (v : Value) (f : Nat) :
    ((s.rebind e name v).frame f).parent = (s.frame f).parent := by
  unfold rebind
  apply parent_modify
  intro _
  rfl

theorem lookup_frame_bind (he : e < s.frames.size) (name : String) (v : Value) (f : Nat) (k : String) :
    ((s.bind e name v).frame f).lookup k
      = if f = e ∧ k = name then some v.orNull else (s.frame f).lookup k := by
  by_cases hf : f = e
  . subst hf
    rw [bind, frame, getD_modify_self he]
    unfold Frame.lookup
    rw [lookup_cons]
    simp only [true_and]
    rfl
  . rw [bind, frame, getD_modify_of_ne hf, if_neg fun h => hf h.1]
    rfl

theorem lookup_frame_rebind (he : (s.frame e).binds name) (v : Value) (f : Nat) (k : String) :
    ((s.rebind e name v).frame f).lookup k
      = if f = e ∧ k = name then some v.orNull else (s.frame f).lookup k := by
  by_cases hf : f = e
  . have hsize : e < s.frames.size := by
      by_contra hsize
      rw [frame_of_le (Nat.le_of_not_lt hsize)] at he
      contradiction
    subst hf
    rw [rebind, frame, getD_modify_self hsize]
    unfold Frame.lookup
    rw [lookup_replaceValue]
    by_cases hk : k = name
    . subst hk
      obtain ⟨old, hold⟩ := Option.isSome_iff_exists.1 he
      rw [if_pos rfl, if_pos ⟨rfl, rfl⟩]
      exact congrArg (Option.map _) hold
    . rw [if_neg hk, if_neg fun h => hk h.2]
      rfl
  . rw [rebind, frame, getD_modify_of_ne hf, if_neg fun h => hf h.1]
    rfl

theorem older_addFrame (hs : ∀ f, (s.frame f).Older f) {parent : Option Nat}
    (hparent : ∀ p, parent = some p → p < s.frames.size) (f : Nat) :
    ((s.addFrame parent).2.frame f).Older f := by
  have hadds := s.addFrame_adds parent
  apply older_of_lt
  intro f hf
  by_cases hold : f < s.frames.size
  . have hsame : (s.addFrame parent).2.frame f = s.frame f := hadds.same .frames f hold
    rw [hsame]
    exact hs f
  . have hnew : f = s.frames.size :=
      (hadds.eq_of_new (j := .frames) (Nat.le_of_not_lt hold) hf).2
    rw [hnew, frame_addFrame]
    exact hparent

/-! What is seen of a change. -/

theorem nearest_congr (hparent : ∀ f, (t.frame f).parent = (s.frame f).parent)
    (hbinds : ∀ f, (t.frame f).binds name = (s.frame f).binds name) (fuel a : Nat) :
    t.nearest name fuel a = s.nearest name fuel a := by
  induction fuel generalizing a with
  | zero => rfl
  | succ fuel ih =>
    unfold nearest
    rw [hbinds, hparent]
    simp only [ih]

theorem binds_rebind (he : (s.frame e).binds name) (v : Value) (f : Nat) (k : String) :
    ((s.rebind e name v).frame f).binds k = (s.frame f).binds k := by
  unfold Frame.binds
  rw [lookup_frame_rebind he]
  split
  . next h =>
    rw [h.1, h.2]
    exact he.symm
  . rfl

theorem binds_bind (he : e < s.frames.size) (name : String) (v : Value) (f : Nat) (k : String) :
    ((s.bind e name v).frame f).binds k = (decide (f = e ∧ k = name) || (s.frame f).binds k) := by
  unfold Frame.binds
  rw [lookup_frame_bind he]
  split <;> simp_all

/--
A new value is seen from where the name is resolved to the frame that has it.
-/
theorem lookup_rebind (he : (s.frame e).binds name) (v : Value) (q : Nat) (k : String) :
    (s.rebind e name v).lookup q k
      = if k = name ∧ s.resolve q name = some e then some v.orNull else s.lookup q k := by
  have hresolve : (s.rebind e name v).resolve q k = s.resolve q k :=
    nearest_congr (parent_rebind e name v) (fun f => binds_rebind he v f k) _ q
  rw [lookup_eq, lookup_eq, hresolve]
  cases hq : s.resolve q k with
  | none =>
    rw [if_neg]
    . rfl
    . rintro ⟨rfl, h⟩
      rw [hq] at h
      contradiction
  | some f =>
    rw [Option.bind_some, Option.bind_some, lookup_frame_rebind he]
    congr 1
    apply propext
    constructor
    . rintro ⟨rfl, rfl⟩
      exact ⟨rfl, hq⟩
    . rintro ⟨rfl, h⟩
      rw [hq] at h
      exact ⟨Option.some.inj h, rfl⟩

/--
The search for a new name either ends at the frame that binds it now, or does not get there.
-/
theorem nearest_bind (he : e < s.frames.size) (name : String) (v : Value) (fuel a : Nat) :
    (s.bind e name v).nearest name fuel a = some e ∨
      (s.bind e name v).nearest name fuel a = s.nearest name fuel a := by
  induction fuel generalizing a with
  | zero => exact .inr rfl
  | succ fuel ih =>
    unfold nearest
    rw [parent_bind, binds_bind he]
    by_cases ha : a = e
    . left
      simp [ha]
    . have hbinds : (decide (a = e ∧ name = name) || (s.frame a).binds name) = (s.frame a).binds name := by
        simp [ha]
      rw [hbinds]
      split
      . exact .inr rfl
      . split
        . next p _ => apply ih
        . exact .inr rfl

/--
A new name is seen from where it is resolved to the frame that binds it now.
-/
theorem lookup_bind (he : e < s.frames.size) (name : String) (v : Value) (q : Nat) (k : String) :
    (s.bind e name v).lookup q k
      = if k = name ∧ (s.bind e name v).resolve q name = some e then some v.orNull
        else s.lookup q k := by
  by_cases hk : k = name
  . subst hk
    rw [lookup_eq, lookup_eq]
    by_cases hq : (s.bind e k v).resolve q k = some e
    . rw [if_pos ⟨rfl, hq⟩, hq, Option.bind_some, lookup_frame_bind he, if_pos ⟨rfl, rfl⟩]
    . have hsame : (s.bind e k v).resolve q k = s.resolve q k :=
        (nearest_bind he k v (q + 1) q).resolve_left hq
      rw [if_neg fun h => hq h.2, hsame]
      rw [hsame] at hq
      cases hf : s.resolve q k with
      | none => rfl
      | some f =>
        rw [Option.bind_some, Option.bind_some, lookup_frame_bind he, if_neg]
        rintro ⟨rfl, -⟩
        contradiction
  . have hresolve : (s.bind e name v).resolve q k = s.resolve q k := by
      apply nearest_congr (parent_bind e name v)
      intro f
      rw [binds_bind he]
      simp [hk]
    rw [lookup_eq, lookup_eq, hresolve, if_neg fun h => hk h.1]
    cases s.resolve q k with
    | none => rfl
    | some f => rw [Option.bind_some, Option.bind_some, lookup_frame_bind he, if_neg fun h => hk h.2]

end Store

/-! Operations on names. -/

namespace Run

variable {frame : Nat} {name : String} {m : Machine}

theorem define_apply (frame : Nat) (name : String) (v : Value) (m : Machine) :
    define frame name v m = if (m.store.frame frame).binds name
      then .error (.failure { fault := .duplicateName name }) m
      else .ok () { m with store := m.store.bind frame name v } := by
  have hinspect : inspect (fun s => (s.frame frame).binds name) m
      = .ok ((m.store.frame frame).binds name) m := rfl
  rw [define, bind_ok hinspect]
  split
  . rfl
  . rfl

theorem lookup_apply (frame : Nat) (name : String) (m : Machine) :
    lookup frame name m = match m.store.lookup frame name with
      | some v => .ok v m
      | none => .error (.failure { fault := .unknownSymbol name }) m := by
  have hinspect : inspect (·.lookup frame name) m = .ok (m.store.lookup frame name) m := rfl
  rw [lookup, bind_ok hinspect]
  cases m.store.lookup frame name with
  | none => rfl
  | some v => rfl

end Run

/--
What can be done to a tree of frames.
-/
inductive ScopeCall where
  | newFrame (parent : Option Nat)
  | define (frame : Nat) (name : String) (v : Value)
  | assign (frame : Nat) (name : String) (v : Value)
  | lookup (frame : Nat) (name : String)
  | isBound (frame : Nat) (name : String)

namespace ScopeCall

def run : ScopeCall → Run Unit
  | newFrame parent => do
    let _ ← Run.create (·.addFrame parent)
  | define frame name v => Run.define frame name v
  | assign frame name v => Run.assign frame name v
  | lookup frame name => do
    let _ ← Run.lookup frame name
  | isBound frame name => do
    let _ ← Run.inspect (·.isBound frame name)

/--
The frames that the call is on are there.
-/
def OnFrames (s : Store) : ScopeCall → Prop
  | newFrame parent => ∀ p, parent = some p → p < s.frames.size
  | define frame _ _ | assign frame _ _ | lookup frame _ | isBound frame _ => frame < s.frames.size

/--
A call that fails has changed nothing.
-/
theorem run_error {c : ScopeCall} {m m' : Machine} {i : Interrupt} (h : c.run m = .error i m') :
    m' = m := by
  cases c with
  | newFrame parent => contradiction
  | isBound frame name => contradiction
  | define frame name v =>
    rw [run, Run.define_apply] at h
    split at h
    . cases h
      rfl
    . contradiction
  | assign frame name v =>
    rw [run, Run.assign_apply] at h
    split at h
    . contradiction
    . cases h
      rfl
  | lookup frame name =>
    have happly := Run.lookup_apply frame name m
    split at happly
    . rw [run, Run.bind_ok happly] at h
      contradiction
    . rw [run, Run.bind_error happly] at h
      cases h
      rfl

/--
Whatever is done to a tree of frames, each of them is inside of an older one.
-/
theorem run_older {c : ScopeCall} {m : Machine} (hc : c.OnFrames m.store)
    (h : ∀ f, (m.store.frame f).Older f) : ∀ f, ((Run.machine (c.run m)).store.frame f).Older f := by
  have hparent : ∀ {s : Store}, (∀ f, (s.frame f).parent = (m.store.frame f).parent) →
      ∀ f, (s.frame f).Older f := by
    intro s hs f p hp
    rw [hs] at hp
    exact h f p hp
  cases hrun : c.run m with
  | error i m' =>
    rw [Run.machine, run_error hrun]
    exact h
  | ok a m' =>
    rw [Run.machine]
    cases c with
    | newFrame parent =>
      cases hrun
      exact Store.older_addFrame h hc
    | isBound frame name =>
      cases hrun
      exact h
    | define frame name v =>
      rw [run, Run.define_apply] at hrun
      split at hrun
      . contradiction
      . cases hrun
        exact hparent (Store.parent_bind frame name v)
    | assign frame name v =>
      rw [run, Run.assign_apply] at hrun
      split at hrun
      . next target _ =>
        cases hrun
        exact hparent (Store.parent_rebind target name v)
      . contradiction
    | lookup frame name =>
      have happly := Run.lookup_apply frame name m
      split at happly
      . rw [run, Run.bind_ok happly] at hrun
        cases hrun
        exact h
      . rw [run, Run.bind_error happly] at hrun
        contradiction

end ScopeCall

/--
The frames come from calls, one after the other.
-/
inductive Machine.Scoped : Machine → Prop where
  | start {m : Machine} (h : m.store.frames = #[]) : Scoped m
  | call {m : Machine} (h : Scoped m) (c : ScopeCall) (hc : c.OnFrames m.store) :
      Scoped (Run.machine (c.run m))

theorem Machine.Scoped.older {m : Machine} (h : m.Scoped) : ∀ f, (m.store.frame f).Older f := by
  induction h with
  | start h =>
    intro f
    rw [Store.frame_of_le (by simp [h])]
    nofun
  | call h c hc ih => exact ScopeCall.run_older hc ih

/--
In the store `t` the name stands for `v`, as seen from the frames that `P` holds of. From all others, and
under all other names, there is what there was in the store `s`.
-/
structure Store.Sees (s : Store) (name : String) (v : Value) (P : Nat → Prop) (t : Store) : Prop where
  changed : ∀ q, P q → t.lookup q name = some v.orNull
  unchanged : ∀ q, ¬ P q → t.lookup q name = s.lookup q name
  others : ∀ q k, k ≠ name → t.lookup q k = s.lookup q k

/--
What a name stands for in the frame `e`, and what becomes of it.
-/
structure Machine.Resolving (m : Machine) (e : Nat) (name : String) : Prop where
  isBound_iff_lookup : m.store.isBound e name ↔ (Run.lookup e name).Succeeds m
  isBound_iff_assign : ∀ v, m.store.isBound e name ↔ (Run.assign e name v).Succeeds m
  assigned : ∀ v m', Run.assign e name v m = .ok () m' → m.store.Sees name v
    (fun q => ∃ f, m.store.Resolves name q f ∧ m.store.Resolves name e f) m'.store
  defined : ∀ v m', Run.define e name v m = .ok () m' → m.store.Sees name v
    (fun q => m'.store.Resolves name q e) m'.store
  define_fails : ∀ v, ¬ (Run.define e name v).Succeeds m ↔ (m.store.frame e).binds name

theorem Run.define_succeeds_iff {frame : Nat} {name : String} {v : Value} {m : Machine} :
    (define frame name v).Succeeds m ↔ ¬ (m.store.frame frame).binds name := by
  have happly := define_apply frame name v m
  split at happly
  . next h => exact iff_of_false (not_succeeds happly) (not_not_intro h)
  . next h => exact iff_of_true ⟨(), _, happly⟩ h

theorem Run.assign_sees {e : Nat} {name : String} {v : Value} {m m' : Machine}
    (hm : ∀ f, (m.store.frame f).Older f) (h : assign e name v m = .ok () m') : m.store.Sees name v
      (fun q => ∃ f, m.store.Resolves name q f ∧ m.store.Resolves name e f) m'.store := by
  rw [assign_apply] at h
  split at h
  . next target htarget =>
    cases h
    have hlookup := Store.lookup_rebind (Store.isSome_nearest_binds htarget) v
    have htouched : ∀ q, (∃ f, m.store.Resolves name q f ∧ m.store.Resolves name e f)
        ↔ m.store.resolve q name = some target := by
      intro q
      simp only [← Store.resolve_eq_some_iff hm, htarget]
      constructor
      . rintro ⟨f, hq, ⟨⟩⟩
        exact hq
      . intro hq
        exact ⟨target, hq, rfl⟩
    refine ⟨?_, ?_, ?_⟩
    . intro q hq
      rw [hlookup, if_pos ⟨rfl, (htouched q).1 hq⟩]
    . intro q hq
      rw [hlookup, if_neg fun h => hq ((htouched q).2 h.2)]
    . intro q k hk
      rw [hlookup, if_neg fun h => hk h.1]
  . contradiction

theorem Run.define_sees {e : Nat} {name : String} {v : Value} {m m' : Machine}
    (hm : ∀ f, (m.store.frame f).Older f) (he : e < m.store.frames.size)
    (h : define e name v m = .ok () m') :
    m.store.Sees name v (fun q => m'.store.Resolves name q e) m'.store := by
  rw [define_apply] at h
  split at h
  . contradiction
  . cases h
    have hlookup := Store.lookup_bind he name v
    have holder : ∀ f, ((m.store.bind e name v).frame f).Older f := by
      intro f p hp
      rw [Store.parent_bind] at hp
      exact hm f p hp
    refine ⟨?_, ?_, ?_⟩
    . intro q hq
      rw [hlookup, if_pos ⟨rfl, hq.resolve holder⟩]
    . intro q hq
      rw [hlookup, if_neg fun h => hq ((Store.resolve_eq_some_iff holder).1 h.2)]
    . intro q k hk
      rw [hlookup, if_neg fun h => hk h.1]

/--
Names are resolved in the same way by all that is done to them, and what has been done is seen from the
frames that resolve the name to the frame where it was done.
-/
theorem scoped_resolving {m : Machine} (h : m.Scoped) :
    (∀ e < m.store.frames.size, ∀ name, m.Resolving e name) ∧
      ∀ (c : ScopeCall) (i : Interrupt) (m' : Machine), c.run m = .error i m' → m' = m := by
  refine ⟨?_, fun c i m' => ScopeCall.run_error⟩
  intro e he name
  exact {
    isBound_iff_lookup := Run.lookup_succeeds_iff.symm
    isBound_iff_assign := fun v => Run.assign_succeeds_iff.symm
    assigned := fun v m' => Run.assign_sees h.older
    defined := fun v m' => Run.define_sees h.older he
    define_fails := fun v => by rw [Run.define_succeeds_iff, not_not] }

/--
The frame 1 gets a name that its parent has, too. From the frame 2 inside of it, that name is shadowed.
-/
theorem scoped_resolving_shadow :
    let m : Machine := { store := { frames :=
      #[{ parent := none, bindings := [("x", .integer 1)] }, { parent := some 0 }, { parent := some 1 }] } }
    ∃ m', Run.define 1 "x" (.integer 2) m = .ok () m' ∧
      m'.store.lookup 2 "x" = some (.integer 2) ∧ m'.store.lookup 0 "x" = m.store.lookup 0 "x" := by
  intro m
  have hscoped : m.Scoped :=
    .call (.call (.call (.call (m := {}) (.start rfl) (.newFrame none) nofun)
      (.newFrame (some 0)) (by rintro p ⟨⟩; decide)) (.newFrame (some 1)) (by rintro p ⟨⟩; decide))
      (.define 0 "x" (.integer 1)) (show 0 < 3 by decide)
  have hdefine : Run.define 1 "x" (.integer 2) m
      = .ok () { m with store := m.store.bind 1 "x" (.integer 2) } := rfl
  have hsees := ((scoped_resolving hscoped).1 1 (by decide) "x").defined _ _ hdefine
  refine ⟨_, hdefine, hsees.changed 2 ?_, hsees.unchanged 0 ?_⟩
  . exact .outside (by decide) rfl (.here (by decide))
  . intro h
    cases h with
    | outside _ hp => contradiction

end LispScript
