import LispScript.Proofs.Safety

/-!
This module contains the proof that names are bound only in the frame that an expression is evaluated
in, and in frames that come into being on the way. It holds on every machine, so the regime is the one
that asks for nothing.
-/

namespace LispScript

def anyRegime : Regime where
  store := fun _ => True
  value := fun _ _ => True
  frame := fun _ _ => True
  node := fun _ _ _ => True

instance : anyRegime.Lawful where
  value_grows := fun _ _ => trivial
  frame_grows := fun _ _ => trivial
  node_grows := fun _ _ => trivial
  value_of_within := fun _ => trivial
  frame_of_lt := fun _ => trivial
  literal := fun _ => trivial
  lookup := fun _ _ => trivial
  element := fun _ _ => trivial
  field := fun _ _ => trivial
  closure := fun _ _ => ⟨trivial, .of_forall (fun _ _ => trivial) _⟩
  clone := fun _ _ => trivial
  change := fun _ _ => trivial
  addFrame := fun _ _ => trivial

def Run.machine {α : Type} : EStateM.Result Interrupt Machine α → Machine
  | .ok _ m => m
  | .error _ m => m

/--
From `s` to `t`, no frame of `s` but `home` has gained or lost a name.
-/
structure Store.Confined (home : Option Nat) (s t : Store) : Prop where
  size : s.frames.size ≤ t.frames.size
  names : ∀ f < s.frames.size, home ≠ some f → (t.frame f).names = (s.frame f).names

namespace Store.Confined

variable {s t u : Store} {home home' : Option Nat}

theorem refl (s : Store) : s.Confined home s where
  size := Nat.le_refl _
  names := fun _ _ _ => rfl

theorem trans (hst : s.Confined home t) (htu : t.Confined home u) : s.Confined home u where
  size := Nat.le_trans hst.size htu.size
  names := by
    intro f hf hhome
    rw [htu.names f (Nat.lt_of_lt_of_le hf hst.size) hhome, hst.names f hf hhome]

theorem of_frames (h : t.frames = s.frames) : s.Confined home t where
  size := Nat.le_of_eq (congrArg Array.size h).symm
  names := by
    intro f _ _
    unfold Store.frame
    rw [h]

theorem addFrame (s : Store) (parent : Option Nat) : s.Confined home (s.addFrame parent).2 where
  size := (s.addFrame_grows parent).frames
  names := by
    intro f hf _
    unfold Store.frame Store.addFrame
    rw [Array.getElem?_push_lt hf, Array.getElem?_eq_getElem hf]

theorem within {scope : Nat} (hst : s.Confined none t) (hscope : s.frames.size ≤ scope)
    (htu : t.Confined (some scope) u) : s.Confined home u where
  size := Nat.le_trans hst.size htu.size
  names := by
    intro f hf _
    have hother : some scope ≠ some f := by
      intro h
      cases h
      omega
    rw [htu.names f (Nat.lt_of_lt_of_le hf hst.size) hother, hst.names f hf (by simp)]

theorem bind (s : Store) (frame : Nat) (name : String) (v : Value) :
    s.Confined (some frame) (s.bind frame name v) where
  size := by simp [Store.bind]
  names := by
    intro f _ hother
    have hne : frame ≠ f := by
      intro h
      apply hother
      rw [h]
    simp only [Store.frame, Store.bind, Array.getElem?_modify, if_neg hne]

theorem names_replaceValue (f : Frame) (name : String) (v : Value) :
    Frame.names { f with bindings := replaceValue name v f.bindings } = f.names := by
  exact keys_replaceValue name v f.bindings

theorem rebind (s : Store) (target : Nat) (name : String) (v : Value) :
    s.Confined home (s.rebind target name v) where
  size := by simp [Store.rebind]
  names := by
    intro f hf _
    simp only [Store.frame, Store.rebind, Array.getElem?_modify]
    split
    . rw [Array.getElem?_eq_getElem hf]
      apply names_replaceValue
    . rfl

end Store.Confined

theorem Store.Change.confined {G : Regime} {home : Option Nat} {s t : Store}
    (h : s.Change G home t) : s.Confined home t := by
  cases h with
  | bind hhome =>
    rw [hhome]
    apply Confined.bind
  | rebind => apply Confined.rebind
  | clone => apply Confined.of_frames (Value.clone_extends _ _).frames
  | _ =>
    apply Confined.of_frames
    rfl

namespace Run

theorem Operates.confined {G : Regime} {α : Type} {home : Option Nat} {Q : Store → α → Prop}
    {m : Machine} {r : EStateM.Result Interrupt Machine α} (h : Operates G home Q m r) :
    m.store.Confined home (machine r).store := by
  cases r with
  | ok a m' =>
    obtain ⟨rfl | hchange, _⟩ := h
    . apply Store.Confined.refl
    . cases hchange with
      | store hchange => apply hchange.confined
      | print => apply Store.Confined.refl
      | read => apply Store.Confined.refl
  | error i m' =>
    obtain ⟨rfl, _⟩ := h
    apply Store.Confined.refl

structure Confines (run : Evaluator) : Prop where
  keeps : Keeps anyRegime (fun _ => True) run run
  confined : ∀ frame e (m : Machine),
    m.store.Confined (some frame) (machine (run frame e m)).store

theorem Trace.confined {G : Regime} {run : Evaluator} (hrun : Confines run) {α : Type}
    {calls : Nat → Expr Value → Prop} {home : Option Nat} {f : Evaluator → Run α} {m : Machine}
    (h : Trace G calls run home f m) : m.store.Confined home (machine (f run m)).store := by
  induction h with
  | operate h => apply h.confined
  | call => apply hrun.confined
  | next _ hx _ ihf ihg =>
    rw [hx] at ihf
    dsimp only
    rw [bind_ok hx]
    apply ihf.trans ihg
  | stop _ hx ihf =>
    rw [hx] at ihf
    dsimp only
    rw [bind_error hx]
    apply ihf
  | @within _ home frame g m _ ihg =>
    -- The new scope is behind all frames that were there, so what it binds concerns none of them.
    have hopen : m.store.Confined none (m.store.addFrame (some frame)).2 := .addFrame _ _
    apply hopen.within (Nat.le_refl _)
    apply ihg

theorem machine_located {α : Type} (context : Option Context) (location : Option Location)
    (r : Run α) (m : Machine) : machine (located context location r m) = machine (r m) := by
  unfold located
  split
  . next h => rw [h]; rfl
  . rfl

theorem machine_catchBreak (r : Run Value) (m : Machine) :
    machine (catchBreak r m) = machine (r m) := by
  unfold catchBreak
  split
  . next h => rw [h]; rfl
  . rfl

theorem perform_confined {run : Evaluator} (hrun : Confines run) (fuel frame : Nat)
    (location : Option Location) (form : Form Value) (m : Machine) :
    m.store.Confined (form.home frame) (machine (perform run fuel frame location form m)).store := by
  have hready : Ready anyRegime anywhere m.store frame form.parts :=
    ⟨trivial, fun _ _ => trivial, fun e _ => .of_forall (fun _ _ => trivial) e⟩
  have hnode : anyRegime.node m.store location form := trivial
  cases form with
  | breakLoop => apply Store.Confined.refl
  | loop start condition advance body =>
    have hplan := course_plan fuel (by simp) hnode hready
    rw [perform_loop, machine_catchBreak]
    apply (hplan.trace hrun.keeps m trivial (.refl _)).confined hrun
  | _ =>
    have hplan := course_plan fuel (by simp) hnode hready
    apply (hplan.trace hrun.keeps m trivial (.refl _)).confined hrun

theorem any_escapes {G : Regime} (context : Option Context) : Escapes G context fun _ => True where
  breakLoop := fun _ _ _ => trivial
  fault := fun _ _ _ _ _ _ => trivial
  located := fun _ _ _ => trivial
  exhausted := trivial

end Run

theorem Store.Confined.of_home {s t : Store} {form : Form Value} {frame : Nat}
    (h : s.Confined (form.home frame) t) : s.Confined (some frame) t where
  size := h.size
  names := by
    intro f hf hother
    apply h.names f hf
    unfold Form.home
    split
    . simp
    . apply hother

theorem eval_confines (context : Option Context) (fuel : Nat) :
    Run.Confines (eval context fuel) := by
  induction fuel with
  | zero =>
    refine ⟨Run.eval_keeps (Run.any_escapes context) 0, ?_⟩
    intro frame e m
    cases e with
    | absent => apply Store.Confined.refl
    | node location form => apply Store.Confined.refl
  | succ fuel ih =>
    refine ⟨Run.eval_keeps (Run.any_escapes context) (fuel + 1), ?_⟩
    intro frame e m
    cases e with
    | absent => apply Store.Confined.refl
    | node location form =>
      rw [eval, Run.machine_located]
      apply Store.Confined.of_home
      apply Run.perform_confined ih

theorem eval_keeps_names (context : Option Context) (fuel frame : Nat) (e : Expr Value)
    (m : Machine) :
    let after := (Run.machine (eval context fuel frame e m)).store
    (∀ f < m.store.frames.size, f ≠ frame → (after.frame f).names = (m.store.frame f).names) ∧
      (∀ location form, e = .node location form → form.isScoped →
        ∀ f < m.store.frames.size, (after.frame f).names = (m.store.frame f).names) := by
  intro after
  constructor
  . intro f hf hother
    apply ((eval_confines context fuel).confined frame e m).names f hf
    intro h
    cases h
    contradiction
  . intro location form he hscoped f hf
    cases fuel with
    | zero =>
      subst he
      rfl
    | succ fuel =>
      have hconfined := Run.perform_confined (eval_confines context fuel) fuel frame location form m
      have hafter : after = (Run.machine
          (Run.perform (eval context fuel) fuel frame location form m)).store := by
        simp only [after, he, eval, Run.machine_located]
      rw [hafter]
      apply hconfined.names f hf
      rw [Form.home, if_pos hscoped]
      simp

end LispScript
