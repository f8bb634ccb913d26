import LispScript.Proofs.Scope

/-!
This module contains the proof that evaluation respects every relation of machines that each single step
of it respects: the machine at the beginning of an evaluation is related to the one at its end, whatever
the evaluation comes to, and so are the moments at which the evaluations in it begin and end.
-/

namespace LispScript

/--
A relation between a machine and what can become of it.
-/
structure Machine.Stable (R : Machine → Machine → Prop) : Prop where
  refl : ∀ m, R m m
  trans : ∀ {l m n}, R l m → R m n → R l n
  change : ∀ {G : Regime} {home : Option Nat} {m n : Machine}, m.Change G home n → R m n
  addFrame : ∀ (m : Machine) (parent : Nat), R m { m with store := (m.store.addFrame parent).2 }

namespace Run

variable {R : Machine → Machine → Prop} (hR : Machine.Stable R) {G : Regime}

include hR

theorem Operates.stable {α : Type} {home : Option Nat} {Q : Store → α → Prop} {m : Machine}
    {r : EStateM.Result Interrupt Machine α} (h : Operates G home Q m r) : R m (machine r) := by
  cases r with
  | ok a m' =>
    obtain ⟨rfl | hchange, _⟩ := h
    . apply hR.refl
    . apply hR.change hchange
  | error i m' =>
    obtain ⟨rfl, _⟩ := h
    apply hR.refl

theorem Trace.stable {run : Evaluator} (hrun : ∀ frame e m, R m (machine (run frame e m))) {α : Type}
    {calls : Nat → Expr Value → Prop} {home : Option Nat} {f : Evaluator → Run α} {m : Machine}
    (h : Trace G calls run home f m) : R m (machine (f run m)) := by
  induction h with
  | operate h => apply h.stable hR
  | call => apply hrun
  | next _ hx _ ihf ihg =>
    rw [hx] at ihf
    dsimp only
    rw [bind_ok hx]
    apply hR.trans ihf ihg
  | stop _ hx ihf =>
    rw [hx] at ihf
    dsimp only
    rw [bind_error hx]
    apply ihf
  | within _ ihg =>
    apply hR.trans (hR.addFrame _ _)
    apply ihg

/--
If an evaluation is needed on the way from `m` to the end, it begins after `m` and is over before the end.
-/
theorem Trace.between {run run' : Evaluator} (hrun : ∀ frame e m, R m (machine (run frame e m)))
    {α : Type} {calls : Nat → Expr Value → Prop} {home : Option Nat} {f : Evaluator → Run α}
    {m m' : Machine} {frame : Nat} {e : Expr Value} (h : Trace G calls run home f m)
    (hagree : AgreeOff run run' frame e m') (hdiffers : f run' m ≠ f run m) :
    R m m' ∧ R (machine (run frame e m')) (machine (f run m)) := by
  induction h with
  | operate => contradiction
  | @call frame₁ e₁ m₁ =>
    by_cases hhere : frame₁ = frame ∧ e₁ = e ∧ m₁ = m'
    . obtain ⟨rfl, rfl, rfl⟩ := hhere
      exact ⟨hR.refl _, hR.refl _⟩
    . exact absurd (hagree _ _ _ hhere) hdiffers
  | @next _ _ _ f g m₁ m₂ a hf hx hg ihf ihg =>
    dsimp only at hdiffers ⊢
    by_cases hsame : f run' m₁ = f run m₁
    . -- The first half does not need the evaluation, so the second one does.
      rw [bind_ok hx, bind_ok (hsame.trans hx)] at hdiffers
      obtain ⟨hbefore, hafter⟩ := ihg hdiffers
      have hfirst := hf.stable hR hrun
      rw [hx] at hfirst
      rw [bind_ok hx]
      exact ⟨hR.trans hfirst hbefore, hafter⟩
    . obtain ⟨hbefore, hafter⟩ := ihf hsame
      have hsecond := hg.stable hR hrun
      rw [hx] at hafter
      rw [bind_ok hx]
      exact ⟨hbefore, hR.trans hafter hsecond⟩
  | @stop _ _ _ f g m₁ m₂ i hf hx ihf =>
    dsimp only at hdiffers ⊢
    by_cases hsame : f run' m₁ = f run m₁
    . rw [bind_error hx, bind_error (hsame.trans hx)] at hdiffers
      contradiction
    . obtain ⟨hbefore, hafter⟩ := ihf hsame
      rw [hx] at hafter
      rw [bind_error hx]
      exact ⟨hbefore, hafter⟩
  | within _ ihg =>
    obtain ⟨hbefore, hafter⟩ := ihg hdiffers
    exact ⟨hR.trans (hR.addFrame _ _) hbefore, hafter⟩

omit hR in
theorem course_traced {run : Evaluator} (hrun : Keeps anyRegime (fun _ => True) run run)
    (fuel frame : Nat) (location : Option Location) {form : Form Value} (hbreak : form ≠ .breakLoop)
    (m : Machine) :
    Trace anyRegime anywhere run (form.home frame)
      (fun run => course run fuel frame location form) m := by
  have hready : Ready anyRegime anywhere m.store frame form.parts :=
    ⟨trivial, fun _ _ => trivial, fun e _ => .of_forall (fun _ _ => trivial) e⟩
  have hnode : anyRegime.node m.store location form := trivial
  apply (course_plan fuel hbreak hnode hready).trace hrun m trivial (.refl _)

omit hR in
theorem machine_perform (run : Evaluator) (fuel frame : Nat) (location : Option Location)
    (form : Form Value) (m : Machine) :
    machine (perform run fuel frame location form m)
      = machine (course run fuel frame location form m) := by
  cases form with
  | loop start condition advance body => rw [perform_loop, machine_catchBreak]
  | _ => rfl

end Run

theorem eval_stable {R : Machine → Machine → Prop} (hR : Machine.Stable R) (context : Option Context)
    (fuel frame : Nat) (e : Expr Value) (m : Machine) :
    R m (Run.machine (eval context fuel frame e m)) := by
  induction fuel generalizing frame e m with
  | zero =>
    cases e with
    | absent => apply hR.refl
    | node location form => apply hR.refl
  | succ fuel ih =>
    cases e with
    | absent => apply hR.refl
    | node location form =>
      rw [eval, Run.machine_located, Run.machine_perform]
      by_cases hbreak : form = .breakLoop
      . subst hbreak
        apply hR.refl
      . have hkeeps := Run.eval_keeps (G := anyRegime) (Run.any_escapes context) fuel
        apply (Run.course_traced hkeeps fuel frame location hbreak m).stable hR ih

/--
Each of the evaluations that an evaluation consists of begins later and is over earlier.
-/
theorem Occurs.between {R : Machine → Machine → Prop} (hR : Machine.Stable R)
    {context : Option Context} {fuel frame fuel' frame' : Nat} {e e' : Expr Value} {m m' : Machine}
    (h : Occurs context fuel frame e m fuel' frame' e' m') :
    R m m' ∧ R (Run.machine (eval context fuel' frame' e' m'))
      (Run.machine (eval context fuel frame e m)) := by
  induction h with
  | here => exact ⟨hR.refl _, hR.refl _⟩
  | @part fuel frame _ _ _ location form _ _ m _ _ involves _ ih =>
    obtain ⟨run', hagree, hdiffers⟩ := involves
    have hbreak : form ≠ .breakLoop := by
      rintro rfl
      contradiction
    have hkeeps := Run.eval_keeps (G := anyRegime) (Run.any_escapes context) fuel
    have hpart := (Run.course_traced hkeeps fuel frame location hbreak m).between hR
      (eval_stable hR context fuel) hagree hdiffers
    rw [eval, Run.machine_located, Run.machine_perform]
    exact ⟨hR.trans hpart.1 ih.1, hR.trans ih.2 hpart.2⟩

end LispScript
