import LispScript.Eval
import LispScript.Proofs.Primitive

/-!
This module contains the structure that every form has in common. `Run.Plan` describes what is done
with an evaluator: it is called on parts of the form, one call after the other and all of them in the
frame `home`, or in a scope that was opened for the purpose; in between there are operations on the
machine. An operation that fails leaves the machine as it was. A plan is made for all stores that have
grown from `s`, and `Q` is what holds of its result. The frames and parts that the evaluator is called
on are among `calls`.
-/

namespace LispScript

namespace Run

def Operates {α : Type} (G : Regime) (home : Option Nat) (Q : Store → α → Prop) (m : Machine) :
    EStateM.Result Interrupt Machine α → Prop
  | .ok a m' => (m' = m ∨ m.Change G home m') ∧ Q m'.store a
  | .error i m' => m' = m ∧ G.interrupt i

inductive Plan (G : Regime) (calls : Nat → Expr Value → Prop) :
    {α : Type} → Store → Option Nat → (Evaluator → Run α) → (Store → α → Prop) → Prop where
  | operate {α : Type} {s : Store} {home : Option Nat} {r : Run α} {Q : Store → α → Prop}
      (h : ∀ m : Machine, G.store m.store → s.Grows m.store → Operates G home Q m (r m)) :
      Plan G calls s home (fun _ => r) Q
  | call {s : Store} {frame : Nat} {e : Expr Value} (hcall : calls frame e)
      (hframe : G.frame s frame) (he : G.expr s e) :
      Plan G calls s (some frame) (fun run => run frame e) G.value
  | bind {α β : Type} {s : Store} {home : Option Nat} {f : Evaluator → Run α}
      {g : α → Evaluator → Run β} {Q : Store → α → Prop} {R : Store → β → Prop}
      (hf : Plan G calls s home f Q)
      (hg : ∀ t a, s.Grows t → Q t a → Plan G calls t home (g a) R) :
      Plan G calls s home (fun run => f run >>= fun a => g a run) R
  | within {α : Type} {s : Store} {home : Option Nat} {frame : Nat} {g : Nat → Evaluator → Run α}
      {Q : Store → α → Prop} (hframe : G.frame s frame)
      (hg : ∀ t scope, s.Grows t → G.frame t scope → Plan G calls t (some scope) (g scope) Q) :
      Plan G calls s home (fun run => create (·.addFrame (some frame)) >>= fun scope => g scope run) Q

namespace Plan

variable {G : Regime} {calls : Nat → Expr Value → Prop} {α β : Type} {s t : Store}
  {home : Option Nat}

theorem pure {a : α} {Q : Store → α → Prop} (h : ∀ t, s.Grows t → Q t a) :
    Plan G calls s home (fun _ => Pure.pure a) Q := by
  apply Plan.operate
  intro m _ hm
  exact ⟨.inl rfl, h m.store hm⟩

theorem fail {fault : Fault} {Q : Store → α → Prop} (h : G.fault fault) :
    Plan G calls s home (fun _ => Run.fail fault) Q := by
  apply Plan.operate
  intro m _ _
  exact ⟨rfl, rfl, h⟩

theorem exhausted {Q : Store → α → Prop} :
    Plan G calls s home (fun _ => throw .exhausted) Q := by
  apply Plan.operate
  intro m _ _
  exact ⟨rfl, trivial⟩

theorem inspect {f : Store → α} {Q : Store → α → Prop}
    (h : ∀ t, G.store t → s.Grows t → Q t (f t)) :
    Plan G calls s home (fun _ => Run.inspect f) Q := by
  apply Plan.operate
  intro m hstore hm
  exact ⟨.inl rfl, h m.store hstore hm⟩

theorem ofPrimitive {x : Except Fault α} {P : α → Prop} {Q : Store → α → Prop}
    (hx : Primitive.Sane P x) (h : ∀ t a, P a → Q t a) :
    Plan G calls s home (fun _ => Run.ofPrimitive x) Q := by
  cases x with
  | ok a => apply Plan.pure fun t _ => h t a hx
  | error f => apply Plan.fail (.inl hx)

theorem consult {f : Store → Except Fault α} {Q : Store → α → Prop}
    (h : ∀ t, G.store t → s.Grows t → Primitive.Sane (Q t) (f t)) :
    Plan G calls s home (fun _ => Run.consult f) Q := by
  apply Plan.operate
  intro m hstore hm
  show Operates G home Q m (Run.ofPrimitive (f m.store) m)
  have hsane := h m.store hstore hm
  cases hf : f m.store with
  | ok a =>
    rw [hf] at hsane
    exact ⟨.inl rfl, hsane⟩
  | error fault =>
    rw [hf] at hsane
    exact ⟨rfl, rfl, .inl hsane⟩

theorem update {f : Store → Store} (h : ∀ t, G.store t → s.Grows t → t.Change G home (f t)) :
    Plan G calls s home (fun _ => Run.update f) (fun _ _ => True) := by
  apply Plan.operate
  intro m hstore hm
  exact ⟨.inr (.store (h m.store hstore hm)), trivial⟩

theorem create {add : Store → α × Store} {Q : Store → α → Prop}
    (hchange : ∀ t, G.store t → s.Grows t → t.Change G home (add t).2)
    (h : ∀ t, G.store t → s.Grows t → Q (add t).2 (add t).1) :
    Plan G calls s home (fun _ => Run.create add) Q := by
  apply Plan.operate
  intro m hstore hm
  exact ⟨.inr (.store (hchange m.store hstore hm)), h m.store hstore hm⟩

theorem print {text : String} : Plan G calls s home (fun _ => Run.print text) (fun _ _ => True) := by
  apply Plan.operate
  intro m _ _
  obtain ⟨store, output, input, muted⟩ := m
  cases muted with
  | true => exact ⟨.inl rfl, trivial⟩
  | false => exact ⟨.inr (.print text), trivial⟩

theorem nextLine : Plan G calls s home (fun _ => Run.nextLine) (fun _ _ => True) := by
  apply Plan.operate
  intro m _ _
  obtain ⟨store, output, input, muted⟩ := m
  cases input with
  | nil => exact ⟨.inl rfl, trivial⟩
  | cons line input => exact ⟨.inr (.read rfl), trivial⟩

end Plan

structure Ready (G : Regime) (calls : Nat → Expr Value → Prop) (s : Store) (frame : Nat)
    (es : List (Expr Value)) : Prop where
  here : G.frame s frame
  called : ∀ e ∈ es, calls frame e
  exprs : ∀ e ∈ es, G.expr s e

namespace Ready

variable {G : Regime} [G.Lawful] {calls : Nat → Expr Value → Prop} {s t : Store} {frame : Nat}
  {e : Expr Value} {es es' : List (Expr Value)}

theorem grows (h : Ready G calls s frame es) (hst : s.Grows t) : Ready G calls t frame es where
  here := Regime.Lawful.frame_grows hst h.here
  called := h.called
  exprs := fun e he => Regime.Lawful.expr_grows hst (h.exprs e he)

omit [G.Lawful] in
theorem sub (h : Ready G calls s frame es) (hsub : ∀ e ∈ es', e ∈ es) :
    Ready G calls s frame es' where
  here := h.here
  called := fun e he => h.called e (hsub e he)
  exprs := fun e he => h.exprs e (hsub e he)

omit [G.Lawful] in
theorem tail (h : Ready G calls s frame (e :: es)) : Ready G calls s frame es :=
  h.sub fun _ he => List.mem_cons_of_mem e he

omit [G.Lawful] in
theorem head (h : Ready G calls s frame (e :: es)) :
    Plan G calls s (some frame) (fun run => run frame e) G.value :=
  .call (h.called e List.mem_cons_self) h.here (h.exprs e List.mem_cons_self)

end Ready

end Run

end LispScript
