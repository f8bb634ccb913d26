import LispScript.Proofs.TwinSources

/-!
This module contains the proof that locations and contexts do not matter to evaluations. They are noted
in failures, and nothing looks at what was noted: a loop ends by a `break` wherever that stands, and a
failure goes outward whatever is known about its place.
-/

namespace LispScript

/--
Trees may differ in their locations; all names count.
-/
def Likeness.placeless : Likeness where
  placed := False
  name := fun _ => true
  bound := fun _ => True
  bound_of_name := fun _ _ => trivial
  type := fun _ => True
  type_of_nodup := fun _ _ => trivial

/--
Two evaluations end in the same way: with values that stand for each other, or with failures that are
of one sort and say the same.
-/
inductive SameEnd (ρ : Renaming) : Except Failure Value → Except Failure Value → Prop where
  | ok {v w : Value} (h : v.Alike ρ w) : SameEnd ρ (.ok v) (.ok w)
  | error {f g : Failure} (hsort : f.fault.sort = g.fault.sort) (hmessage : f.message = g.message)
      (hended : f.fault = .exhausted ↔ g.fault = .exhausted) : SameEnd ρ (.error f) (.error g)

theorem OutcomeAlike.sameEnd {L : Likeness} {ρ : Renaming} {r r' : Except Failure Value}
    (h : OutcomeAlike L ρ r r') : SameEnd ρ r r' := by
  cases h with
  | ok h => exact .ok h
  | error h =>
    refine .error ?_ ?_ ?_
    . rw [h.fault]
    . rw [Failure.message, Failure.message, h.fault]
    . rw [h.fault]

/--
Evaluations of trees that differ in nothing but locations, under any contexts, at any bound on the
depth: `Machine.evaluate` is the case that the bound is `unbounded`.
-/
theorem evaluate_placeless (context context' : Option Context) (fuel : Nat) {ρ : Renaming}
    {m n : Machine} (hstore : m.store.Alike .placeless ρ n.store) (houtput : m.output = n.output)
    (hinput : m.input = n.input) (hmuted : m.muted = n.muted) {frame frame' : Nat}
    (hframe : ρ .frames frame frame') {e e' : Expr Value} (he : e.Alike .placeless ρ e') :
    let r := m.run (Run.refuseBreak context (eval context fuel frame e))
    let r' := n.run (Run.refuseBreak context' (eval context' fuel frame' e'))
    ∃ ρ', ρ ≤ ρ' ∧ r.2.Alike .placeless ρ' r'.2 ∧
      (ρ.Covers m.store n.store → ρ'.Covers r.2.store r'.2.store) ∧ SameEnd ρ' r.1 r'.1 := by
  intro r r'
  have hcontext : Likeness.placeless.placed → context = context' := False.elim
  obtain ⟨ρ', hpassage, houtcome⟩ := Machine.run_twin
    (.refuseBreak hcontext (eval_twin hcontext fuel hframe he)) ⟨hstore, houtput, hinput, hmuted⟩
  exact ⟨ρ', hpassage.store.le, hpassage.alike, hpassage.store.covers, houtcome.sameEnd⟩

theorem evaluate_placeless_loop :
    let m : Machine := { store := { frames := #[{ parent := none }, { parent := none }] } }
    let n : Machine := { store := { frames := #[{ parent := none }] } }
    let loop (l : Option Location) : Expr Value :=
      .node l (.loop .absent (.node l (.literal (.boolean true))) .absent (.node l .breakLoop))
    let place : Location := { file := "loop", line := 1, column := 1, length := 16 }
    ∃ ρ', SameEnd ρ' (m.evaluate (some { file := "loop", source := [] }) 1 (loop (some place))).1
      (n.evaluate none 0 (loop none)).1 := by
  intro m n loop place
  let ρ : Renaming := .single 1 0
  have hstore : m.store.Alike .placeless ρ n.store :=
    Store.alike_single (by decide) (by decide) rfl rfl
  have hloop : (loop (some place)).Alike .placeless ρ (loop none) := by
    have hnode {form form' : Form Value} (h : form.Alike .placeless ρ (Expr.Alike .placeless ρ) form') :
        Expr.Alike .placeless ρ (.node (some place) form) (.node none form') :=
      .node _ False.elim h fun _ _ h => h
    exact hnode (.loop .absent (hnode (.literal (.boolean true))) .absent (hnode .breakLoop))
  obtain ⟨ρ', _, _, _, hend⟩ := evaluate_placeless (some { file := "loop", source := [] }) none unbounded
    hstore rfl rfl rfl ⟨rfl, rfl, rfl⟩ hloop
  exact ⟨ρ', hend⟩

end LispScript
