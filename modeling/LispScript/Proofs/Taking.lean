import LispScript.Proofs.Console
import LispScript.Proofs.Ordinary
import LispScript.Proofs.Retention

/-!
This module contains the account of the lines that an evaluation reads. Each `read` in the course of it
takes the next line, if there is one left, and nothing else touches the input.
-/

namespace LispScript

namespace Run

/--
In the course of `f`, the lines `given` are read. What the parts read is said by `reads`; the operations in
between do the same whatever there is to be read.
-/
inductive Reads (reads : Nat → Expr Value → Machine → List (Option Text) → Prop) (run : Evaluator) :
    {α : Type} → (Evaluator → Run α) → Machine → List (Option Text) → Prop where
  | operate {α : Type} {r : Run α} {m : Machine}
      (h : ∀ m lines, r { m with input := lines } = withInput lines (r m)) :
      Reads reads run (fun _ => r) m []
  | call {frame : Nat} {e : Expr Value} {m : Machine} {given : List (Option Text)}
      (h : reads frame e m given) : Reads reads run (fun run => run frame e) m given
  | next {α β : Type} {f : Evaluator → Run α} {g : α → Evaluator → Run β} {m m' : Machine} {a : α}
      {given more : List (Option Text)} (hf : Reads reads run f m given) (hx : f run m = .ok a m')
      (hg : Reads reads run (g a) m' more) :
      Reads reads run (fun run => f run >>= fun a => g a run) m (given ++ more)
  | stop {α β : Type} {f : Evaluator → Run α} {g : α → Evaluator → Run β} {m m' : Machine}
      {i : Interrupt} {given : List (Option Text)} (hf : Reads reads run f m given)
      (hx : f run m = .error i m') : Reads reads run (fun run => f run >>= fun a => g a run) m given

variable {reads : Nat → Expr Value → Machine → List (Option Text) → Prop} {run : Evaluator} {α : Type}
  {f : Evaluator → Run α}

theorem Ordinary.exists_reads {known : Prop} (h : Ordinary known f)
    (hreads : ∀ frame e m, ∃ given, reads frame e m given) (m : Machine) :
    ∃ given, Reads reads run f m given := by
  induction h generalizing m with
  | operate hquiet => exact ⟨[], .operate hquiet.idle⟩
  | call frame e =>
    obtain ⟨given, hgiven⟩ := hreads frame e m
    exact ⟨given, .call hgiven⟩
  | @bind _ _ f g _ _ ihf ihg =>
    obtain ⟨given, hgiven⟩ := ihf m
    cases hx : f run m with
    | ok a m' =>
      obtain ⟨more, hmore⟩ := ihg a m'
      exact ⟨given ++ more, .next hgiven hx hmore⟩
    | error i m' => exact ⟨given, .stop hgiven hx⟩

theorem input_withInput (lines : List Text) (r : EStateM.Result Interrupt Machine α) :
    (machine (withInput lines r)).input = lines := by
  cases r <;> rfl

theorem Reads.takes {given : List (Option Text)} {m : Machine}
    (hreads : ∀ frame e m given, reads frame e m given →
      Takes given m.input (machine (run frame e m)).input)
    (h : Reads reads run f m given) : Takes given m.input (machine (f run m)).input := by
  induction h with
  | @operate _ r m hidle =>
    have hsame : r m = withInput m.input (r m) := hidle m m.input
    dsimp only
    rw [hsame, input_withInput]
    exact .done
  | call h => exact hreads _ _ _ _ h
  | next _ hx _ ihf ihg =>
    rw [hx] at ihf
    dsimp only
    rw [bind_ok hx]
    exact ihf.append ihg
  | stop _ hx ihf =>
    rw [hx] at ihf
    dsimp only
    rw [bind_error hx]
    exact ihf

theorem nextLine_eq (m : Machine) :
    nextLine m = .ok (m.input.headD []) { m with input := m.input.tail } := by
  obtain ⟨store, output, input, muted⟩ := m
  cases input <;> rfl

theorem input_readLiteral (m : Machine) : (machine (readLiteral m)).input = m.input.tail := by
  rw [readLiteral, bind_ok (nextLine_eq m)]
  split
  . rfl
  . cases Literal.parse (m.input.headD []).trim.chars <;> rfl

end Run

/--
In the course of an evaluation, the lines `given` are read.
-/
def ReadsLines (context : Option Context) :
    (fuel frame : Nat) → Expr Value → Machine → (given : List (Option Text)) → Prop
  | _, _, .absent, _, given => given = []
  | 0, _, .node _ _, _, given => given = []
  | fuel + 1, frame, .node location form, m, given =>
    (form = .read ∧ given = [m.input.head?]) ∨
      (form ≠ .read ∧ Run.Reads (ReadsLines context fuel) (eval context fuel)
        (fun run => Run.course run fuel frame location form) m given)

theorem eval_readsLines (context : Option Context) (fuel frame : Nat) (e : Expr Value) (m : Machine) :
    ∃ given, ReadsLines context fuel frame e m given := by
  induction fuel generalizing frame e m with
  | zero =>
    cases e with
    | absent => exact ⟨[], rfl⟩
    | node location form => exact ⟨[], rfl⟩
  | succ fuel ih =>
    cases e with
    | absent => exact ⟨[], rfl⟩
    | node location form =>
      by_cases hread : form = .read
      . exact ⟨_, .inl ⟨hread, rfl⟩⟩
      . obtain ⟨given, hgiven⟩ := (Run.course_ordinary hread fuel location).exists_reads ih m
        exact ⟨given, .inr ⟨hread, hgiven⟩⟩

theorem ReadsLines.takes {context : Option Context} {fuel frame : Nat} {e : Expr Value} {m : Machine}
    {given : List (Option Text)} (h : ReadsLines context fuel frame e m given) :
    Takes given m.input (Run.machine (eval context fuel frame e m)).input := by
  induction fuel generalizing frame e m given with
  | zero =>
    cases e with
    | absent =>
      cases h
      exact .done
    | node location form =>
      cases h
      exact .done
  | succ fuel ih =>
    cases e with
    | absent =>
      cases h
      exact .done
    | node location form =>
      rw [eval, Run.machine_located, Run.machine_perform]
      rcases h with ⟨rfl, rfl⟩ | ⟨_, h⟩
      . show Takes _ _ (Run.machine (Run.readLiteral m)).input
        rw [Run.input_readLiteral]
        exact .head m.input
      . apply h.takes
        intro frame e m given hgiven
        exact ih hgiven

end LispScript
