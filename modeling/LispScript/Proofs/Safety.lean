import LispScript.Proofs.Clone
import LispScript.Proofs.Forms

/-!
This module contains the proof that evaluation keeps every lawful regime: whatever the outcome is, the
store is good and has grown, and a value is good. It does not matter what an evaluator does outside of
the regime, because it is never called there.
-/

namespace LispScript

theorem Store.Change.grows {G : Regime} {home : Option Nat} {s t : Store}
    (h : s.Change G home t) : s.Grows t := by
  cases h with
  | bind => constructor <;> simp [Store.bind]
  | rebind => constructor <;> simp [Store.rebind]
  | addString => constructor <;> simp [Store.addString]
  | setChar => constructor <;> simp [Store.setChar]
  | appendChars => constructor <;> simp [Store.appendChars]
  | addArray => constructor <;> simp [Store.addArray]
  | setElement => constructor <;> simp [Store.setElement]
  | pushElement => constructor <;> simp [Store.pushElement]
  | addRecordType => constructor <;> simp [Store.addRecordType]
  | addBlankRecord => constructor <;> simp [Store.addBlankRecord, Store.addRecord]
  | setField => constructor <;> simp [Store.setField]
  | addClosure => constructor <;> simp [Store.addClosure]
  | clone => apply (Value.clone_extends _ _).grows

theorem Store.addFrame_grows (s : Store) (parent : Option Nat) : s.Grows (s.addFrame parent).2 := by
  constructor <;> simp [Store.addFrame]

namespace Run

/--
The outcome of a run that started in the store `s`: `Q` holds of a value and `E` of an interrupt.
-/
def Settled {α : Type} (G : Regime) (s : Store) (E : Interrupt → Prop) (Q : Store → α → Prop) :
    EStateM.Result Interrupt Machine α → Prop
  | .ok a m => G.store m.store ∧ s.Grows m.store ∧ Q m.store a
  | .error i m => G.store m.store ∧ s.Grows m.store ∧ E i

variable {G : Regime} [G.Lawful] {α β : Type} {s t : Store} {E E' : Interrupt → Prop}
  {Q : Store → α → Prop} {calls : Nat → Expr Value → Prop} {home : Option Nat}

omit [G.Lawful] in
theorem Settled.since {r : EStateM.Result Interrupt Machine α} (h : Settled G t E Q r)
    (hst : s.Grows t) : Settled G s E Q r := by
  cases r with
  | ok a m => exact ⟨h.1, hst.trans h.2.1, h.2.2⟩
  | error i m => exact ⟨h.1, hst.trans h.2.1, h.2.2⟩

theorem Operates.settled {m : Machine} {r : EStateM.Result Interrupt Machine α}
    (hstore : G.store m.store) (h : Operates G home Q m r) :
    Settled G m.store (fun i => G.interrupt i ∨ E i) Q r := by
  cases r with
  | ok a m' =>
    obtain ⟨rfl | hchange, hQ⟩ := h
    . exact ⟨hstore, .refl _, hQ⟩
    . cases hchange with
      | store hchange => exact ⟨Regime.Lawful.change hstore hchange, hchange.grows, hQ⟩
      | print text => exact ⟨hstore, .refl _, hQ⟩
      | read hinput => exact ⟨hstore, .refl _, hQ⟩
  | error i m' =>
    obtain ⟨rfl, hi⟩ := h
    exact ⟨hstore, .refl _, .inl hi⟩

/--
On everything that is good, `run` keeps the regime and `run'` does the same as `run`.
-/
def Keeps (G : Regime) (E : Interrupt → Prop) (run run' : Evaluator) : Prop :=
  ∀ frame e (m : Machine), G.store m.store → G.frame m.store frame → G.expr m.store e →
    run' frame e m = run frame e m ∧ Settled G m.store E G.value (run frame e m)

omit [G.Lawful] in
theorem Settled.mono {r : EStateM.Result Interrupt Machine α} (h : Settled G s E Q r)
    (hE : ∀ i, E i → E' i) : Settled G s E' Q r := by
  cases r with
  | ok a m => apply h
  | error i m => exact ⟨h.1, h.2.1, hE i h.2.2⟩

theorem Plan.settled {run run' : Evaluator} (hrun : Keeps G E run run') {f : Evaluator → Run α}
    (h : Plan G calls s home f Q) (m : Machine) (hstore : G.store m.store)
    (hm : s.Grows m.store) :
    f run' m = f run m ∧ Settled G m.store (fun i => G.interrupt i ∨ E i) Q (f run m) := by
  induction h generalizing m with
  | operate h =>
    constructor
    . rfl
    . apply Operates.settled hstore
      apply h m hstore hm
  | @call s frame e hcall hframe he =>
    have hframe := Regime.Lawful.frame_grows hm hframe
    have he := Regime.Lawful.expr_grows hm he
    have := hrun frame e m hstore hframe he
    constructor
    . apply this.1
    . apply this.2.mono
      intro i hi
      apply Or.inr hi
  | @bind _ _ s home f g Q R hf hg ihf ihg =>
    obtain ⟨hsame, hsettled⟩ := ihf m hstore hm
    dsimp only
    cases hx : f run m with
    | ok a m' =>
      rw [hx] at hsame hsettled
      obtain ⟨hstore', hgrows, hQ⟩ := hsettled
      rw [bind_ok hsame, bind_ok hx]
      have := ihg m'.store a (hm.trans hgrows) hQ m' hstore' (.refl _)
      constructor
      . apply this.1
      . apply this.2.since hgrows
    | error i m' =>
      rw [hx] at hsame hsettled
      rw [bind_error hsame, bind_error hx]
      exact ⟨rfl, hsettled⟩
  | @within _ s home frame g Q hframe hg ihg =>
    have hgrows := m.store.addFrame_grows (some frame)
    have hframe := Regime.Lawful.frame_grows hm hframe
    have := ihg (m.store.addFrame (some frame)).2 m.store.frames.size (hm.trans hgrows)
      (Regime.Lawful.frame_of_lt (by simp [Store.addFrame]))
      { m with store := (m.store.addFrame (some frame)).2 }
      (Regime.Lawful.addFrame hstore hframe) (.refl _)
    constructor
    . apply this.1
    . apply this.2.since hgrows

/--
What a plan comes to on one machine: the calls and operations that are done there, in order.
-/
inductive Trace (G : Regime) (calls : Nat → Expr Value → Prop) (run : Evaluator) :
    {α : Type} → Option Nat → (Evaluator → Run α) → Machine → Prop where
  | operate {α : Type} {home : Option Nat} {r : Run α} {Q : Store → α → Prop} {m : Machine}
      (h : Operates G home Q m (r m)) : Trace G calls run home (fun _ => r) m
  | call {frame : Nat} {e : Expr Value} {m : Machine} (hcall : calls frame e) :
      Trace G calls run (some frame) (fun run => run frame e) m
  | next {α β : Type} {home : Option Nat} {f : Evaluator → Run α} {g : α → Evaluator → Run β}
      {m m' : Machine} {a : α} (hf : Trace G calls run home f m) (hx : f run m = .ok a m')
      (hg : Trace G calls run home (g a) m') :
      Trace G calls run home (fun run => f run >>= fun a => g a run) m
  | stop {α β : Type} {home : Option Nat} {f : Evaluator → Run α} {g : α → Evaluator → Run β}
      {m m' : Machine} {i : Interrupt} (hf : Trace G calls run home f m)
      (hx : f run m = .error i m') :
      Trace G calls run home (fun run => f run >>= fun a => g a run) m
  | within {α : Type} {home : Option Nat} {frame : Nat} {g : Nat → Evaluator → Run α} {m : Machine}
      (hg : Trace G calls run (some m.store.frames.size) (g m.store.frames.size)
        { m with store := (m.store.addFrame (some frame)).2 }) :
      Trace G calls run home
        (fun run => create (·.addFrame (some frame)) >>= fun scope => g scope run) m

theorem Plan.trace {run : Evaluator} (hrun : Keeps G E run run) {f : Evaluator → Run α}
    (h : Plan G calls s home f Q) (m : Machine) (hstore : G.store m.store)
    (hm : s.Grows m.store) : Trace G calls run home f m := by
  induction h generalizing m with
  | operate h =>
    apply Trace.operate
    apply h m hstore hm
  | call hcall => apply Trace.call hcall
  | @bind _ _ s home f g Q R hf hg ihf ihg =>
    have hfirst := ihf m hstore hm
    have hsettled := (hf.settled hrun m hstore hm).2
    cases hx : f run m with
    | ok a m' =>
      rw [hx] at hsettled
      obtain ⟨hstore', hgrows, hQ⟩ := hsettled
      apply hfirst.next hx
      apply ihg m'.store a (hm.trans hgrows) hQ m' hstore' (.refl _)
    | error i m' => apply hfirst.stop hx
  | @within _ s home frame g Q hframe hg ihg =>
    have hgrows := m.store.addFrame_grows (some frame)
    have hframe := Regime.Lawful.frame_grows hm hframe
    apply Trace.within
    apply ihg (m.store.addFrame (some frame)).2 m.store.frames.size (hm.trans hgrows)
      (Regime.Lawful.frame_of_lt (by simp [Store.addFrame]))
      { m with store := (m.store.addFrame (some frame)).2 }
      (Regime.Lawful.addFrame hstore hframe) (.refl _)

structure Escapes (G : Regime) (context : Option Context) (E : Interrupt → Prop) : Prop where
  breakLoop : ∀ s location, G.node s location .breakLoop → E (.breakLoop location)
  fault : ∀ s location form f, G.node s location form → G.fault f →
    E (.failure (Failure.locate context location { fault := f }))
  located : ∀ location f, E (.failure f) → E (.failure (f.locate context location))
  exhausted : E .exhausted

theorem catchBreak_settled {x : Run Value} {m : Machine}
    (h : Settled G s E G.value (x m)) : Settled G s E G.value (catchBreak x m) := by
  unfold catchBreak
  cases hx : x m with
  | ok v m' =>
    rw [hx] at h
    apply h
  | error i m' =>
    rw [hx] at h
    cases i with
    | breakLoop l => exact ⟨h.1, h.2.1, Regime.Lawful.value_of_within trivial⟩
    | failure f => apply h
    | exhausted => apply h

theorem perform_settled {run run' : Evaluator} (hrun : Keeps G E run run')
    {context : Option Context} (hE : Escapes G context E) {fuel frame : Nat}
    {location : Option Location} {form : Form Value} {m : Machine} (hstore : G.store m.store)
    (hframe : G.frame m.store frame) (he : G.expr m.store (.node location form)) :
    perform run' fuel frame location form m = perform run fuel frame location form m ∧
      Settled G m.store (fun i => G.interrupt i ∨ E i) G.value
        (perform run fuel frame location form m) := by
  have hready : Ready G anywhere m.store frame form.parts := ⟨hframe, fun _ _ => trivial, he.parts⟩
  cases form with
  | breakLoop =>
    constructor
    . rfl
    . exact ⟨hstore, .refl _, .inr (hE.breakLoop _ _ he.here)⟩
  | loop start condition advance body =>
    have hplan := course_plan fuel (by simp) he.here hready
    obtain ⟨hsame, hsettled⟩ := hplan.settled hrun m hstore (.refl _)
    rw [perform_loop, perform_loop]
    constructor
    . simp only [catchBreak, hsame]
    . apply catchBreak_settled hsettled
  | _ =>
    have hplan := course_plan fuel (by simp) he.here hready
    apply hplan.settled hrun m hstore (.refl _)

omit [G.Lawful] in
theorem located_settled {context : Option Context} (hE : Escapes G context E) {u : Store}
    {location : Option Location} {form : Form Value} (hnode : G.node u location form) {r : Run α}
    {m : Machine} (h : Settled G s (fun i => G.interrupt i ∨ E i) Q (r m)) :
    Settled G s E Q (located context location r m) := by
  unfold located
  cases hr : r m with
  | ok a m' =>
    rw [hr] at h
    apply h
  | error i m' =>
    rw [hr] at h
    obtain ⟨hstore, hgrows, hi⟩ := h
    cases i with
    | breakLoop l => exact ⟨hstore, hgrows, hi.resolve_left id⟩
    | exhausted => exact ⟨hstore, hgrows, hE.exhausted⟩
    | failure f =>
      refine ⟨hstore, hgrows, ?_⟩
      cases hi with
      | inl hown =>
        obtain ⟨fault, origin⟩ := f
        obtain ⟨rfl, hfault⟩ := hown
        apply hE.fault u location form fault hnode hfault
      | inr hescapes => apply hE.located location f hescapes

theorem eval_keeps {context : Option Context} (hE : Escapes G context E) (fuel : Nat) :
    Keeps G E (eval context fuel) (eval context fuel) := by
  -- The parts of a form, and the bodies of closures, are evaluated on less fuel.
  induction fuel with
  | zero =>
    intro frame e m hstore _ _
    constructor
    . rfl
    . cases e with
      | absent => exact ⟨hstore, .refl _, Regime.Lawful.value_of_within trivial⟩
      | node location form => exact ⟨hstore, .refl _, hE.exhausted⟩
  | succ fuel ih =>
    intro frame e m hstore hframe he
    constructor
    . rfl
    . cases e with
      | absent => exact ⟨hstore, .refl _, Regime.Lawful.value_of_within trivial⟩
      | node location form =>
        apply located_settled hE he.here
        apply (perform_settled ih hE hstore hframe he).2

end Run

namespace Run

def AgreeOff (run run' : Evaluator) (frame : Nat) (e : Expr Value) (m : Machine) : Prop :=
  ∀ frame₁ e₁ m₁, ¬(frame₁ = frame ∧ e₁ = e ∧ m₁ = m) → run' frame₁ e₁ m₁ = run frame₁ e₁ m₁

/--
When `f` is run from `m` with `run` as the evaluator, it comes to evaluate `e` in `frame` from `m'`: the
outcome depends on what that evaluation does.
-/
def Involves (f : Evaluator → Run Value) (run : Evaluator) (m : Machine) (frame : Nat)
    (e : Expr Value) (m' : Machine) : Prop :=
  ∃ run', AgreeOff run run' frame e m' ∧ f run' m ≠ f run m

end Run

/--
The evaluations that an evaluation consists of: itself, and those that its form comes to, of the parts
of the form and of the bodies of closures.
-/
inductive Occurs (context : Option Context) :
    (fuel frame : Nat) → Expr Value → Machine → (fuel frame : Nat) → Expr Value → Machine → Prop
  | here {fuel frame : Nat} {e : Expr Value} {m : Machine} :
      Occurs context fuel frame e m fuel frame e m
  | part {fuel frame frame' fuel'' frame'' : Nat} {location : Option Location} {form : Form Value}
      {e' e'' : Expr Value} {m m' m'' : Machine}
      (involves : Run.Involves (fun run => Run.course run fuel frame location form)
        (eval context fuel) m frame' e' m')
      (occurs : Occurs context fuel frame' e' m' fuel'' frame'' e'' m'') :
      Occurs context (fuel + 1) frame (.node location form) m fuel'' frame'' e'' m''

theorem Run.Involves.good {G : Regime} [G.Lawful] {E : Interrupt → Prop} {context : Option Context}
    (hE : Escapes G context E) {fuel frame frame' : Nat} {location : Option Location}
    {form : Form Value} {e' : Expr Value} {m m' : Machine}
    (h : Involves (fun run => course run fuel frame location form) (eval context fuel) m frame' e' m')
    (hstore : G.store m.store) (hframe : G.frame m.store frame)
    (he : G.expr m.store (.node location form)) :
    G.store m'.store ∧ G.frame m'.store frame' ∧ G.expr m'.store e' := by
  obtain ⟨run', hagree, hdiffers⟩ := h
  apply Classical.byContradiction
  intro hbad
  apply hdiffers
  -- If the evaluation were not a good one, evaluators that differ there would do the same.
  have hkeeps : Keeps G E (eval context fuel) run' := by
    intro frame₁ e₁ m₁ hstore₁ hframe₁ he₁
    constructor
    . apply hagree
      rintro ⟨rfl, rfl, rfl⟩
      apply hbad ⟨hstore₁, hframe₁, he₁⟩
    . apply (eval_keeps hE fuel frame₁ e₁ m₁ hstore₁ hframe₁ he₁).2
  by_cases hbreak : form = .breakLoop
  . subst hbreak
    rfl
  . have hplan := course_plan fuel hbreak he.here ⟨hframe, fun _ _ => trivial, he.parts⟩
    apply (hplan.settled hkeeps m hstore (.refl _)).1

theorem Occurs.settled {G : Regime} [G.Lawful] {E : Interrupt → Prop} {context : Option Context}
    (hE : Run.Escapes G context E) {fuel frame fuel' frame' : Nat} {e e' : Expr Value}
    {m m' : Machine} (h : Occurs context fuel frame e m fuel' frame' e' m')
    (hstore : G.store m.store) (hframe : G.frame m.store frame) (he : G.expr m.store e) :
    G.store m'.store ∧ G.frame m'.store frame' ∧ G.expr m'.store e' ∧
      Run.Settled G m'.store E G.value (eval context fuel' frame' e' m') := by
  induction h with
  | here => exact ⟨hstore, hframe, he, (Run.eval_keeps hE _ _ _ _ hstore hframe he).2⟩
  | part involves _ ih =>
    obtain ⟨hstore, hframe, he⟩ := involves.good hE hstore hframe he
    apply ih hstore hframe he

end LispScript
