import LispScript.Proofs.Sound

/-!
This module contains the proof that an evaluation that is interrupted unwinds: what interrupts a part of
a form interrupts the form, as it is and at once, all the way out. Only a loop takes care of something,
namely of a `break`. A failure is located where the operation stands that raised it.
-/

namespace LispScript

def Store.Located (s : Store) : Prop :=
  ∀ c ∈ s.closures, c.body.Located

def locatedRegime : Regime where
  store := Store.Located
  value := fun _ _ => True
  frame := fun _ _ => True
  node := fun _ location _ => location.isSome

theorem Store.Located.closure {s : Store} (hs : s.Located) (ref : Nat) :
    (s.closure ref).body.Located := by
  unfold Store.closure
  cases hc : s.closures[ref]? with
  | none => apply Expr.Every.absent
  | some c => apply hs c (Array.mem_of_getElem? hc)

theorem Store.Located.change {s t : Store} {home : Option Nat} (hs : s.Located)
    (h : s.Change locatedRegime home t) : t.Located := by
  cases h with
  | addClosure _ hbody => apply forall_push hs hbody
  | clone =>
    intro c hc
    cases (Value.clone_extends _ _).closures c hc with
    | inl hc => apply hs c hc
    | inr hc =>
      rw [hc]
      apply Expr.Every.absent
  | _ => apply hs

instance : locatedRegime.Lawful where
  value_grows := fun _ _ => trivial
  frame_grows := fun _ _ => trivial
  node_grows := fun _ h => h
  value_of_within := fun _ => trivial
  frame_of_lt := fun _ => trivial
  literal := fun _ => trivial
  lookup := fun _ _ => trivial
  element := fun _ _ => trivial
  field := fun _ _ => trivial
  closure := fun hs _ => ⟨trivial, hs.closure _⟩
  clone := fun _ _ => trivial
  change := Store.Located.change
  addFrame := fun hs _ => hs

def Interrupt.Genuine : Interrupt → Prop
  | .failure f => f.fault ≠ .strayBreak ∧ f.origin.isSome
  | _ => True

theorem genuine_of_fault {f : Fault} (h : locatedRegime.fault f) : f ≠ .strayBreak := by
  intro hf
  subst hf
  cases h with
  | inl h => contradiction
  | inr h =>
    obtain ⟨_, form, h⟩ := h
    contradiction

theorem Failure.locate_of_origin {f : Failure} (h : f.origin.isSome) (context : Option Context)
    (location : Option Location) : f.locate context location = f := by
  obtain ⟨origin, horigin⟩ := Option.isSome_iff_exists.1 h
  unfold locate
  rw [horigin]

theorem genuine_escapes (c : Context) :
    Run.Escapes locatedRegime (some c) Interrupt.Genuine where
  breakLoop := fun _ _ _ => trivial
  fault := by
    intro s location form f hnode hfault
    obtain ⟨l, rfl⟩ := Option.isSome_iff_exists.1 hnode
    refine ⟨?_, rfl⟩
    apply genuine_of_fault hfault
  located := by
    intro location f hf
    rw [Failure.locate_of_origin hf.2]
    apply hf
  exhausted := trivial

namespace Run

/--
From the first machine to the second one, with `run` as the evaluator, parts were evaluated and had
values, and the machine was changed in between. Nothing was undone.
-/
inductive Steps (run : Evaluator) (m : Machine) : Machine → Prop where
  | refl : Steps run m m
  | change {m₁ m₂ : Machine} {G : Regime} {home : Option Nat} (steps : Steps run m m₁)
      (hchange : m₁.Change G home m₂) : Steps run m m₂
  | scope {m₁ : Machine} {frame : Nat} (steps : Steps run m m₁) :
      Steps run m { m₁ with store := (m₁.store.addFrame (some frame)).2 }
  | part {m₁ m₂ : Machine} {frame : Nat} {e : Expr Value} {v : Value} (steps : Steps run m m₁)
      (hpart : run frame e m₁ = .ok v m₂) : Steps run m m₂

theorem Steps.trans {run : Evaluator} {m m₁ m₂ : Machine} (h : Steps run m m₁)
    (h' : Steps run m₁ m₂) : Steps run m m₂ := by
  induction h' with
  | refl => apply h
  | change _ hchange ih => apply ih.change hchange
  | scope _ ih => apply ih.scope
  | part _ hpart ih => apply ih.part hpart

variable {G : Regime} {α : Type} {calls : Nat → Expr Value → Prop} {home : Option Nat}
  {f : Evaluator → Run α} {run run' : Evaluator} {frame : Nat} {e : Expr Value}
  {m m' m₁ m₂ : Machine} {i : Interrupt}

theorem Operates.steps {Q : Store → α → Prop} {a : α} (h : Operates G home Q m (.ok a m')) :
    Steps run m m' := by
  obtain ⟨rfl | hchange, _⟩ := h
  . apply Steps.refl
  . apply Steps.refl.change hchange

theorem Trace.steps (h : Trace G calls run home f m) {a : α} (hok : f run m = .ok a m') :
    Steps run m m' := by
  induction h generalizing m' with
  | operate h =>
    dsimp only at hok
    rw [hok] at h
    apply h.steps
  | call => apply Steps.refl.part hok
  | next _ hx _ ihf ihg =>
    dsimp only at hok
    rw [bind_ok hx] at hok
    apply (ihf hx).trans
    apply ihg hok
  | stop _ hx _ =>
    dsimp only at hok
    rw [bind_error hx] at hok
    contradiction
  | within _ ihg =>
    apply Steps.refl.scope.trans
    apply ihg hok

theorem Trace.same_or_interrupted (h : Trace G calls run home f m)
    (hagree : AgreeOff run run' frame e m₁) (hpart : run frame e m₁ = .error i m₂) :
    f run' m = f run m ∨ f run m = .error i m₂ := by
  induction h with
  | operate h =>
    left
    rfl
  | @call frame' e' m hcall =>
    -- This is the only place where the two evaluators can part.
    by_cases hhere : frame' = frame ∧ e' = e ∧ m = m₁
    . obtain ⟨rfl, rfl, rfl⟩ := hhere
      right
      apply hpart
    . left
      apply hagree frame' e' m hhere
  | next _ hx _ ihf ihg =>
    dsimp only
    rw [bind_ok hx]
    cases ihf with
    | inl hsame =>
      rw [hx] at hsame
      rw [bind_ok hsame]
      apply ihg
    | inr hfails =>
      rw [hx] at hfails
      contradiction
  | stop _ hx ihf =>
    dsimp only
    rw [bind_error hx]
    cases ihf with
    | inl hsame =>
      rw [hx] at hsame
      left
      apply bind_error hsame
    | inr hfails =>
      rw [hx] at hfails
      right
      cases hfails
      rfl
  | within _ ihg => apply ihg

def Last (f : Evaluator → Run α) (run : Evaluator) (m : Machine) (frame : Nat) (e : Expr Value)
    (m₁ : Machine) : Prop :=
  ∀ run', AgreeOff run run' frame e m₁ → ∀ j m₂, run' frame e m₁ = .error j m₂ →
    f run' m = .error j m₂

theorem Trace.interrupted (h : Trace G calls run home f m) (hfails : f run m = .error i m') :
    (G.interrupt i ∧ Steps run m m') ∨
      ∃ frame e m₁, run frame e m₁ = .error i m' ∧ Last f run m frame e m₁ := by
  induction h generalizing m' with
  | operate h =>
    left
    dsimp only at hfails
    rw [hfails] at h
    obtain ⟨rfl, hi⟩ := h
    exact ⟨hi, .refl⟩
  | @call frame e m hcall =>
    right
    refine ⟨frame, e, m, hfails, ?_⟩
    intro run' _ j m₂ hj
    apply hj
  | @next _ _ _ f g m m'' a hf hx _ _ ihg =>
    dsimp only at hfails
    rw [bind_ok hx] at hfails
    cases ihg hfails with
    | inl hown =>
      left
      exact ⟨hown.1, (hf.steps hx).trans hown.2⟩
    | inr hpart =>
      obtain ⟨frame, e, m₁, hpart, hlast⟩ := hpart
      right
      refine ⟨frame, e, m₁, hpart, ?_⟩
      intro run' hagree j m₂ hj
      dsimp only
      -- What comes before has a value, so it did not come to the part that is interrupted.
      cases hf.same_or_interrupted hagree hpart with
      | inl hsame =>
        rw [hx] at hsame
        rw [bind_ok hsame]
        apply hlast run' hagree j m₂ hj
      | inr hcontra =>
        rw [hx] at hcontra
        contradiction
  | stop _ hx ihf =>
    dsimp only at hfails
    rw [bind_error hx] at hfails
    cases hfails
    cases ihf hx with
    | inl hown => apply Or.inl hown
    | inr hpart =>
      obtain ⟨frame, e, m₁, hpart, hlast⟩ := hpart
      right
      refine ⟨frame, e, m₁, hpart, ?_⟩
      intro run' hagree j m₂ hj
      apply bind_error
      apply hlast run' hagree j m₂ hj
  | within _ ihg =>
    cases ihg hfails with
    | inl hown =>
      left
      exact ⟨hown.1, Steps.refl.scope.trans hown.2⟩
    | inr hpart => apply Or.inr hpart

theorem exists_other (i : Interrupt) : ∃ j : Interrupt, j ≠ i := by
  cases i with
  | exhausted => exact ⟨.breakLoop none, by simp⟩
  | _ => exact ⟨.exhausted, by simp⟩

theorem Last.involves {f : Evaluator → Run Value} (h : Last f run m frame e m₁)
    (hfails : run frame e m₁ = .error i m') : Involves f run m frame e m₁ := by
  classical
  -- The evaluator that interrupts this part, and only this one, in some other way.
  obtain ⟨j, hj⟩ := exists_other i
  let other : Evaluator := fun frame' e' => fun m'' =>
    if frame' = frame ∧ e' = e ∧ m'' = m₁ then .error j m' else run frame' e' m''
  have hother : other frame e m₁ = .error j m' := by
    simp [other]
  have hagree : AgreeOff run other frame e m₁ := by
    intro frame' e' m'' hoff
    simp only [other, if_neg hoff]
  have hsame : AgreeOff run run frame e m₁ := by
    intro _ _ _ _
    rfl
  refine ⟨other, hagree, ?_⟩
  rw [h other hagree j m' hother, h run hsame i m' hfails]
  intro heq
  cases heq
  contradiction

theorem Trace.propagates {f : Evaluator → Run Value} (h : Trace G calls run home f m)
    (hinvolves : Involves f run m frame e m₁) (hpart : run frame e m₁ = .error i m₂) :
    f run m = .error i m₂ := by
  obtain ⟨run', hagree, hdiffers⟩ := hinvolves
  cases h.same_or_interrupted hagree hpart with
  | inl hsame => contradiction
  | inr hfails => apply hfails

theorem Trace.agree (h : Trace G calls run home f m)
    (hagree : ∀ frame e, calls frame e → run' frame e = run frame e) : f run' m = f run m := by
  induction h with
  | operate => rfl
  | call hcall =>
    dsimp only
    rw [hagree _ _ hcall]
  | next _ hx _ ihf ihg =>
    rw [hx] at ihf
    dsimp only
    rw [bind_ok hx, bind_ok ihf]
    apply ihg
  | stop _ hx ihf =>
    rw [hx] at ihf
    dsimp only
    rw [bind_error hx, bind_error ihf]
  | within _ ihg => apply ihg

end Run

/-! Forms. -/

def Form.isLoop : Form Value → Bool
  | .loop _ _ _ _ => true
  | _ => false

open Run

/--
Evaluating `e` in `frame` from `m` raises the interrupt `i`, and `m'` is the machine at that moment. A
failure is raised by the operation of a form whose parts all had values, and gets the location of that
form. Enclosing forms pass on what a part raises, except that a loop does not pass on a `break`.
-/
inductive Raised (c : Context) :
    (fuel frame : Nat) → Expr Value → Machine → Interrupt → Machine → Prop where
  | stop {fuel frame : Nat} {location : Option Location} {m : Machine} :
      Raised c (fuel + 1) frame (.node location .breakLoop) m (.breakLoop location) m
  | own {fuel frame : Nat} {l : Location} {form : Form Value} {m m' : Machine} {fault : Fault}
      (steps : Steps (eval (some c) fuel) m m')
      (parts : ∀ frame' e' m₁, Involves (fun run => course run fuel frame (some l) form)
        (eval (some c) fuel) m frame' e' m₁ → ∃ v m₂, eval (some c) fuel frame' e' m₁ = .ok v m₂)
      (fails : course (eval (some c) fuel) fuel frame (some l) form m
        = .error (.failure { fault }) m') :
      Raised c (fuel + 1) frame (.node (some l) form) m
        (.failure { fault, origin := some { location := some l, source := c.sourceFor l } }) m'
  | part {fuel frame frame' : Nat} {location : Option Location} {form : Form Value}
      {e' : Expr Value} {m m' m₁ : Machine} {i : Interrupt}
      (involves : Involves (fun run => course run fuel frame location form) (eval (some c) fuel) m
        frame' e' m₁)
      (raised : Raised c fuel frame' e' m₁ i m')
      (passes : form.isLoop → ∀ l, i ≠ .breakLoop l) :
      Raised c (fuel + 1) frame (.node location form) m i m'

def Form.passOn (form : Form Value) (i : Interrupt) (m : Machine) :
    EStateM.Result Interrupt Machine Value :=
  match form.isLoop, i with
  | true, .breakLoop _ => .ok .null m
  | _, i => .error i m

structure Unwinding (c : Context) (fuel frame : Nat) (e : Expr Value) (m : Machine) : Prop where
  -- Whatever interrupts the evaluation was raised somewhere, and the machine is as it was then.
  raised : ∀ i m', eval (some c) fuel frame e m = .error i m' →
    i = .exhausted ∨ Raised c fuel frame e m i m'
  raises : ∀ i m', Raised c fuel frame e m i m' → eval (some c) fuel frame e m = .error i m'
  -- A failure is no `break` in disguise.
  genuine : ∀ f m', eval (some c) fuel frame e m = .error (.failure f) m' → f.fault ≠ .strayBreak
  -- No part is interrupted without an effect on the whole.
  passed : ∀ fuel' location form, fuel = fuel' + 1 → e = .node location form →
    ∀ frame' e' m₁ i m₂, Involves (fun run => course run fuel' frame location form)
      (eval (some c) fuel') m frame' e' m₁ →
    eval (some c) fuel' frame' e' m₁ = .error i m₂ →
    eval (some c) fuel frame e m = form.passOn i m₂
  -- A loop has the value of its course, or one of its own parts was left with a `break`.
  loop : ∀ fuel' location start condition advance body, fuel = fuel' + 1 →
    e = .node location (.loop start condition advance body) →
    ∀ v m', eval (some c) fuel frame e m = .ok v m' →
      course (eval (some c) fuel') fuel' frame location (.loop start condition advance body) m
        = .ok v m' ∨
      v = .null ∧ ∃ scope l m₁, ∃ part ∈ [start, condition, advance, body],
        Involves (fun run => course run fuel' frame location
          (.loop start condition advance body)) (eval (some c) fuel') m scope part m₁ ∧
        Raised c fuel' scope part m₁ (.breakLoop l) m'
  unbroken : ∀ location start condition advance body l m',
    e = .node location (.loop start condition advance body) →
    eval (some c) fuel frame e m ≠ .error (.breakLoop l) m'

namespace Run

variable {c : Context} {fuel frame frame' : Nat} {location : Option Location} {form : Form Value}
  {e e' : Expr Value} {m m' m₁ m₂ : Machine} {i : Interrupt}

theorem perform_course (run : Evaluator) (fuel frame : Nat) (location : Option Location)
    (form : Form Value) :
    perform run fuel frame location form
      = if form.isLoop then catchBreak (course run fuel frame location form)
        else course run fuel frame location form := by
  cases form <;> rfl

theorem course_trace (hm : m.store.Located) (he : (Expr.node location form).Located)
    (hbreak : form ≠ .breakLoop) :
    Trace locatedRegime anywhere (eval (some c) fuel) (form.home frame)
      (fun run => course run fuel frame location form) m := by
  have hready : Ready locatedRegime anywhere m.store frame form.parts :=
    ⟨trivial, fun _ _ => trivial, he.parts⟩
  have hplan := course_plan fuel hbreak he.here hready
  apply hplan.trace (eval_keeps (genuine_escapes c) fuel) m hm (.refl _)

theorem course_interrupted (hm : m.store.Located) (he : (Expr.node location form).Located)
    (hinvolves : Involves (fun run => course run fuel frame location form) (eval (some c) fuel) m
      frame' e' m₁)
    (hpart : eval (some c) fuel frame' e' m₁ = .error i m₂) :
    course (eval (some c) fuel) fuel frame location form m = .error i m₂ := by
  by_cases hbreak : form = .breakLoop
  . subst hbreak
    obtain ⟨run', _, hdiffers⟩ := hinvolves
    contradiction
  . apply (course_trace hm he hbreak).propagates hinvolves hpart

theorem eval_genuine (hm : m.store.Located) (he : e.Located)
    (h : eval (some c) fuel frame e m = .error i m') : i.Genuine := by
  have := (eval_keeps (genuine_escapes c) fuel frame e m hm trivial he).2
  rw [h] at this
  apply this.2.2

end Run

def Interrupt.locate (c : Context) (location : Option Location) : Interrupt → Interrupt
  | .failure f => .failure (f.locate (some c) location)
  | i => i

theorem Interrupt.Genuine.locate {i : Interrupt} (h : i.Genuine) (c : Context)
    (location : Option Location) : i.locate c location = i := by
  cases i with
  | failure f =>
    show Interrupt.failure (f.locate (some c) location) = _
    rw [Failure.locate_of_origin h.2]
  | _ => rfl

variable {c : Context} {fuel frame frame' : Nat} {location : Option Location} {form : Form Value}
  {e e' : Expr Value} {m m' m₁ m₂ : Machine} {i : Interrupt} {v : Value}

theorem eval_of_course_ok
    (h : course (eval (some c) fuel) fuel frame location form m = .ok v m') :
    eval (some c) (fuel + 1) frame (.node location form) m = .ok v m' := by
  rw [eval, perform_course]
  cases form.isLoop with
  | true => simp [located, catchBreak, h]
  | false => simp [located, h]

theorem eval_of_course_error
    (h : course (eval (some c) fuel) fuel frame location form m = .error i m') :
    eval (some c) (fuel + 1) frame (.node location form) m
      = form.passOn (i.locate c location) m' := by
  rw [eval, perform_course]
  unfold Form.passOn
  cases form.isLoop with
  | true => cases i <;> simp [located, catchBreak, h, Interrupt.locate]
  | false => cases i <;> simp [located, h, Interrupt.locate]

theorem passOn_error {j : Interrupt} (h : form.passOn i m = .error j m') :
    j = i ∧ m' = m ∧ (form.isLoop → ∀ l, i ≠ .breakLoop l) := by
  unfold Form.passOn at h
  split at h
  . contradiction
  . next hi =>
    cases h
    refine ⟨rfl, rfl, ?_⟩
    intro hloop l hl
    apply hi l hloop hl

theorem passOn_ok (h : form.passOn i m = .ok v m') : v = .null ∧ m' = m ∧ ∃ l, i = .breakLoop l := by
  unfold Form.passOn at h
  split at h
  . next l _ =>
    cases h
    exact ⟨rfl, rfl, l, rfl⟩
  . contradiction

theorem passOn_of_passes (h : form.isLoop → ∀ l, i ≠ .breakLoop l) :
    form.passOn i m = .error i m := by
  unfold Form.passOn
  split
  . next l hloop => apply absurd rfl (h hloop l)
  . rfl

theorem part_located (hm : m.store.Located) (he : (Expr.node location form).Located)
    (hinvolves : Involves (fun run => course run fuel frame location form) (eval (some c) fuel) m
      frame' e' m₁) : m₁.store.Located ∧ e'.Located := by
  obtain ⟨hstore, _, hpart⟩ := hinvolves.good (genuine_escapes c) hm trivial he
  exact ⟨hstore, hpart⟩

theorem own_parts {fault : Fault} (hm : m.store.Located) (he : (Expr.node location form).Located)
    (hfails : course (eval (some c) fuel) fuel frame location form m
      = .error (.failure { fault }) m')
    (hinvolves : Involves (fun run => course run fuel frame location form) (eval (some c) fuel) m
      frame' e' m₁) : ∃ v m₂, eval (some c) fuel frame' e' m₁ = .ok v m₂ := by
  cases hpart : eval (some c) fuel frame' e' m₁ with
  | ok v m₂ => exact ⟨v, m₂, rfl⟩
  | error i m₂ =>
    -- A failure of a part is located already, so it is not this one.
    obtain ⟨hm₁, he'⟩ := part_located hm he hinvolves
    have hgenuine := eval_genuine hm₁ he' hpart
    have hcourse := course_interrupted hm he hinvolves hpart
    rw [hfails] at hcourse
    cases hcourse
    have := hgenuine.2
    contradiction

theorem eval_raised (hm : m.store.Located) (he : e.Located)
    (h : eval (some c) fuel frame e m = .error i m') :
    i = .exhausted ∨ Raised c fuel frame e m i m' := by
  induction fuel generalizing frame e m i m' with
  | zero =>
    cases e with
    | absent => contradiction
    | node location form =>
      left
      cases h
      rfl
  | succ fuel ih =>
    cases e with
    | absent => contradiction
    | node location form =>
      by_cases hbreak : form = .breakLoop
      . subst hbreak
        right
        cases h
        apply Raised.stop
      . cases hcourse : course (eval (some c) fuel) fuel frame location form m with
        | ok v m'' =>
          rw [eval_of_course_ok hcourse] at h
          contradiction
        | error j m'' =>
          rw [eval_of_course_error hcourse] at h
          cases (course_trace hm he hbreak).interrupted hcourse with
          | inl hown =>
            obtain ⟨hinterrupt, hsteps⟩ := hown
            cases j with
            | breakLoop l => contradiction
            | exhausted => exact .inl (passOn_error h).1
            | failure f =>
              right
              obtain ⟨l, hl⟩ := Option.isSome_iff_exists.1 he.here
              subst hl
              obtain ⟨fault, origin⟩ := f
              obtain ⟨rfl, _⟩ := hinterrupt
              obtain ⟨rfl, rfl, _⟩ := passOn_error h
              apply Raised.own hsteps _ hcourse
              intro frame' e' m₁ hinvolves
              apply own_parts hm he hcourse hinvolves
          | inr hpart =>
            obtain ⟨frame', e', m₁, hpart, hlast⟩ := hpart
            have hinvolves := hlast.involves hpart
            obtain ⟨hm₁, he'⟩ := part_located hm he hinvolves
            rw [(eval_genuine hm₁ he' hpart).locate] at h
            obtain ⟨rfl, rfl, hpasses⟩ := passOn_error h
            cases ih hm₁ he' hpart with
            | inl hexhausted => apply Or.inl hexhausted
            | inr hraised =>
              right
              apply Raised.part hinvolves hraised hpasses

theorem eval_of_raised (h : Raised c fuel frame e m i m') (hm : m.store.Located)
    (he : e.Located) : eval (some c) fuel frame e m = .error i m' := by
  induction h with
  | stop => rfl
  | own _ _ fails =>
    rw [eval_of_course_error fails]
    apply passOn_of_passes
    intro _ l
    simp [Interrupt.locate]
  | part involves raised passes ih =>
    obtain ⟨hm₁, he'⟩ := part_located hm he involves
    have hpart := ih hm₁ he'
    rw [eval_of_course_error (course_interrupted hm he involves hpart)]
    rw [(eval_genuine hm₁ he' hpart).locate]
    apply passOn_of_passes passes

theorem loop_part {start condition advance body : Expr Value} (hm : m.store.Located)
    (he : (Expr.node location (.loop start condition advance body)).Located)
    (hinvolves : Involves (fun run => course run fuel frame location
      (.loop start condition advance body)) (eval (some c) fuel) m frame' e' m₁) :
    e' ∈ [start, condition, advance, body] := by
  apply Classical.byContradiction
  intro hother
  obtain ⟨run', hagree, hdiffers⟩ := hinvolves
  apply hdiffers
  have hplan : Plan locatedRegime (fun _ e => e ∈ [start, condition, advance, body]) m.store none
      (fun run => course run fuel frame location (.loop start condition advance body))
      locatedRegime.value := by
    have hframe : locatedRegime.frame m.store frame := trivial
    apply Plan.within hframe
    intro t scope _ _
    apply loop_plan
    exact ⟨trivial, fun _ he => he, he.parts⟩
  apply (hplan.trace (eval_keeps (genuine_escapes c) fuel) m hm (.refl _)).agree
  intro frame₁ e₁ he₁
  funext m₂
  apply hagree
  rintro ⟨_, rfl, _⟩
  contradiction

theorem eval_loop {start condition advance body : Expr Value} (hm : m.store.Located)
    (he : (Expr.node location (.loop start condition advance body)).Located)
    (h : eval (some c) (fuel + 1) frame (.node location (.loop start condition advance body)) m
      = .ok v m') :
    course (eval (some c) fuel) fuel frame location (.loop start condition advance body) m
        = .ok v m' ∨
      v = .null ∧ ∃ scope l m₁, ∃ part ∈ [start, condition, advance, body],
        Involves (fun run => course run fuel frame location
          (.loop start condition advance body)) (eval (some c) fuel) m scope part m₁ ∧
        Raised c fuel scope part m₁ (.breakLoop l) m' := by
  cases hcourse : course (eval (some c) fuel) fuel frame location
      (.loop start condition advance body) m with
  | ok w m'' =>
    left
    rw [eval_of_course_ok hcourse] at h
    cases h
    rfl
  | error j m'' =>
    right
    rw [eval_of_course_error hcourse] at h
    obtain ⟨rfl, rfl, l, hl⟩ := passOn_ok h
    refine ⟨rfl, ?_⟩
    have hj : j = .breakLoop l := by
      cases j <;> simp_all [Interrupt.locate]
    subst hj
    cases (course_trace hm he (by simp)).interrupted hcourse with
    | inl hown => apply absurd hown.1 id
    | inr hpart =>
      obtain ⟨scope, part, m₁, hpart, hlast⟩ := hpart
      have hinvolves := hlast.involves hpart
      obtain ⟨hm₁, he'⟩ := part_located hm he hinvolves
      refine ⟨scope, l, m₁, part, loop_part hm he hinvolves, hinvolves, ?_⟩
      cases eval_raised hm₁ he' hpart with
      | inl hexhausted => contradiction
      | inr hraised => apply hraised

theorem eval_unwinding (c : Context) (fuel frame : Nat) {e : Expr Value} {m : Machine}
    (he : e.Located) (hm : m.store.Located) : Unwinding c fuel frame e m where
  raised := by
    intro i m' h
    apply eval_raised hm he h
  raises := by
    intro i m' h
    apply eval_of_raised h hm he
  genuine := by
    intro f m' h
    apply (eval_genuine hm he h).1
  passed := by
    intro fuel' location form hfuel hnode frame' e' m₁ i m₂ hinvolves hpart
    subst hfuel hnode
    obtain ⟨hm₁, he'⟩ := part_located hm he hinvolves
    rw [eval_of_course_error (course_interrupted hm he hinvolves hpart)]
    rw [(eval_genuine hm₁ he' hpart).locate]
  loop := by
    intro fuel' location start condition advance body hfuel hnode v m' h
    subst hfuel hnode
    apply eval_loop hm he h
  unbroken := by
    intro location start condition advance body l m' hnode h
    subst hnode
    cases eval_raised hm he h with
    | inl hexhausted => contradiction
    | inr hraised =>
      cases hraised with
      | part _ _ passes => apply passes rfl l rfl

theorem eval_unwinding_loop :
    let l : Location := { file := "loop", line := 1, column := 1, length := 4 }
    let e : Expr Value := .node (some l) (.loop .absent (.node (some l) (.literal (.boolean true)))
      .absent (.node (some l) .breakLoop))
    e.Located ∧ Store.Located {} ∧ Unwinding { file := "loop", source := [] } 3 0 e {} := by
  intro l e
  have he : e.Located := by
    apply Expr.Every.node rfl
    simp only [Form.parts, List.forall_mem_cons]
    refine ⟨.absent, .node rfl ?_, .absent, .node rfl ?_, ?_⟩
    all_goals simp [Form.parts]
  have hm : Store.Located {} := by
    intro c hc
    simp at hc
  exact ⟨he, hm, eval_unwinding _ 3 0 he hm⟩

end LispScript
