import LispScript.Proofs.Wellformed

/-!
This module contains the proof that an evaluation of source text finds something malformed only where it
reads input. The trees are well formed, and so are the bodies of the closures that are made from them;
what is left is the form `read`, whose line need not be a literal.
-/

namespace LispScript

/--
The regime of a property of nodes: it holds of every node of the trees in use, and of those of the bodies
of closures.
-/
def treeRegime (N : Option Location → Form Value → Prop) : Regime where
  store := fun s => ∀ c ∈ s.closures, c.body.Every N
  value := fun _ _ => True
  frame := fun _ _ => True
  node := fun _ => N

variable {N : Option Location → Form Value → Prop}

theorem treeRegime_closure {s : Store} (hs : (treeRegime N).store s) (ref : Nat) :
    (s.closure ref).body.Every N := by
  unfold Store.closure
  cases hc : s.closures[ref]? with
  | none => exact .absent
  | some c => exact hs c (Array.mem_of_getElem? hc)

theorem treeRegime_change {s t : Store} {home : Option Nat} (hs : (treeRegime N).store s)
    (h : s.Change (treeRegime N) home t) : (treeRegime N).store t := by
  cases h with
  | addClosure _ hbody => exact Store.forall_push hs hbody
  | clone =>
    intro c hc
    cases (Value.clone_extends _ _).closures c hc with
    | inl hc => exact hs c hc
    | inr hc =>
      rw [hc]
      exact .absent
  | _ => exact hs

instance : (treeRegime N).Lawful where
  value_grows := fun _ _ => trivial
  frame_grows := fun _ _ => trivial
  node_grows := fun _ h => h
  value_of_within := fun _ => trivial
  frame_of_lt := fun _ => trivial
  literal := fun _ => trivial
  lookup := fun _ _ => trivial
  element := fun _ _ => trivial
  field := fun _ _ => trivial
  closure := fun hs _ => ⟨trivial, treeRegime_closure hs _⟩
  clone := fun _ _ => trivial
  change := treeRegime_change
  addFrame := fun hs _ => hs

/--
What evaluations need of a node: it has a location, and an operator that exists if it has one.
-/
structure Usable (location : Option Location) (form : Form Value) : Prop where
  located : location.isSome
  operator : form.OperatorExists

theorem Form.Complete.operatorExists {form : Form Value} (h : form.Complete) :
    form.OperatorExists := by
  cases form with
  | arith op left right => exact h.1
  | compare op left right => exact h.1
  | logic op left right => exact h.1
  | _ => trivial

theorem Expr.FormedWith.usable {P : Location → Prop} {e : Expr Value} (h : e.FormedWith P) :
    e.Every Usable := by
  apply Every.mono h
  rintro location form ⟨⟨l, rfl, _⟩, hform⟩
  exact ⟨rfl, hform.complete.operatorExists⟩

theorem Store.usable_located {s : Store} (h : (treeRegime Usable).store s) : s.Located :=
  fun c hc => (h c hc).mono fun _ _ hnode => hnode.located

/-! Evaluation. -/

section Raised

open Run

variable {c : Context} {fuel frame : Nat} {e : Expr Value} {m m' : Machine} {i : Interrupt}

/--
The evaluation comes to evaluate the form `read`, and that fails in this way.
-/
def FailsByReading (c : Context) (fuel frame : Nat) (e : Expr Value) (m : Machine) (f : Failure)
    (m' : Machine) : Prop :=
  ∃ fuel' frame' l m₁, Occurs (some c) fuel frame e m fuel' frame' (.node (some l) .read) m₁ ∧
    eval (some c) fuel' frame' (.node (some l) .read) m₁ = .error (.failure f) m'

theorem Raised.failsByReading (h : Raised c fuel frame e m i m') {f : Failure} (hi : i = .failure f)
    (hsort : f.fault.sort = .malformed) (hm : (treeRegime Usable).store m.store)
    (he : e.Every Usable) : FailsByReading c fuel frame e m f m' := by
  induction h with
  | stop => contradiction
  | @own fuel frame l form m m' fault steps parts fails =>
    cases hi
    by_cases hread : form = .read
    . subst hread
      have heval := eval_of_raised (.own steps parts fails) (Store.usable_located hm)
        (he.mono fun _ _ hnode => hnode.located)
      exact ⟨fuel + 1, frame, l, m, .here, heval⟩
    . -- All parts had values, so none of them is to blame.
      have hown : ({ fault } : Failure).fault.sort = .malformed := hsort
      obtain ⟨frame', e', m₁, hpart, hlast⟩ :=
        (course_ordinary hread fuel (some l)).blames he.here.operator hown fails
      obtain ⟨v, m₂, hvalue⟩ := parts frame' e' m₁ (hlast.involves hpart)
      rw [hvalue] at hpart
      contradiction
  | part involves _ _ ih =>
    obtain ⟨hm₁, _, he'⟩ := involves.good (any_escapes (some c)) hm trivial he
    obtain ⟨fuel', frame', l, m₂, hoccurs, heval⟩ := ih hi hm₁ he'
    exact ⟨fuel', frame', l, m₂, .part involves hoccurs, heval⟩

end Raised

theorem Machine.evaluate_failsByReading {m m' : Machine} {c : Context} {root : Nat} {e : Expr Value}
    {f : Failure} (hm : (treeRegime Usable).store m.store) (he : e.Every Usable)
    (h : m.evaluate c root e = (.error f, m')) (hsort : f.fault.sort = .malformed) :
    FailsByReading c unbounded root e m f m' := by
  unfold evaluate run Run.refuseBreak at h
  cases hr : eval c unbounded root e m with
  | ok v m'' =>
    rw [hr] at h
    cases h
  | error i m'' =>
    rw [hr] at h
    cases i with
    | breakLoop location =>
      cases h
      contradiction
    | exhausted =>
      cases h
      contradiction
    | failure g =>
      cases h
      have hraised := eval_raised (Store.usable_located hm)
        (he.mono fun _ _ hnode => hnode.located) hr
      exact (hraised.resolve_left nofun).failsByReading rfl hsort hm he

/-! Source texts. -/

theorem Machine.evaluate_usable {m : Machine} (hm : (treeRegime Usable).store m.store) (c : Context)
    (root : Nat) {e : Expr Value} (he : e.Every Usable) :
    (treeRegime Usable).store (m.evaluate c root e).2.store := by
  have h := (Run.eval_keeps (Run.any_escapes (some c)) unbounded root e m hm trivial he).2
  unfold evaluate run Run.refuseBreak
  cases hr : eval c unbounded root e m with
  | ok v m' =>
    rw [hr] at h
    exact h.1
  | error i m' =>
    rw [hr] at h
    cases i <;> exact h.1

namespace Job

variable {files : Files} {root : Nat}

theorem evalForms_go_usable (c : Context) {forms : List (Expr Value)} (last : Value) {w : Workspace}
    (hw : (treeRegime Usable).store w.machine.store) (hforms : ∀ e ∈ forms, e.Every Usable) :
    (treeRegime Usable).store
      ((evalForms.go c root last forms).result files w).2.machine.store := by
  induction forms generalizing last w with
  | nil => exact hw
  | cons e rest ih =>
    obtain ⟨he, hrest⟩ := List.forall_mem_cons.1 hforms
    have hfirst := Machine.evaluate_usable hw c root he
    cases hr : (w.machine.evaluate c root e).1 with
    | error f =>
      rw [evalForms_go_error hr]
      exact hfirst
    | ok v =>
      obtain ⟨w', hw', hresult⟩ := evalForms_go_ok hr
      rw [← hw'] at hfirst
      rw [hresult]
      exact ih v hfirst hrest

theorem loaded_usable {file : String} {source : List Char} {forms : List (Expr Literal)}
    (h : Expr.parse file source = .ok forms) {w : Workspace}
    (hw : (treeRegime Usable).store w.machine.store) :
    (treeRegime Usable).store (loaded w forms).machine.store ∧
      ∀ e ∈ (Expr.loadAll forms w.machine.store).1, e.Every Usable := by
  constructor
  . show (treeRegime Usable).store (Expr.loadAll forms w.machine.store).2
    rw [Expr.loadAll_store]
    exact hw
  . apply Expr.loadAll_forall
    intro e he s
    exact ((Expr.parse_solid h e he).formed.load s).usable

theorem evalSource_usable (file : String) (source : Text) {w : Workspace}
    (hw : (treeRegime Usable).store w.machine.store) :
    (treeRegime Usable).store
      ((evalSource root file source).result files w).2.machine.store := by
  cases hparse : Expr.parse file source.chars with
  | error e =>
    rw [evalSource_error hparse]
    exact hw
  | ok forms =>
    obtain ⟨hloaded, hforms⟩ := loaded_usable hparse hw
    rw [evalSource_ok hparse]
    exact evalForms_go_usable _ _ hloaded hforms

theorem Evaluates.usable {texts : List (String × Text)} {w : Workspace} {c : Context}
    {e : Expr Value} {m : Machine} (h : Evaluates files root texts w c e m)
    (hw : (treeRegime Usable).store w.machine.store) :
    (treeRegime Usable).store m.store ∧ e.Every Usable := by
  induction h with
  | @first file source rest w forms before after e v hparse hload hbefore =>
    obtain ⟨hloaded, hforms⟩ := loaded_usable hparse hw
    rw [hload] at hforms
    refine ⟨evalForms_go_usable _ _ hloaded ?_, hforms e (by simp)⟩
    intro e' he'
    exact hforms e' (List.mem_append_left _ he')
  | later h ih => exact ih (evalSource_usable _ _ hw)

end Job

/--
The trees that a source text is read as are there, and their nodes are well formed. They stay so when they
are loaded, and then each literal is a constant.
-/
structure WellFormed (file : String) (source : List Char) (forms : List (Expr Literal)) : Prop where
  present : ∀ e ∈ forms, ¬ e.isAbsent
  formed : ∀ e ∈ forms, e.Formed (BeginsDatum file source)
  loaded : ∀ s, ∀ e ∈ (Expr.loadAll forms s).1, e.FormedWith (BeginsDatum file source)

/--
Every source text that can be read gives trees that are well formed. When source texts are evaluated in turn
on one root frame, a form that fails as malformed fails so by reading.
-/
theorem parse_wellFormed (files : Files) (w : Workspace)
    (texts : List (String × Text)) :
    let fresh : Workspace := { w with machine := { w.machine with store := {} } }
    let start := Job.newRoot.result files fresh
    (∀ file source forms, Expr.parse file source = .ok forms → WellFormed file source forms) ∧
      ∀ c e m, Job.Evaluates files start.1 texts start.2 c e m →
        ∀ f, (m.evaluate c start.1 e).1 = .error f → f.fault.sort = .malformed →
          FailsByReading c unbounded start.1 e m f (m.evaluate c start.1 e).2 := by
  intro fresh start
  constructor
  . intro file source forms hparse
    have hsolid := Expr.parse_solid hparse
    refine ⟨fun e he => (hsolid e he).present, fun e he => (hsolid e he).formed, ?_⟩
    intro s
    apply Expr.loadAll_forall
    intro e he s
    exact (hsolid e he).formed.load s
  . intro c e m hevaluates f hf hsort
    have hstart : (treeRegime Usable).store start.2.machine.store := nofun
    obtain ⟨hm, he⟩ := hevaluates.usable hstart
    exact Machine.evaluate_failsByReading hm he (Prod.ext hf rfl) hsort

/--
The sort of the failure of an evaluation.
-/
def sortOf : Except Failure Value → Option FaultSort
  | .ok _ => none
  | .error f => some f.fault.sort

/--
The sum of a line of input and one, when the line is an opening parenthesis.
-/
theorem parse_wellFormed_read :
    let source : Text := .ofChars
      ['(', '+', ' ', '(', 'r', 'e', 'a', 'd', ')', ' ', '1', ')']
    let w : Workspace := { machine := { input := [.ofChars ['(']] } }
    let start := Job.newRoot.result Files.none w
    ∃ forms e, Expr.parse "a" source.chars = .ok forms ∧ WellFormed "a" source.chars forms ∧
      (Expr.loadAll forms start.2.machine.store).1 = [e] ∧
      ∃ f, (start.2.machine.evaluate (some { file := "a", source }) start.1 e).1 = .error f ∧
        f.fault.sort = .malformed ∧
        FailsByReading { file := "a", source } unbounded start.1 e start.2.machine f
          (start.2.machine.evaluate (some { file := "a", source }) start.1 e).2 := by
  intro source w start
  let place (column length : Int) : Option Location := some { file := "a", line := 1, column, length }
  let forms : List (Expr Literal) :=
    [.node (place 1 12) (.arith .add (.node (place 4 6) .read) (.node (place 11 1) (.literal (.integer 1))))]
  let e : Expr Value :=
    .node (place 1 12) (.arith .add (.node (place 4 6) .read) (.node (place 11 1) (.literal (.integer 1))))
  obtain ⟨hformed, hfails⟩ := parse_wellFormed Files.none w [("a", source)]
  have hparse : Expr.parse "a" source.chars = .ok forms := rfl
  have hevaluates : Job.Evaluates Files.none start.1 [("a", source)] start.2
      { file := "a", source } e start.2.machine :=
    .first hparse (show _ = [] ++ e :: [] from rfl) rfl
  have hsort : sortOf (start.2.machine.evaluate (some { file := "a", source }) start.1 e).1
      = some .malformed := by
    decide +kernel
  refine ⟨forms, e, hparse, hformed _ _ _ hparse, rfl, ?_⟩
  cases hr : (start.2.machine.evaluate (some { file := "a", source }) start.1 e).1 with
  | ok v =>
    rw [hr] at hsort
    contradiction
  | error f =>
    rw [hr] at hsort
    have hsort : f.fault.sort = .malformed := Option.some.inj hsort
    exact ⟨f, rfl, hsort, hfails _ _ _ hevaluates f hr hsort⟩

end LispScript
