import LispScript.Workspace
import LispScript.Proofs.Guard
import LispScript.Proofs.Loading

/-!
This module contains the proof that source texts are evaluated in good order, one after the other and
whatever each of them holds: failures are of the sorts that callers can tell apart and have a location,
and no value is ever absent.
-/

namespace LispScript

/--
The failure is of a sort that callers can tell apart and says where in which text it arose.
-/
def Failure.Told (f : Failure) : Prop :=
  (f.fault = .strayBreak ∨ f.fault.sort.isRaised) ∧
    ∃ l source, f.origin = some { location := some l, source }

def Interrupt.Told : Interrupt → Prop
  | .breakLoop location => location.isSome
  | .failure f => f.Told
  | .exhausted => True

/--
The outcome of a text is a value that is there, or a failure that is told. An evaluation that does not
end, or nests too deeply, is beyond this.
-/
def Told (s : Store) : Except Failure Value → Prop
  | .ok v => v.Within s
  | .error f => f.fault = .exhausted ∨ f.Told

theorem Told.grows {s t : Store} {r : Except Failure Value} (hst : s.Grows t) (h : Told s r) :
    Told t r := by
  cases r with
  | ok v => apply Value.Within.grows hst h
  | error f => apply h

theorem told_escapes (context : Context) :
    Run.Escapes soundRegime (some context) Interrupt.Told where
  breakLoop := by
    intro s location hnode
    apply hnode.located
  fault := by
    intro s location form f hnode hfault
    obtain ⟨l, rfl⟩ := Option.isSome_iff_exists.1 hnode.located
    -- No value is absent in this regime, so a form never comes to yield none.
    have hraised : f.sort.isRaised := by
      cases hfault with
      | inl hraised => apply hraised
      | inr habsent =>
        obtain ⟨⟨s, hs⟩, _⟩ := habsent
        contradiction
    exact ⟨.inr hraised, l, _, rfl⟩
  located := by
    intro location f hf
    obtain ⟨hsort, l, source, horigin⟩ := hf
    have hlocate : f.locate context location = f := by
      unfold Failure.locate
      rw [horigin]
    rw [hlocate]
    exact ⟨hsort, l, source, horigin⟩
  exhausted := trivial

structure Machine.Fit (root : Nat) (m : Machine) : Prop where
  store : m.store.Sound
  root : root < m.store.frames.size

theorem Machine.evaluate_told {m : Machine} {root : Nat} (hm : m.Fit root) (context : Context)
    {e : Expr Value} (he : e.Every m.store.SoundNode) :
    (m.evaluate context root e).2.Fit root ∧
      m.store.Grows (m.evaluate context root e).2.store ∧
      Told (m.evaluate context root e).2.store (m.evaluate context root e).1 := by
  have h := (Run.eval_keeps (told_escapes context) unbounded root e m hm.store hm.root he).2
  unfold evaluate run Run.refuseBreak
  cases hr : eval context unbounded root e m with
  | ok v m' =>
    rw [hr] at h
    obtain ⟨hstore, hgrows, hv⟩ := h
    exact ⟨⟨hstore, Nat.lt_of_lt_of_le hm.root hgrows.frames⟩, hgrows, hv⟩
  | error i m' =>
    rw [hr] at h
    obtain ⟨hstore, hgrows, hi⟩ := h
    have hfit : m'.Fit root := ⟨hstore, Nat.lt_of_lt_of_le hm.root hgrows.frames⟩
    cases i with
    | breakLoop location =>
      obtain ⟨l, rfl⟩ := Option.isSome_iff_exists.1 hi
      exact ⟨hfit, hgrows, .inr ⟨.inl rfl, l, _, rfl⟩⟩
    | failure f => exact ⟨hfit, hgrows, .inr hi⟩
    | exhausted => exact ⟨hfit, hgrows, .inl rfl⟩

namespace Job

variable (files : Files)

/--
What a job does to a workspace when it gets its answers about files from `files`.
-/
def result {α : Type} (j : Job α) (w : Workspace) : α × Workspace :=
  files.run (j w)

variable {α β : Type}

theorem result_bind (j : Job α) (f : α → Job β) (w : Workspace) :
    (j >>= f).result files w
      = (f (j.result files w).1).result files (j.result files w).2 := by
  show files.run (j w >>= fun r => f r.1 r.2) = _
  rw [Files.run_bind]
  rfl

theorem result_onMachine (f : Machine → α × Machine) (w : Workspace) :
    (onMachine f).result files w = ((f w.machine).1, { w with machine := (f w.machine).2 }) :=
  rfl

theorem result_onDisk (d : Disk α) (w : Workspace) :
    (onDisk d).result files w = (files.run d, w) := by
  show files.run (d >>= fun a => pure (a, w)) = _
  rw [Files.run_bind, Files.run_pure]

theorem result_log (level : LogLevel) (message : String) (fields : List (String × String))
    (w : Workspace) : ((log level message fields).result files w).2.machine = w.machine := by
  show (if level = .debug ∧ !w.verbose then w else _ : Workspace).machine = w.machine
  split
  . rfl
  . rfl

def evalSources (root : Nat) : List (String × Text) → Job (List (Except Failure Value))
  | [] => return []
  | (file, source) :: rest => do
    let outcome ← evalSource root file source
    let outcomes ← evalSources root rest
    return outcome :: outcomes

variable {files} {root : Nat}

theorem evalForms_go_error {context : Context} {last : Value} {e : Expr Value}
    {rest : List (Expr Value)} {w : Workspace} {f : Failure}
    (h : (w.machine.evaluate context root e).1 = .error f) :
    (evalForms.go context root last (e :: rest)).result files w
      = (.error f, { w with machine := (w.machine.evaluate context root e).2 }) := by
  unfold evalForms.go
  rw [result_bind, result_onMachine]
  dsimp only
  rw [h]
  rfl

theorem evalForms_go_ok {context : Context} {last v : Value} {e : Expr Value}
    {rest : List (Expr Value)} {w : Workspace}
    (h : (w.machine.evaluate context root e).1 = .ok v) :
    ∃ w' : Workspace, w'.machine = (w.machine.evaluate context root e).2 ∧
      (evalForms.go context root last (e :: rest)).result files w
        = (evalForms.go context root v rest).result files w' := by
  rw [evalForms.go, result_bind, result_onMachine]
  dsimp only
  rw [h]
  dsimp only
  rw [result_bind]
  split
  . rw [result_bind, result_bind]
    exact ⟨_, result_log .., rfl⟩
  . exact ⟨_, rfl, rfl⟩

structure Settles (files : Files) (root : Nat) (w : Workspace)
    (j : Job (Except Failure Value)) : Prop where
  fit : (j.result files w).2.machine.Fit root
  grows : w.machine.store.Grows (j.result files w).2.machine.store
  told : Told (j.result files w).2.machine.store (j.result files w).1

theorem evalForms_go_settles (context : Context) {forms : List (Expr Value)} {last : Value}
    {w : Workspace} (hw : w.machine.Fit root)
    (hforms : ∀ e ∈ forms, e.Every w.machine.store.SoundNode) (hlast : last.Within w.machine.store) :
    Settles files root w (evalForms.go context root last forms) := by
  induction forms generalizing last w with
  | nil => exact ⟨hw, .refl _, hlast⟩
  | cons e rest ih =>
    obtain ⟨hfit, hgrows, htold⟩ :=
      Machine.evaluate_told hw context (hforms e List.mem_cons_self)
    cases hr : (w.machine.evaluate context root e).1 with
    | error f =>
      rw [hr] at htold
      constructor
      all_goals rw [evalForms_go_error hr]
      . apply hfit
      . apply hgrows
      . apply htold
    | ok v =>
      rw [hr] at htold
      obtain ⟨w', hw', hrest⟩ := evalForms_go_ok hr
      rw [← hw'] at hfit hgrows htold
      have hsettles : Settles files root w' (evalForms.go context root v rest) := by
        apply ih hfit _ htold
        intro e' he'
        apply (hforms e' (List.mem_cons_of_mem e he')).mono
        intro location form
        apply Store.SoundNode.grows hgrows
      constructor
      all_goals rw [hrest]
      . apply hsettles.fit
      . apply hgrows.trans hsettles.grows
      . apply hsettles.told

def loaded (w : Workspace) (forms : List (Expr Literal)) : Workspace :=
  { w with machine := { w.machine with store := (Expr.loadAll forms w.machine.store).2 } }

theorem loaded_fit {w : Workspace} {forms : List (Expr Literal)} (hforms : ∀ e ∈ forms, e.Located)
    (hw : w.machine.Fit root) :
    (loaded w forms).machine.Fit root ∧ w.machine.store.Grows (loaded w forms).machine.store ∧
      ∀ e ∈ (Expr.loadAll forms w.machine.store).1,
        e.Every (loaded w forms).machine.store.SoundNode := by
  have hload := Expr.loadAll_loaded (fun e he => Expr.load_loaded (hforms e he)) w.machine.store
  refine ⟨⟨?_, ?_⟩, hload.loads.grows, hload.exprs⟩
  . apply hload.loads.sound hw.store
  . apply Nat.lt_of_lt_of_le hw.root hload.loads.grows.frames

theorem evalSource_settles (file : String) (source : Text) {w : Workspace}
    (hw : w.machine.Fit root) : Settles files root w (evalSource root file source) := by
  have hparsed := Expr.parse_parsed file source.chars
  unfold evalSource
  cases hparse : Expr.parse file source.chars with
  | error e =>
    rw [hparse] at hparsed
    obtain ⟨l, hl⟩ := Option.isSome_iff_exists.1 hparsed
    refine ⟨hw, .refl _, .inr ⟨.inr rfl, l, source, ?_⟩⟩
    show e.location.map _ = _
    rw [hl]
    rfl
  | ok forms =>
    rw [hparse] at hparsed
    obtain ⟨hfit, hgrows, hforms⟩ := loaded_fit hparsed hw
    have hsettles : Settles files root (loaded w forms)
        (evalForms { file, source } root (Expr.loadAll forms w.machine.store).1) := by
      apply evalForms_go_settles _ hfit hforms
      trivial
    constructor
    . apply hsettles.fit
    . apply hgrows.trans hsettles.grows
    . apply hsettles.told

theorem evalSources_settles (texts : List (String × Text)) {w : Workspace}
    (hw : w.machine.Fit root) :
    ((evalSources root texts).result files w).2.machine.Fit root ∧
      w.machine.store.Grows ((evalSources root texts).result files w).2.machine.store ∧
      ∀ r ∈ ((evalSources root texts).result files w).1,
        Told ((evalSources root texts).result files w).2.machine.store r := by
  induction texts generalizing w with
  | nil =>
    refine ⟨hw, .refl _, ?_⟩
    intro r hr
    contradiction
  | cons text rest ih =>
    obtain ⟨file, source⟩ := text
    have hfirst : Settles files root w _ := evalSource_settles file source hw
    obtain ⟨hfit, hgrows, htold⟩ := ih hfirst.fit
    rw [evalSources, result_bind, result_bind]
    refine ⟨hfit, hfirst.grows.trans hgrows, ?_⟩
    exact List.forall_mem_cons.2 ⟨hfirst.told.grows hgrows, htold⟩

/--
In the course of `evalSources`, the form `e` is evaluated at top level from the machine `m`.
-/
inductive Evaluates (files : Files) (root : Nat) :
    List (String × Text) → Workspace → Context → Expr Value → Machine → Prop where
  | first {file : String} {source : Text} {rest : List (String × Text)} {w : Workspace}
      {forms : List (Expr Literal)} {before after : List (Expr Value)} {e : Expr Value} {v : Value}
      (hparse : Expr.parse file source.chars = .ok forms)
      (hload : (Expr.loadAll forms w.machine.store).1 = before ++ e :: after)
      (hbefore : ((evalForms { file, source } root before).result files
        (loaded w forms)).1 = .ok v) :
      Evaluates files root ((file, source) :: rest) w { file, source } e
        ((evalForms { file, source } root before).result files (loaded w forms)).2.machine
  | later {file : String} {source : Text} {rest : List (String × Text)} {w : Workspace}
      {context : Context} {e : Expr Value} {m : Machine}
      (h : Evaluates files root rest
        ((evalSource root file source).result files w).2 context e m) :
      Evaluates files root ((file, source) :: rest) w context e m

theorem Evaluates.fit {texts : List (String × Text)} {w : Workspace} {context : Context}
    {e : Expr Value} {m : Machine} (h : Evaluates files root texts w context e m)
    (hw : w.machine.Fit root) : m.Fit root ∧ e.Every m.store.SoundNode := by
  induction h with
  | @first file source rest w forms before after e v hparse hload hbefore =>
    have hparsed := Expr.parse_parsed file source.chars
    rw [hparse] at hparsed
    obtain ⟨hfit, _, hforms⟩ := loaded_fit hparsed hw
    rw [hload] at hforms
    have hsettles : Settles files root (loaded w forms)
        (evalForms { file, source } root before) := by
      apply evalForms_go_settles _ hfit
      . intro e' he'
        apply hforms e' (List.mem_append_left _ he')
      . trivial
    refine ⟨hsettles.fit, ?_⟩
    apply (hforms e (by simp)).mono
    intro location form
    apply Store.SoundNode.grows hsettles.grows
  | later h ih =>
    apply ih
    apply (evalSource_settles _ _ hw).fit

structure Orderly (files : Files) (root : Nat) (texts : List (String × Text))
    (w : Workspace) : Prop where
  failures : ∀ f, .error f ∈ ((evalSources root texts).result files w).1 →
    f.fault = .exhausted ∨ f.Told
  values : ∀ v, .ok v ∈ ((evalSources root texts).result files w).1 →
    v.Within ((evalSources root texts).result files w).2.machine.store
  store : ((evalSources root texts).result files w).2.machine.store.Sound
  evaluations : ∀ context e m, Evaluates files root texts w context e m →
    ∀ fuel frame e' m', Occurs (some context) unbounded root e m fuel frame e' m' →
      m'.store.Sound ∧ match eval context fuel frame e' m' with
        | .ok v m'' => m''.store.Sound ∧ v.Within m''.store
        | .error i m'' => m''.store.Sound ∧ i.Told
  operations : Run.AllGuarded

end Job

theorem evalSources_orderly (files : Files) (w : Workspace)
    (texts : List (String × Text)) :
    let fresh : Workspace := { w with machine := { w.machine with store := {} } }
    let start := Job.newRoot.result files fresh
    Job.Orderly files start.1 texts start.2 := by
  intro fresh start
  have hstart : start.2.machine.Fit start.1 := by
    constructor
    . apply Store.Sound.empty.addFrame
      intro p hp
      contradiction
    . simp [start, fresh, Job.newRoot, Job.onStore, Job.result_onMachine, Store.addFrame]
  obtain ⟨hfit, _, htold⟩ := Job.evalSources_settles texts hstart
  constructor
  . intro f hf
    apply htold _ hf
  . intro v hv
    apply htold _ hv
  . apply hfit.store
  . intro context e m hevaluates fuel frame e' m' hoccurs
    obtain ⟨hm, he⟩ := hevaluates.fit hstart
    obtain ⟨hstore, _, _, hsettled⟩ :=
      hoccurs.settled (told_escapes context) hm.store hm.root he
    refine ⟨hstore, ?_⟩
    cases hr : eval context fuel frame e' m' with
    | ok v m'' =>
      rw [hr] at hsettled
      exact ⟨hsettled.1, hsettled.2.2⟩
    | error i m'' =>
      rw [hr] at hsettled
      exact ⟨hsettled.1, hsettled.2.2⟩
  . apply Run.allGuarded

end LispScript
