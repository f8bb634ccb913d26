import LispScript.Proofs.Orderly
import LispScript.Proofs.TwinForms

/-!
This module contains the proof that source texts are loaded and evaluated alike in machines that are
alike. Loading the same tree twice gives trees that are alike: their string literals have buffers of
their own, and the places that make closures have sites of their own.
-/

namespace LispScript

variable {L : Likeness} {ρ ρ' : Renaming}

/--
The names that a form itself mentions.
-/
def Form.names {α : Type} : Form α → List String
  | .symbol name | .define name _ | .assign name _ | .isBound name | .call name _ => [name]
  | .function name _ => [name]
  | .lambda _ params _ => params
  | _ => []

/--
Every name that a tree mentions is one that counts.
-/
def Expr.Mentions {α : Type} (L : Likeness) (e : Expr α) : Prop :=
  e.Every fun _ form => ∀ name ∈ form.names, L.name name

/-! Loading. -/

namespace Run

/--
Loading as a run.
-/
def load {α : Type} (x : StateM Store α) : Run α :=
  create x

theorem load_bind {α β : Type} (x : StateM Store α) (f : α → StateM Store β) :
    load (x >>= f) = load x >>= fun a => load (f a) := rfl

theorem load_pure {α : Type} (a : α) : load (pure a) = pure a := rfl

theorem Ends.of_ok {α β : Type} {Q : Renaming → α → β → Prop} {m n m' n' : Machine} {a : α} {b : β}
    (h : Ends L ρ m n Q (.ok a m') (.ok b n')) : ∃ ρ', m.Passage L ρ ρ' n m' n' ∧ Q ρ' a b := by
  cases h with
  | ok hpassage hQ => exact ⟨_, hpassage, hQ⟩

/--
Loading a tree twice gives trees that are alike.
-/
def Loads (L : Likeness) (e : Expr Literal) : Prop :=
  ∀ ρ, Twin L ρ (load e.load) (load e.load) (Expr.Alike L)

abbrev FormAlike (L : Likeness) (ρ : Renaming) : Form Value → Form Value → Prop :=
  Form.Alike L ρ (Expr.Alike L ρ)

namespace Loads

variable {a b c d : Expr Literal} {es : List (Expr Literal)}

theorem one {F : Expr Value → Form Value} (ha : Loads L a)
    (hF : ∀ {ρ : Renaming} {x x' : Expr Value}, x.Alike L ρ x' → FormAlike L ρ (F x) (F x')) :
    Twin L ρ (load (do return F (← a.load))) (load (do return F (← a.load))) (FormAlike L) := by
  simp only [load_bind, load_pure]
  apply Twin.bind (ha ρ)
  intro ρ' x x' _ hx
  exact .pure (hF hx)

theorem two {F : Expr Value → Expr Value → Form Value} (ha : Loads L a) (hb : Loads L b)
    (hF : ∀ {ρ : Renaming} {x x' y y' : Expr Value}, x.Alike L ρ x' → y.Alike L ρ y' →
      FormAlike L ρ (F x y) (F x' y')) :
    Twin L ρ (load (do return F (← a.load) (← b.load))) (load (do return F (← a.load) (← b.load)))
      (FormAlike L) := by
  simp only [load_bind, load_pure]
  apply Twin.bind (ha ρ)
  intro ρ₁ x x' _ hx
  apply Twin.bind (hb ρ₁)
  intro ρ₂ y y' hρ₂ hy
  exact .pure (hF (hx.mono hρ₂) hy)

theorem three {F : Expr Value → Expr Value → Expr Value → Form Value} (ha : Loads L a)
    (hb : Loads L b) (hc : Loads L c)
    (hF : ∀ {ρ : Renaming} {x x' y y' z z' : Expr Value}, x.Alike L ρ x' → y.Alike L ρ y' →
      z.Alike L ρ z' → FormAlike L ρ (F x y z) (F x' y' z')) :
    Twin L ρ (load (do return F (← a.load) (← b.load) (← c.load)))
      (load (do return F (← a.load) (← b.load) (← c.load))) (FormAlike L) := by
  simp only [load_bind, load_pure]
  apply Twin.bind (ha ρ)
  intro ρ₁ x x' _ hx
  apply Twin.bind (hb ρ₁)
  intro ρ₂ y y' hρ₂ hy
  apply Twin.bind (hc ρ₂)
  intro ρ₃ z z' hρ₃ hz
  exact .pure (hF (hx.mono (le_trans hρ₂ hρ₃)) (hy.mono hρ₃) hz)

theorem all (hes : ∀ e ∈ es, Loads L e) :
    Twin L ρ (load (Expr.loadAll es)) (load (Expr.loadAll es)) (ExprsAlike L) := by
  induction es generalizing ρ with
  | nil => exact .pure .nil
  | cons e es ih =>
    obtain ⟨he, hes⟩ := List.forall_mem_cons.1 hes
    simp only [Expr.loadAll, load_bind, load_pure]
    apply Twin.bind (he ρ)
    intro ρ₁ x x' _ hx
    apply Twin.bind (ih hes)
    intro ρ₂ xs xs' hρ₂ hxs
    exact .pure (.cons (hx.mono hρ₂) hxs)

theorem allCases {cases : List (Expr Literal × Expr Literal)}
    (h : ∀ e ∈ (Form.cond cases).parts, Loads L e) :
    Twin L ρ (load (Expr.loadCases cases)) (load (Expr.loadCases cases))
      (fun ρ' => List.Forall₂ fun c d => c.1.Alike L ρ' d.1 ∧ c.2.Alike L ρ' d.2) := by
  induction cases generalizing ρ with
  | nil => exact .pure .nil
  | cons c cases ih =>
    obtain ⟨predicate, result⟩ := c
    simp only [Form.parts, List.flatMap_cons, List.cons_append, List.nil_append,
      List.forall_mem_cons] at h
    obtain ⟨hpredicate, hresult, hrest⟩ := h
    simp only [Expr.loadCases, load_bind, load_pure]
    apply Twin.bind (hpredicate ρ)
    intro ρ₁ x x' _ hx
    apply Twin.bind (hresult ρ₁)
    intro ρ₂ y y' hρ₂ hy
    apply Twin.bind (ih hrest)
    intro ρ₃ zs zs' hρ₃ hzs
    exact .pure (.cons ⟨hx.mono (le_trans hρ₂ hρ₃), hy.mono hρ₃⟩ hzs)

theorem list {F : List (Expr Value) → Form Value} (hes : ∀ e ∈ es, Loads L e)
    (hF : ∀ {ρ : Renaming} {xs xs' : List (Expr Value)}, ExprsAlike L ρ xs xs' →
      FormAlike L ρ (F xs) (F xs')) :
    Twin L ρ (load (do return F (← Expr.loadAll es))) (load (do return F (← Expr.loadAll es)))
      (FormAlike L) := by
  simp only [load_bind, load_pure]
  apply Twin.bind (all hes)
  intro ρ' xs xs' _ hxs
  exact .pure (hF hxs)

/--
A place that makes closures gets a site.
-/
theorem site {F : Nat → Expr Value → Form Value} (ha : Loads L a)
    (hF : ∀ {ρ : Renaming} {n n' : Nat} {x x' : Expr Value}, ρ .sites n n' → x.Alike L ρ x' →
      FormAlike L ρ (F n x) (F n' x')) :
    Twin L ρ (load (do return F (← modifyGet Store.addSite) (← a.load)))
      (load (do return F (← modifyGet Store.addSite) (← a.load))) (FormAlike L) := by
  simp only [load_bind, load_pure]
  apply Twin.bind (Q := fun ρ' => ρ' .sites)
  . apply Twin.create .sites Store.addSite_adds Store.addSite_adds
    . intro s t _
      trivial
    . intro ρ' s t hnew
      exact hnew
  . intro ρ₁ n n' _ hn
    apply Twin.bind (ha ρ₁)
    intro ρ₂ x x' hρ₂ hx
    exact .pure (hF (hρ₂ _ _ _ hn) hx)

theorem form {form : Form Literal} (hnames : ∀ name ∈ form.names, L.name name)
    (hparts : ∀ e ∈ form.parts, Loads L e) :
    Twin L ρ (load form.load) (load form.load) (FormAlike L) := by
  cases form with
  | literal l =>
    rw [Form.load, load_bind]
    apply Twin.bind (Twin.literal l)
    intro ρ' v w _ hvw
    exact .pure (.literal hvw)
  | define name e =>
    have hname := hnames name (by simp [Form.names])
    exact one (hparts e (by simp [Form.parts])) fun hx => .define hname hx
  | function name e =>
    have hname := hnames name (by simp [Form.names])
    exact one (hparts e (by simp [Form.parts])) fun hx => .function hname hx
  | assign name e =>
    have hname := hnames name (by simp [Form.names])
    exact one (hparts e (by simp [Form.parts])) fun hx => .assign hname hx
  | clone e => exact one (hparts e (by simp [Form.parts])) fun hx => .clone hx
  | negate e => exact one (hparts e (by simp [Form.parts])) fun hx => .negate hx
  | isType e type => exact one (hparts e (by simp [Form.parts])) fun hx => .isType hx
  | print e newline => exact one (hparts e (by simp [Form.parts])) fun hx => .print hx
  | isTypeNamed e name => exact one (hparts e (by simp [Form.parts])) fun hx => .isTypeNamed hx
  | makeRecord e => exact one (hparts e (by simp [Form.parts])) fun hx => .makeRecord hx
  | getMember e member => exact one (hparts e (by simp [Form.parts])) fun hx => .getMember hx
  | stringLength e => exact one (hparts e (by simp [Form.parts])) fun hx => .stringLength hx
  | arrayLength e => exact one (hparts e (by simp [Form.parts])) fun hx => .arrayLength hx
  | arith op a b =>
    exact two (hparts a (by simp [Form.parts])) (hparts b (by simp [Form.parts]))
      fun hx hy => .arith hx hy
  | compare op a b =>
    exact two (hparts a (by simp [Form.parts])) (hparts b (by simp [Form.parts]))
      fun hx hy => .compare hx hy
  | logic op a b =>
    exact two (hparts a (by simp [Form.parts])) (hparts b (by simp [Form.parts]))
      fun hx hy => .logic hx hy
  | isRecordOf a b =>
    exact two (hparts a (by simp [Form.parts])) (hparts b (by simp [Form.parts]))
      fun hx hy => .isRecordOf hx hy
  | setMember a member b =>
    exact two (hparts a (by simp [Form.parts])) (hparts b (by simp [Form.parts]))
      fun hx hy => .setMember hx hy
  | charAt a b =>
    exact two (hparts a (by simp [Form.parts])) (hparts b (by simp [Form.parts]))
      fun hx hy => .charAt hx hy
  | concat a b =>
    exact two (hparts a (by simp [Form.parts])) (hparts b (by simp [Form.parts]))
      fun hx hy => .concat hx hy
  | makeArray a b =>
    exact two (hparts a (by simp [Form.parts])) (hparts b (by simp [Form.parts]))
      fun hx hy => .makeArray hx hy
  | arrayGet a b =>
    exact two (hparts a (by simp [Form.parts])) (hparts b (by simp [Form.parts]))
      fun hx hy => .arrayGet hx hy
  | arrayAdd a b =>
    exact two (hparts a (by simp [Form.parts])) (hparts b (by simp [Form.parts]))
      fun hx hy => .arrayAdd hx hy
  | branch a b c =>
    exact three (hparts a (by simp [Form.parts])) (hparts b (by simp [Form.parts]))
      (hparts c (by simp [Form.parts])) fun hx hy hz => .branch hx hy hz
  | setCharAt a b c =>
    exact three (hparts a (by simp [Form.parts])) (hparts b (by simp [Form.parts]))
      (hparts c (by simp [Form.parts])) fun hx hy hz => .setCharAt hx hy hz
  | substring a b c =>
    exact three (hparts a (by simp [Form.parts])) (hparts b (by simp [Form.parts]))
      (hparts c (by simp [Form.parts])) fun hx hy hz => .substring hx hy hz
  | find a b c =>
    exact three (hparts a (by simp [Form.parts])) (hparts b (by simp [Form.parts]))
      (hparts c (by simp [Form.parts])) fun hx hy hz => .find hx hy hz
  | arraySet a b c =>
    exact three (hparts a (by simp [Form.parts])) (hparts b (by simp [Form.parts]))
      (hparts c (by simp [Form.parts])) fun hx hy hz => .arraySet hx hy hz
  | loop a b c d =>
    rw [Form.load]
    simp only [load_bind, load_pure]
    apply Twin.bind (hparts a (by simp [Form.parts]) ρ)
    intro ρ₁ w w' _ hw
    apply Twin.bind (hparts b (by simp [Form.parts]) ρ₁)
    intro ρ₂ x x' hρ₂ hx
    apply Twin.bind (hparts c (by simp [Form.parts]) ρ₂)
    intro ρ₃ y y' hρ₃ hy
    apply Twin.bind (hparts d (by simp [Form.parts]) ρ₃)
    intro ρ₄ z z' hρ₄ hz
    have hρ := le_trans hρ₃ hρ₄
    exact .pure (.loop (hw.mono (le_trans hρ₂ hρ)) (hx.mono hρ) (hy.mono hρ₄) hz)
  | sequence es => exact list hparts fun hxs => .sequence hxs
  | block es => exact list hparts fun hxs => .block hxs
  | arrayOf es => exact list hparts fun hxs => .arrayOf hxs
  | call name es =>
    have hname := hnames name (by simp [Form.names])
    exact list hparts fun hxs => .call hname hxs
  | apply e es =>
    rw [Form.load]
    simp only [load_bind, load_pure]
    obtain ⟨he, hes⟩ := List.forall_mem_cons.1 hparts
    apply Twin.bind (he ρ)
    intro ρ₁ x x' _ hx
    apply Twin.bind (all hes)
    intro ρ₂ xs xs' hρ₂ hxs
    exact .pure (.apply (hx.mono hρ₂) hxs)
  | cond cases =>
    rw [Form.load, load_bind]
    apply Twin.bind (allCases hparts)
    intro ρ' cs cs' _ hcs
    exact .pure (.cond hcs)
  | lambda n params e =>
    exact site (hparts e (by simp [Form.parts])) fun hn hx => .lambda hn hnames hx
  | symbol name => exact .pure (.symbol (hnames name (by simp [Form.names])))
  | isBound name => exact .pure (.isBound (hnames name (by simp [Form.names])))
  | breakLoop => exact .pure .breakLoop
  | read => exact .pure .read
  | recordType name members => exact .pure .recordType

theorem expr {e : Expr Literal} (h : e.Mentions L) : Loads L e := by
  unfold Expr.Mentions at h
  induction h with
  | absent =>
    intro ρ
    exact .pure .absent
  | @node location form hnames _ ih =>
    intro ρ
    simp only [Expr.load, load_bind, load_pure]
    apply Twin.bind (Loads.form hnames ih)
    intro ρ' x x' _ hx
    exact .pure (.node _ (fun _ => rfl) hx fun _ _ h => h)

end Loads

end Run

/-! Evaluations at top level. -/

inductive OutcomeAlike (L : Likeness) (ρ : Renaming) :
    Except Failure Value → Except Failure Value → Prop where
  | ok {v w : Value} (h : v.Alike ρ w) : OutcomeAlike L ρ (.ok v) (.ok w)
  | error {f g : Failure} (h : f.Alike L g) : OutcomeAlike L ρ (.error f) (.error g)

theorem Interrupt.Alike.toFailure {i j : Interrupt} (h : i.Alike L j) :
    i.toFailure.Alike L j.toFailure := by
  cases h with
  | breakLoop _ => exact .refl L _
  | failure hf => exact hf
  | exhausted => exact .refl L _

/--
From `m` and `n`, two evaluations have come to the same.
-/
def Machine.Concurs (L : Likeness) (ρ : Renaming) (m n : Machine)
    (r r' : Except Failure Value × Machine) : Prop :=
  ∃ ρ', m.Passage L ρ ρ' n r.2 r'.2 ∧ OutcomeAlike L ρ' r.1 r'.1

theorem Machine.run_twin {x y : Run Value} (h : Run.Twin L ρ x y Value.Alike) {m n : Machine}
    (halike : m.Alike L ρ n) : Concurs L ρ m n (m.run x) (n.run y) := by
  have hends := h m n halike
  unfold run
  generalize x m = r at hends ⊢
  generalize y n = r' at hends ⊢
  cases hends with
  | ok hpassage hvw => exact ⟨_, hpassage, .ok hvw⟩
  | error hpassage hi => exact ⟨_, hpassage, .error hi.toFailure⟩

theorem Machine.evaluate_twin {c c' : Option Context} (hcontext : L.placed → c = c')
    {frame frame' : Nat} {e e' : Expr Value} (hframe : ρ .frames frame frame') (he : e.Alike L ρ e')
    {m n : Machine} (halike : m.Alike L ρ n) :
    Concurs L ρ m n (m.evaluate c frame e) (n.evaluate c' frame' e') :=
  run_twin (.refuseBreak hcontext (eval_twin hcontext unbounded hframe he)) halike

namespace Job

variable {files files' : Files} {root root' : Nat}

theorem evalForms_go_twin {c c' : Context} (hcontext : L.placed → c = c')
    (hroot : ρ .frames root root') {forms forms' : List (Expr Value)}
    (hforms : Run.ExprsAlike L ρ forms forms') {last last' : Value} (hlast : last.Alike ρ last')
    {w w' : Workspace} (hw : w.machine.Alike L ρ w'.machine) :
    ∃ ρ', w.machine.Passage L ρ ρ' w'.machine
        ((evalForms.go c root last forms).result files w).2.machine
        ((evalForms.go c' root' last' forms').result files' w').2.machine ∧
      OutcomeAlike L ρ' ((evalForms.go c root last forms).result files w).1
        ((evalForms.go c' root' last' forms').result files' w').1 := by
  induction forms generalizing ρ forms' last last' w w' with
  | nil =>
    cases hforms
    exact ⟨ρ, .refl hw, .ok hlast⟩
  | cons e forms ih =>
    cases hforms with
    | cons he hforms =>
      have hcontext' : L.placed → (c : Option Context) = c' := fun hplaced => by rw [hcontext hplaced]
      obtain ⟨ρ₁, hpassage, houtcome⟩ := Machine.evaluate_twin hcontext' hroot he hw
      generalize hr : (w.machine.evaluate c root e).1 = r at houtcome
      generalize hr' : (w'.machine.evaluate c' root' _).1 = r' at houtcome
      cases houtcome with
      | error hf =>
        rw [evalForms_go_error hr, evalForms_go_error hr']
        exact ⟨ρ₁, hpassage, .error hf⟩
      | ok hvw =>
        obtain ⟨w₁, hw₁, hrest⟩ := evalForms_go_ok hr
        obtain ⟨w₁', hw₁', hrest'⟩ := evalForms_go_ok hr'
        rw [← hw₁, ← hw₁'] at hpassage
        rw [hrest, hrest']
        have hle := hpassage.store.le
        obtain ⟨ρ₂, hpassage₂, houtcome₂⟩ :=
          ih (hle _ _ _ hroot) (Run.ExprsAlike.mono hforms hle) hvw hpassage.alike
        exact ⟨ρ₂, hpassage.trans hpassage₂, houtcome₂⟩

theorem evalSource_error {file : String} {source : Text} {e : ReadError}
    (h : Expr.parse file source.chars = .error e) (w : Workspace) :
    (evalSource root file source).result files w = (.error (.ofReadError e source), w) := by
  unfold evalSource
  rw [h]
  rfl

theorem evalSource_ok {file : String} {source : Text} {forms : List (Expr Literal)}
    (h : Expr.parse file source.chars = .ok forms) (w : Workspace) :
    (evalSource root file source).result files w
      = (evalForms { file, source } root (Expr.loadAll forms w.machine.store).1).result files
        (loaded w forms) := by
  unfold evalSource
  rw [h]
  rfl

theorem loaded_twin {forms : List (Expr Literal)} (hforms : ∀ e ∈ forms, e.Mentions L)
    {w w' : Workspace} (hw : w.machine.Alike L ρ w'.machine) :
    ∃ ρ', w.machine.Passage L ρ ρ' w'.machine (loaded w forms).machine (loaded w' forms).machine ∧
      Run.ExprsAlike L ρ' (Expr.loadAll forms w.machine.store).1
        (Expr.loadAll forms w'.machine.store).1 := by
  have hload := Run.Loads.all (fun e he => Run.Loads.expr (hforms e he)) w.machine w'.machine hw
  exact Run.Ends.of_ok hload

/--
The same source text, evaluated from machines that are alike, comes to the same.
-/
theorem evalSource_twin {file : String} {source : Text}
    (hforms : ∀ forms, Expr.parse file source.chars = .ok forms → ∀ e ∈ forms, e.Mentions L)
    (hroot : ρ .frames root root') {w w' : Workspace} (hw : w.machine.Alike L ρ w'.machine) :
    ∃ ρ', w.machine.Passage L ρ ρ' w'.machine
        ((evalSource root file source).result files w).2.machine
        ((evalSource root' file source).result files' w').2.machine ∧
      OutcomeAlike L ρ' ((evalSource root file source).result files w).1
        ((evalSource root' file source).result files' w').1 := by
  cases hparse : Expr.parse file source.chars with
  | error e =>
    rw [evalSource_error hparse, evalSource_error hparse]
    exact ⟨ρ, .refl hw, .error (.refl L _)⟩
  | ok forms =>
    rw [evalSource_ok hparse, evalSource_ok hparse]
    obtain ⟨ρ₁, hpassage, hexprs⟩ := loaded_twin (hforms forms hparse) hw
    obtain ⟨ρ₂, hpassage₂, houtcome⟩ := evalForms_go_twin (fun _ => rfl)
      (hpassage.store.le _ _ _ hroot) hexprs .null hpassage.alike
    exact ⟨ρ₂, hpassage.trans hpassage₂, houtcome⟩

end Job

end LispScript
