import LispScript.Proofs.Footprint
import LispScript.Proofs.Isolation
import LispScript.Proofs.Shift
import LispScript.Proofs.Unwinding

/-!
This module contains the proof of where the locations of failures come from. When source texts are
evaluated in turn, a failure is located at a node, or at an error, of one of the texts read so far, since
closures keep the nodes of earlier texts. The text that is shown with it is chosen by name: it is that of
the failing call if the location bears its name, and none otherwise. So the right text is shown exactly
as long as texts of one name are the same.
-/

namespace LispScript

/--
A node of the tree is at the location.
-/
inductive Expr.Bears {α : Type} (l : Location) : Expr α → Prop where
  | here {form : Form α} : Bears l (.node (some l) form)
  | part {location : Option Location} {form : Form α} {e : Expr α} (hmem : e ∈ form.parts)
      (h : Bears l e) : Bears l (.node location form)

theorem Expr.bears_node {α : Type} {l : Location} {location : Option Location} {form : Form α} :
    (Expr.node location form).Bears l ↔ location = some l ∨ ∃ e ∈ form.parts, e.Bears l := by
  constructor
  . intro h
    cases h with
    | here => exact .inl rfl
    | part hmem h => exact .inr ⟨_, hmem, h⟩
  . rintro (rfl | ⟨e, hmem, h⟩)
    . exact .here
    . exact .part hmem h

/--
The text has a node at the location, or that is where it cannot be read.
-/
def Text.Bears (file : String) (source : Text) (l : Location) : Prop :=
  match Expr.parse file source.chars with
  | .ok forms => ∃ e ∈ forms, e.Bears l
  | .error e => e.location = some l

/-! Trees. -/

/--
Every node of the tree is at a location of which `P` holds.
-/
def Expr.Among {α : Type} (P : Location → Prop) (e : Expr α) : Prop :=
  e.Every fun location _ => ∃ l, location = some l ∧ P l

namespace Expr

variable {α : Type} {P Q : Location → Prop}

theorem Among.mono {e : Expr α} (h : e.Among P) (hPQ : ∀ l, P l → Q l) : e.Among Q := by
  apply Every.mono h
  rintro location form ⟨l, hl, hP⟩
  exact ⟨l, hl, hPQ l hP⟩

theorem Among.of_located {e : Expr α} (h : e.Located) (hP : ∀ l, e.Bears l → P l) : e.Among P := by
  unfold Located at h
  induction h with
  | absent => exact .absent
  | node hlocation _ ih =>
    obtain ⟨l, rfl⟩ := Option.isSome_iff_exists.1 hlocation
    apply Every.node ⟨l, rfl, hP l .here⟩
    intro e he
    exact ih e he fun l hl => hP l (.part he hl)

theorem Among.bears {e : Expr α} (h : e.Among P) {l : Location} (hl : e.Bears l) : P l := by
  induction hl with
  | here =>
    obtain ⟨l, hl, hP⟩ := Every.here h
    cases hl
    exact hP
  | part hmem _ ih => exact ih (Every.parts h _ hmem)

theorem parts_relocate (g : Location → Location) (form : Form α) :
    (form.relocate g).parts = form.parts.map (relocate g) := by
  cases form with
  | cond cases =>
    simp only [Form.relocate, Form.parts]
    induction cases with
    | nil => rfl
    | cons c cases ih =>
      obtain ⟨predicate, result⟩ := c
      simp only [relocateCases, List.flatMap_cons, ih, List.map_append, List.map_cons, List.map_nil]
  | _ => simp [Form.relocate, Form.parts]

theorem among_relocate {e : Expr α} (h : e.Located) (g : Location → Location) :
    (e.relocate g).Among fun l => ∃ l', l = g l' := by
  unfold Located at h
  induction h with
  | absent => exact .absent
  | @node location form hlocation _ ih =>
    obtain ⟨l, rfl⟩ := Option.isSome_iff_exists.1 hlocation
    apply Every.node ⟨g l, rfl, l, rfl⟩
    intro e he
    rw [parts_relocate] at he
    obtain ⟨e', he', rfl⟩ := List.mem_map.1 he
    exact ih e' he'

theorem loadAll_among {es : List (Expr Literal)} (h : ∀ e ∈ es, ∀ s, (e.load s).1.Among P)
    (s : Store) : ∀ e ∈ (loadAll es s).1, e.Among P := by
  induction es generalizing s with
  | nil => exact nofun
  | cons e es ih =>
    have hload : (loadAll (e :: es) s).1 = (e.load s).1 :: (loadAll es (e.load s).2).1 := rfl
    obtain ⟨he, hes⟩ := List.forall_mem_cons.1 h
    rw [hload]
    exact List.forall_mem_cons.2 ⟨he s, ih hes _⟩

theorem Among.load {e : Expr Literal} (h : e.Among P) (s : Store) : (e.load s).1.Among P := by
  unfold Among at h
  induction h generalizing s with
  | absent => exact .absent
  | @node location form hlocation _ ih =>
    obtain ⟨t, hform⟩ := form.load_parts s
    apply Every.node hlocation
    rw [hform.parts]
    exact loadAll_among ih t

end Expr

/--
A text is read under its own name, so what stands in it bears that name.
-/
theorem Text.Bears.file {file : String} {source : Text} {l : Location} (h : source.Bears file l) :
    l.file = file := by
  have hself := Expr.parse_inFile file file source.chars
  have hparsed := Expr.parse_parsed file source.chars
  unfold Text.Bears at h
  cases hparse : Expr.parse file source.chars with
  | error e =>
    rw [hparse] at h hself
    have hlocation : e.location = e.location.map (Location.inFile file) :=
      congrArg ReadError.location (Except.error.inj hself)
    rw [h] at hlocation
    rw [Option.some.inj hlocation]
    rfl
  | ok forms =>
    rw [hparse] at h hself hparsed
    obtain ⟨e, he, hbears⟩ := h
    have hforms : forms = forms.map (Expr.relocate (Location.inFile file)) := Except.ok.inj hself
    rw [hforms] at he
    obtain ⟨e', he', rfl⟩ := List.mem_map.1 he
    obtain ⟨l', rfl⟩ := (Expr.among_relocate (hparsed e' he') _).bears hbears
    rfl

/-! Evaluation. -/

variable {P Q : Location → Prop}

def amongRegime (P : Location → Prop) : Regime where
  store := fun s => ∀ c ∈ s.closures, c.body.Among P
  value := fun _ _ => True
  frame := fun _ _ => True
  node := fun _ location _ => ∃ l, location = some l ∧ P l

theorem amongRegime_closure {s : Store} (hs : (amongRegime P).store s) (ref : Nat) :
    (s.closure ref).body.Among P := by
  unfold Store.closure
  cases hc : s.closures[ref]? with
  | none => exact .absent
  | some c => exact hs c (Array.mem_of_getElem? hc)

theorem amongRegime_change {s t : Store} {home : Option Nat} (hs : (amongRegime P).store s)
    (h : s.Change (amongRegime P) home t) : (amongRegime P).store t := by
  cases h with
  | addClosure _ hbody => exact Store.forall_push hs hbody
  | clone =>
    intro c hc
    cases (Value.clone_extends _ _).closures c hc with
    | inl hc => exact hs c hc
    | inr hc =>
      rw [hc]
      exact .absent
  | _ => exact hs

instance : (amongRegime P).Lawful where
  value_grows := fun _ _ => trivial
  frame_grows := fun _ _ => trivial
  node_grows := fun _ h => h
  value_of_within := fun _ => trivial
  frame_of_lt := fun _ => trivial
  literal := fun _ => trivial
  lookup := fun _ _ => trivial
  element := fun _ _ => trivial
  field := fun _ _ => trivial
  closure := fun hs _ => ⟨trivial, amongRegime_closure hs _⟩
  clone := fun _ _ => trivial
  change := amongRegime_change
  addFrame := fun hs _ => hs

/--
The failure is at a location of which `P` holds, with the text that `c` has for it.
-/
def Failure.FoundBy (P : Location → Prop) (c : Context) (f : Failure) : Prop :=
  ∃ l, P l ∧ f.origin = some { location := some l, source := c.sourceFor l }

def Interrupt.FoundBy (P : Location → Prop) (c : Context) : Interrupt → Prop
  | .breakLoop location => ∃ l, location = some l ∧ P l
  | .failure f => f.FoundBy P c
  | .exhausted => True

theorem foundBy_escapes (P : Location → Prop) (c : Context) :
    Run.Escapes (amongRegime P) (some c) (Interrupt.FoundBy P c) where
  breakLoop := fun _ _ h => h
  fault := by
    rintro s location form f ⟨l, rfl, hl⟩ _
    exact ⟨l, hl, rfl⟩
  located := by
    rintro location f ⟨l, hl, horigin⟩
    have hsome : f.origin.isSome := by rw [horigin]; rfl
    rw [Failure.locate_of_origin hsome]
    exact ⟨l, hl, horigin⟩
  exhausted := trivial

/--
The outcome of a call in the context `c`: if it is a failure that has an origin, `P` holds of the
location.
-/
def FoundBy (P : Location → Prop) (c : Context) : Except Failure Value → Prop
  | .ok _ => True
  | .error f => f.origin.isSome → f.FoundBy P c

theorem Machine.evaluate_foundBy {m : Machine} (hm : (amongRegime P).store m.store) (c : Context)
    (root : Nat) {e : Expr Value} (he : e.Among P) :
    (amongRegime P).store (m.evaluate c root e).2.store ∧ FoundBy P c (m.evaluate c root e).1 := by
  have h := (Run.eval_keeps (foundBy_escapes P c) unbounded root e m hm trivial he).2
  unfold evaluate run Run.refuseBreak
  cases hr : eval c unbounded root e m with
  | ok v m' =>
    rw [hr] at h
    exact ⟨h.1, trivial⟩
  | error i m' =>
    rw [hr] at h
    obtain ⟨hstore, _, hi⟩ := h
    cases i with
    | breakLoop location =>
      obtain ⟨l, rfl, hl⟩ := hi
      exact ⟨hstore, fun _ => ⟨l, hl, rfl⟩⟩
    | failure f => exact ⟨hstore, fun _ => hi⟩
    | exhausted => exact ⟨hstore, nofun⟩

namespace Job

variable {files : Files} {root : Nat}

theorem evalForms_go_foundBy (c : Context) {forms : List (Expr Value)} (last : Value) {w : Workspace}
    (hw : (amongRegime P).store w.machine.store) (hforms : ∀ e ∈ forms, e.Among P) :
    let r := (evalForms.go c root last forms).result files w
    (amongRegime P).store r.2.machine.store ∧ FoundBy P c r.1 := by
  induction forms generalizing last w with
  | nil => exact ⟨hw, trivial⟩
  | cons e rest ih =>
    obtain ⟨he, hrest⟩ := List.forall_mem_cons.1 hforms
    obtain ⟨hstore, hfound⟩ := Machine.evaluate_foundBy hw c root he
    cases hr : (w.machine.evaluate c root e).1 with
    | error f =>
      rw [evalForms_go_error hr]
      rw [hr] at hfound
      exact ⟨hstore, hfound⟩
    | ok v =>
      obtain ⟨w', hw', hresult⟩ := evalForms_go_ok hr
      rw [← hw'] at hstore
      rw [hresult]
      exact ih v hstore hrest

theorem evalSource_foundBy (file : String) (source : Text) {w : Workspace}
    (hw : (amongRegime P).store w.machine.store) (hP : ∀ l, source.Bears file l → P l) :
    let r := (evalSource root file source).result files w
    (amongRegime P).store r.2.machine.store ∧ FoundBy P { file, source } r.1 := by
  have hparsed := Expr.parse_parsed file source.chars
  cases hparse : Expr.parse file source.chars with
  | error e =>
    rw [evalSource_error hparse]
    refine ⟨hw, fun _ => ?_⟩
    rw [hparse] at hparsed
    obtain ⟨l, hl⟩ := Option.isSome_iff_exists.1 hparsed
    have hbears : source.Bears file l := by
      unfold Text.Bears
      rw [hparse]
      exact hl
    refine ⟨l, hP l hbears, ?_⟩
    simp [Failure.ofReadError, hl, Context.sourceFor, hbears.file]
  | ok forms =>
    rw [hparse] at hparsed
    rw [evalSource_ok hparse]
    apply evalForms_go_foundBy
    . show (amongRegime P).store (Expr.loadAll forms w.machine.store).2
      rw [Expr.loadAll_store]
      exact hw
    . apply Expr.loadAll_among
      intro e he s
      apply Expr.Among.load
      apply Expr.Among.of_located (hparsed e he)
      intro l hl
      apply hP
      unfold Text.Bears
      rw [hparse]
      exact ⟨e, he, hl⟩

/--
Some text among the first ones, up to the one with the number `i`, has the location.
-/
def BornBy (texts : List (String × Text)) (i : Nat) (l : Location) : Prop :=
  ∃ j ≤ i, ∃ file source, texts[j]? = some (file, source) ∧ source.Bears file l

theorem evalSources_foundBy (texts : List (String × Text)) {w : Workspace}
    (hw : (amongRegime P).store w.machine.store) {i : Nat} {file : String} {source : Text}
    (hi : texts[i]? = some (file, source)) {f : Failure}
    (hf : ((evalSources root texts).result files w).1[i]? = some (.error f))
    (horigin : f.origin.isSome) :
    f.FoundBy (fun l => P l ∨ BornBy texts i l) { file, source } := by
  induction texts generalizing w i P with
  | nil => contradiction
  | cons text rest ih =>
    obtain ⟨first, start⟩ := text
    let P' (l : Location) := P l ∨ start.Bears first l
    -- From the first call on, closures may hold nodes of its text, too.
    have hfirst : (amongRegime P').store
          ((evalSource root first start).result files w).2.machine.store ∧
        FoundBy P' { file := first, source := start }
          ((evalSource root first start).result files w).1 :=
      evalSource_foundBy first start (fun c hc => (hw c hc).mono fun l hl => .inl hl)
        (fun l hl => .inr hl)
    rw [evalSources, result_bind, result_bind] at hf
    cases i with
    | zero =>
      cases hi
      have houtcome : ((evalSource root file source).result files w).1 = .error f :=
        Option.some.inj hf
      rw [houtcome] at hfirst
      obtain ⟨l, hl, hsource⟩ := hfirst.2 horigin
      exact ⟨l, hl.imp id fun hbears => ⟨0, Nat.le_refl 0, file, source, rfl, hbears⟩, hsource⟩
    | succ i =>
      obtain ⟨l, hl, hsource⟩ := ih hfirst.1 hi hf
      refine ⟨l, ?_, hsource⟩
      rcases hl with (hold | hbears) | ⟨j, hj, hborn⟩
      . exact .inl hold
      . exact .inr ⟨0, Nat.zero_le _, first, start, rfl, hbears⟩
      . exact .inr ⟨j + 1, Nat.succ_le_succ hj, hborn⟩

end Job

/--
The text that is shown with a location when a text fails that is called `file`.
-/
theorem Text.Bears.sourceFor {file file' : String} {source source' : Text} {l : Location}
    (h : source'.Bears file' l) :
    (Context.sourceFor { file, source } l = [] ∨ Context.sourceFor { file, source } l = source') ↔
      file' ≠ file ∨ source = [] ∨ source' = source := by
  unfold Context.sourceFor
  rw [h.file]
  by_cases hfile : file' = file
  . simp only [hfile, if_true, ne_eq, not_true_eq_false, false_or, eq_comm]
  . simp [hfile]

/--
Where the failure of a text comes from.
-/
def originOf : Except Failure Value → Option Origin
  | .ok _ => none
  | .error f => f.origin

/--
Source texts are evaluated in turn on one root frame, and one of them fails with an origin. Then the
origin's location is that of a node, or of an error, of a text read by then. For each text that has this
location, what is recorded as the source is that text, or nothing, if and only if the text has another name
than the one that fails, or is the same.
-/
theorem evalSources_origin (files : Files) (w : Workspace)
    (texts : List (String × Text)) {i : Nat} {file : String} {source : Text}
    (hi : texts[i]? = some (file, source)) {o : Origin} :
    let fresh : Workspace := { w with machine := { w.machine with store := {} } }
    let start := Job.newRoot.result files fresh
    ((Job.evalSources start.1 texts).result files start.2).1[i]?.bind originOf = some o →
    ∃ l, o.location = some l ∧ Job.BornBy texts i l ∧
      ∀ (j : Nat) (file' : String) (source' : Text), texts[j]? = some (file', source') →
        source'.Bears file' l →
        ((o.source = [] ∨ o.source = source') ↔ file' ≠ file ∨ source = [] ∨ source' = source) := by
  intro fresh start ho
  have hstart : (amongRegime fun _ => False).store start.2.machine.store := nofun
  obtain ⟨r, hr, ho⟩ := Option.bind_eq_some_iff.1 ho
  cases r with
  | ok v => contradiction
  | error f =>
    have horigin : f.origin = some o := ho
    have hsome : f.origin.isSome := by
      rw [horigin]
      rfl
    obtain ⟨l, hl, hfound⟩ := Job.evalSources_foundBy texts hstart hi hr hsome
    obtain rfl := Option.some.inj (horigin.symm.trans hfound)
    refine ⟨l, rfl, hl.resolve_left id, ?_⟩
    intro j file' source' _ hbears
    exact hbears.sourceFor

/--
Two inputs with the same name: the second one calls the function of the first one, which fails. The
location is in the first text, and the text that is recorded is the second one.
-/
theorem evalSources_origin_same_name :
    let first : Text := .ofChars
      ['(', 'd', 'e', 'f', ' ', 'f', ' ', '(', ')', ' ', '(', '/', ' ', '1', ' ', '0', ')', ')']
    let second : Text := .ofChars ['\n', '(', 'f', ')']
    let texts := [("a", first), ("a", second)]
    let start := Job.newRoot.result Files.none {}
    let l : Location := { file := "a", line := 1, column := 11, length := 7 }
    ((Job.evalSources start.1 texts).result Files.none start.2).1[1]?.bind originOf
        = some { location := some l, source := second } ∧
      first.Bears "a" l ∧ ¬ second.Bears "a" l ∧ ¬ (second = [] ∨ second = first) := by
  intro first second texts start l
  have horigin : ((Job.evalSources start.1 texts).result Files.none start.2).1[1]?.bind
      originOf = some { location := some l, source := second } := by
    decide +kernel
  have hsecond : ¬ second.Bears "a" l := by
    have hparse : Expr.parse "a" second.chars = .ok
        [.node (some { file := "a", line := 2, column := 1, length := 3 }) (.call "f" [])] := rfl
    unfold Text.Bears
    rw [hparse]
    simp [Expr.bears_node, Form.parts, l]
  obtain ⟨l', hl', ⟨j, hj, file, source, hmem, hbears⟩, hsource⟩ :=
    evalSources_origin Files.none {} texts rfl horigin
  obtain rfl : l = l' := Option.some.inj hl'
  -- The second text has no node there, so it is the first one that has.
  have hfirst : first.Bears "a" l := by
    match j, hj, hmem with
    | 0, _, rfl => exact hbears
    | 1, _, rfl => exact absurd hbears hsecond
  refine ⟨horigin, hfirst, hsecond, ?_⟩
  rw [hsource 0 "a" first rfl hfirst]
  decide

end LispScript
