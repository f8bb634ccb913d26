import LispScript.Program.Check
import LispScript.Proofs.Orderly
import LispScript.Proofs.Shift
import Mathlib.Data.List.Forall2

/-!
This module contains the proof that checking a file and running it agree about what is wrong with it. The
one builds its report from a file that it reads again, the other from the text at hand; and in whatever
order the tasks of a check take their steps, it tells the same.
-/

namespace LispScript

namespace Check

variable (files : Files)

/--
The forms of a file, as a check finds them.
-/
def found (path : String) : Except Failure (List (Expr Literal)) :=
  match files.run (Disk.contents path) with
  | .error e => .error { fault := .unreadableFile e }
  | .ok bytes =>
    match Expr.parse path (Text.ofBytes bytes).chars with
    | .error e => .error (.ofReadError e [])
    | .ok forms => .ok forms

/-! Tasks. -/

/--
The check of a file after so many steps of its task.
-/
def stage (path : String) : Nat → Check
  | 0 => { path }
  | n + 1 => files.run (stage path n).advance

variable {files}

theorem stage_one (path : String) :
    stage files path 1 = { path, task := .holding (files.run (Disk.contents path)) } :=
  rfl

theorem stage_two (path : String) : stage files path 2
    = match found files path with
      | .error f => { path, task := .done, failure := some f }
      | .ok forms => { path, task := .done, count := forms.length } := by
  rw [stage, stage_one, advance, found]
  cases files.run (Disk.contents path) with
  | error e => rfl
  | ok bytes =>
    dsimp only
    cases Expr.parse path (Text.ofBytes bytes).chars with
    | error e => rfl
    | ok forms => rfl

theorem stage_done (path : String) (n : Nat) : (stage files path (n + 2)).task = .done ∧
    stage files path (n + 2) = stage files path 2 := by
  induction n with
  | zero =>
    refine ⟨?_, rfl⟩
    rw [stage_two]
    split
    . rfl
    . rfl
  | succ n ih =>
    have hsame : stage files path (n + 3) = stage files path (n + 2) := by
      rw [stage, advance, ih.1]
      rfl
    rw [hsame]
    exact ih

theorem stage_of_done {path : String} {n : Nat} (h : (stage files path n).task = .done) :
    stage files path n = stage files path 2 := by
  match n with
  | 0 => cases h
  | 1 => cases h
  | n + 2 => exact (stage_done path n).2

/-! Schedules. -/

theorem advanceAll_cons (checks : List Check) (i : Nat) (schedule : List Nat) :
    files.run (advanceAll checks (i :: schedule))
      = files.run
        (advanceAll (checks.modify i fun c => files.run c.advance) schedule) := by
  rw [advanceAll, List.modify_eq_set_getElem?]
  cases checks[i]? with
  | none => rfl
  | some c => exact Files.run_bind ..

-- What a task has done does not depend on the others, but only on how many turns it has had.
theorem advanceAll_stages (paths : List String) (schedule : List Nat) (steps : Nat → Nat) :
    files.run (advanceAll (paths.mapIdx fun i path => stage files path (steps i)) schedule)
      = paths.mapIdx fun i path => stage files path (steps i + schedule.count i) := by
  induction schedule generalizing steps with
  | nil => rfl
  | cons i schedule ih =>
    let steps' (j : Nat) := if i = j then steps j + 1 else steps j
    have hmodify : (paths.mapIdx fun j path => stage files path (steps j)).modify i
          (fun c => files.run c.advance)
        = paths.mapIdx fun j path => stage files path (steps' j) := by
      apply List.ext_getElem?
      intro j
      rw [List.getElem?_modify, List.getElem?_mapIdx, List.getElem?_mapIdx]
      by_cases hij : i = j
      . simp [steps', hij, stage, Function.comp_def]
      . simp [steps', hij]
    rw [advanceAll_cons, hmodify, ih]
    congr 1
    funext j path
    congr 1
    simp only [steps', List.count_cons, beq_iff_eq]
    split <;> omega

theorem advanceAll_start (paths : List String) (schedule : List Nat) :
    files.run (advanceAll (paths.map fun path => { path }) schedule)
      = paths.mapIdx fun i path => stage files path (schedule.count i) := by
  have hstart : paths.map (fun path => ({ path } : Check))
      = paths.mapIdx fun _ path => stage files path 0 := by
    apply List.ext_getElem?
    intro i
    rw [List.getElem?_map, List.getElem?_mapIdx]
    rfl
  rw [hstart, advanceAll_stages]
  simp only [Nat.zero_add]

theorem advanceAll_done {paths : List String} {schedule : List Nat}
    (h : ∀ c ∈ files.run (advanceAll (paths.map fun path => { path }) schedule), c.task = .done) :
    files.run (advanceAll (paths.map fun path => { path }) schedule)
      = paths.map fun path => stage files path 2 := by
  rw [advanceAll_start] at h ⊢
  apply List.ext_getElem (by simp)
  intro i hi _
  have hdone := h _ (List.getElem_mem hi)
  rw [List.getElem_mapIdx] at hdone ⊢
  rw [List.getElem_map]
  exact stage_of_done hdone

theorem done_of_turns {paths : List String} {schedule : List Nat}
    (h : ∀ i < paths.length, 2 ≤ schedule.count i) :
    ∀ c ∈ files.run (advanceAll (paths.map fun path => { path }) schedule), c.task = .done := by
  intro c hc
  rw [advanceAll_start, List.mem_mapIdx] at hc
  obtain ⟨i, hi, rfl⟩ := hc
  have hturns := h i hi
  obtain ⟨n, hn⟩ := Nat.exists_eq_add_of_le' hturns
  rw [hn]
  exact (stage_done _ n).1

end Check

/-! Reports. -/

theorem Expr.file_of_parse {file : String} {text : List Char} {e : ReadError} {l : Location}
    (h : parse file text = .error e) (hl : e.location = some l) : l.file = file := by
  have hfile := parse_inFile file file text
  rw [h] at hfile
  have he : e = e.relocate (Location.inFile file) := Except.error.inj hfile
  have hl' : e.location = e.location.map (Location.inFile file) := congrArg ReadError.location he
  rw [hl] at hl'
  have heq : l = Location.inFile file l := Option.some.inj hl'
  rw [heq]
  rfl

variable {files : Files}

theorem Files.ne_empty_of_contents {path : String} {bytes : List UInt8}
    (h : files.run (Disk.contents path) = .ok bytes) : path ≠ "" := by
  rintro rfl
  obtain ⟨e, hempty⟩ := files.read_empty
  have hbytes : files.read [] = .ok bytes := h
  rw [hempty] at hbytes
  contradiction

/--
The report that is built from the file is the one that is built from the text at hand: the location of what
cannot be read is in that file, and the text is not empty, so that it is not asked for again.
-/
theorem Failure.render_again {path : String} {bytes : List UInt8} {e : ReadError}
    (hbytes : files.run (Disk.contents path) = .ok bytes)
    (herror : Expr.parse path (Text.ofBytes bytes).chars = .error e) :
    files.run (ofReadError e []).render
      = files.run (ofReadError e (Text.ofBytes bytes)).render := by
  obtain ⟨g, rest, hsource⟩ : ∃ g rest, Text.ofBytes bytes = g :: rest := by
    apply List.exists_cons_of_ne_nil
    intro hempty
    rw [hempty] at herror
    contradiction
  cases hlocation : e.location with
  | none =>
    rw [ofReadError, ofReadError, hlocation]
    rfl
  | some l =>
    have hfile : l.file = path := Expr.file_of_parse herror hlocation
    have hmissing : (ofReadError e []).missingSource? = some path := by
      simp [ofReadError, hlocation, missingSource?, hfile, Files.ne_empty_of_contents hbytes]
    have hpresent : (ofReadError e (Text.ofBytes bytes)).missingSource? = none := by
      rw [ofReadError, hlocation, hsource]
      rfl
    rw [render, render, Files.run_bind, Files.run_bind, report, report, hmissing, hpresent]
    dsimp only
    rw [Files.run_bind, hbytes]
    dsimp only [Files.run_pure]
    rw [spans, spans, source, ofReadError, ofReadError, hlocation]
    rfl

namespace Job

open Check (found)

/--
Whatever ran before it, running the file comes to the problem `p`, which is also what comes of the file
alone if it belongs to no project.
-/
def RunsInto (files : Files) (path : String) (p : Problem) : Prop :=
  ∀ showsForms w, (∀ frame, ((runProgram frame path showsForms).result files w).1 = .error p) ∧
    (files.run (Project.findConfig (Path.directory path)) = none →
      ∀ decode, ((runFile decode path showsForms).result files w).1 = .error p)

theorem runsInto_of_runProgram {path : String} {p : Problem}
    (h : ∀ frame showsForms w, ((runProgram frame path showsForms).result files w).1 = .error p) :
    RunsInto files path p := by
  intro showsForms w
  refine ⟨fun frame => h frame showsForms w, ?_⟩
  intro hnone decode
  have hconfig (w : Workspace) :
      (Project.configFor decode (Path.directory path)).result files w = (.ok none, w) := by
    rw [Project.configFor, result_bind, result_onDisk, hnone]
    rfl
  rw [runFile, result_bind, result_bind, hconfig]
  exact h _ showsForms _

theorem runsInto_of_found {path : String} {f : Failure} (h : found files path = .error f) :
    ∃ p, files.run p.render = files.run f.render ∧ RunsInto files path p := by
  have hrender (f : Failure) :
      files.run (Problem.failure f).render = files.run f.render :=
    Files.run_bind files f.render _
  unfold found at h
  cases hcontents : files.run (Disk.contents path) with
  | error e =>
    rw [hcontents] at h
    cases h
    refine ⟨.failure { fault := .unreadableFile e }, hrender _, runsInto_of_runProgram ?_⟩
    intro frame showsForms w
    rw [runProgram, result_bind, result_onDisk, hcontents]
    rfl
  | ok bytes =>
    rw [hcontents] at h
    dsimp only at h
    cases hparse : Expr.parse path (Text.ofBytes bytes).chars with
    | ok forms =>
      rw [hparse] at h
      contradiction
    | error e =>
      rw [hparse] at h
      cases h
      refine ⟨.failure (.ofReadError e (Text.ofBytes bytes)), ?_, runsInto_of_runProgram ?_⟩
      . rw [hrender, Failure.render_again hcontents hparse]
      . intro frame showsForms w
        rw [runProgram, result_bind, result_onDisk, hcontents]
        dsimp only
        rw [hparse]
        rfl

/-! Whole checks. -/

/--
How many forms a file holds, if it is there and can be read.
-/
def formCount? (files : Files) (path : String) : Option Nat :=
  match files.run (Disk.contents path) with
  | .error _ => none
  | .ok bytes =>
    match Expr.parse path (Text.ofBytes bytes).chars with
    | .error _ => none
    | .ok forms => some forms.length

theorem formCount?_eq (path : String) : formCount? files path
    = match found files path with
      | .error _ => none
      | .ok forms => some forms.length := by
  unfold formCount? found
  cases files.run (Disk.contents path) with
  | error e => rfl
  | ok bytes =>
    dsimp only
    cases Expr.parse path (Text.ofBytes bytes).chars with
    | error e => rfl
    | ok forms => rfl

theorem readForms_result (path : String) (w : Workspace) :
    (readForms path).result files w = (found files path, w) := by
  rw [readForms, result_bind, result_onDisk, found]
  dsimp only
  cases files.run (Disk.contents path) with
  | error e => rfl
  | ok bytes =>
    dsimp only
    cases Expr.parse path (Text.ofBytes bytes).chars with
    | error e => rfl
    | ok forms => rfl

/--
The lines that a check prints.
-/
def acceptances (files : Files) (paths : List String) : List String :=
  paths.filterMap fun path => (formCount? files path).map fun n => s!"{path}: {n} forms" ++ "\n"

/--
The files that have no forms.
-/
def refused (files : Files) (paths : List String) : List String :=
  paths.filter fun path => (formCount? files path).isNone

/--
What a check writes to the error stream about a problem.
-/
def complaint (files : Files) (p : Problem) : Notice :=
  .text (files.run p.render ++ Text.ofString "\n")

theorem checkFiles_result (paths : List String) (w : Workspace) :
    ∃ problems, List.Forall₂ (RunsInto files) (refused files paths) problems ∧
      (checkFiles paths).result files w
        = (problems.length,
            { w with
              machine := { w.machine with
                output := w.machine.output ++ String.join (acceptances files paths) }
              notices := (problems.map (complaint files)).reverse ++ w.notices }) := by
  induction paths generalizing w with
  | nil =>
    refine ⟨[], .nil, ?_⟩
    simp [checkFiles, acceptances, String.join]
    rfl
  | cons path rest ih =>
    rw [checkFiles, result_bind, readForms_result]
    have hcount := @formCount?_eq files path
    cases hfound : found files path with
    | ok forms =>
      rw [hfound] at hcount
      have hlines : acceptances files (path :: rest)
          = (s!"{path}: {forms.length} forms" ++ "\n") :: acceptances files rest := by
        simp [acceptances, hcount]
      have hrefused : refused files (path :: rest) = refused files rest := by
        simp [refused, hcount]
      dsimp only
      rw [result_bind, hlines, hrefused]
      obtain ⟨problems, hproblems, hrest⟩ := ih _
      refine ⟨problems, hproblems, hrest.trans ?_⟩
      rw [String.join_cons, ← String.append_assoc]
      rfl
    | error f =>
      rw [hfound] at hcount
      have hlines : acceptances files (path :: rest) = acceptances files rest := by
        simp [acceptances, hcount]
      have hrefused : refused files (path :: rest) = path :: refused files rest := by
        simp [refused, hcount]
      obtain ⟨p, hrender, hruns⟩ := runsInto_of_found hfound
      dsimp only
      rw [result_bind, result_onDisk, hlines, hrefused, ← hrender]
      dsimp only
      rw [result_bind, result_bind]
      obtain ⟨problems, hproblems, hrest⟩ := ih _
      refine ⟨p :: problems, .cons hruns hproblems, ?_⟩
      rw [hrest]
      simp [complaint]
      rfl

theorem tell_result (paths : List String) (w : Workspace) :
    (Check.tell (paths.map fun path => Check.stage files path 2)).result files w
      = (checkFiles paths).result files w := by
  induction paths generalizing w with
  | nil => rfl
  | cons path rest ih =>
    rw [List.map_cons, Check.tell, checkFiles, result_bind, readForms_result, Check.stage_two]
    cases found files path with
    | ok forms =>
      dsimp only
      rw [result_bind, result_bind, ih]
    | error f =>
      dsimp only
      rw [result_bind, result_bind, result_bind, result_bind, result_bind, result_bind, ih]

/--
What a check tells: a line for each file that holds forms, and for each of the others the problem that
running it comes to, all in the order of the files.
-/
structure Tells (files : Files) (paths : List String) (w : Workspace)
    (r : Except Problem Unit × Workspace) : Prop where
  output : r.2.machine = { w.machine with
    output := w.machine.output ++ String.join (acceptances files paths) }
  notices : ∃ problems, List.Forall₂ (RunsInto files) (refused files paths) problems ∧
    r.2.notices = (problems.map (complaint files)).reverse ++ w.notices
  success : r.1 = .ok () ↔ refused files paths = []
  failure : ∀ p, r.1 = .error p →
    p.message = s!"{(refused files paths).length} of {paths.length} files failed to parse"

theorem check_tells (paths : List String) (w : Workspace) :
    Tells files paths w ((check paths).result files w) := by
  obtain ⟨problems, hproblems, hresult⟩ := @checkFiles_result files paths w
  let failed := (refused files paths).length
  have houtcome : ((check paths).result files w).1
      = if failed = 0 then .ok () else .error (.unreadable failed paths.length) := by
    rw [check, result_bind, hresult, ← hproblems.length_eq]
    rfl
  have hafter : ((check paths).result files w).2 = ((checkFiles paths).result files w).2 := by
    rw [check, result_bind]
    rfl
  constructor
  . rw [hafter, hresult]
  . refine ⟨problems, hproblems, ?_⟩
    rw [hafter, hresult]
  . rw [houtcome, ← List.length_eq_zero_iff]
    by_cases hnone : failed = 0
    . rw [if_pos hnone]
      exact ⟨fun _ => hnone, fun _ => rfl⟩
    . rw [if_neg hnone]
      exact ⟨nofun, fun h => absurd h hnone⟩
  . intro p hp
    rw [houtcome] at hp
    split at hp
    . contradiction
    . cases hp
      exact String.append_empty

end Job

theorem check_agrees_with_run (files : Files) (paths : List String) (w : Workspace)
    {schedule : List Nat}
    (h : ∀ c ∈ files.run (Check.advanceAll (paths.map fun path => { path }) schedule),
      c.task = .done) :
    (Job.checkTogether schedule paths).result files w = (Job.check paths).result files w ∧
      Job.Tells files paths w ((Job.checkTogether schedule paths).result files w) := by
  have hsame : (Job.checkTogether schedule paths).result files w
      = (Job.check paths).result files w := by
    rw [Job.checkTogether, Job.result_bind, Job.result_onDisk, Check.advanceAll_done h, Job.result_bind,
      Job.tell_result, Job.check, Job.result_bind]
  rw [hsame]
  exact ⟨rfl, Job.check_tells paths w⟩

theorem check_agrees_with_run_twice :
    let tree : FileTree :=
      .directory [("f", .file [0x28, 0x66, 0x29, 0x20, 0x31]), ("g", .file [0x0A, 0x28, 0x67, 0x20, 0x22])]
    let files := tree.files "/"
    let paths := ["g", "f", "h", "g"]
    let schedule := [3, 1, 0, 2, 3, 2, 1, 0]
    (∀ c ∈ files.run (Check.advanceAll (paths.map fun path => { path }) schedule), c.task = .done) ∧
      Job.refused files paths = ["g", "h", "g"] ∧
      (Job.checkTogether schedule paths).result files {} = (Job.check paths).result files {} ∧
      Job.Tells files paths {} ((Job.checkTogether schedule paths).result files {}) := by
  intro tree files paths schedule
  have hdone : ∀ c ∈ files.run (Check.advanceAll (paths.map fun path => { path }) schedule),
      c.task = .done := by
    apply Check.done_of_turns
    decide
  exact ⟨hdone, rfl, check_agrees_with_run files paths {} hdone⟩

end LispScript
