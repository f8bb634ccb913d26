import LispScript.Session
import LispScript.Proofs.Isolation

/-!
This module contains what becomes of a session that is reset while its prelude fails. The session has gone
over to a new frame by then, and the prelude has been evaluated there as far as it could be, just as in the
new frame of any other workspace; the old frame is as it was, but the session has no way back to it.
-/

namespace LispScript

variable {ρ : Renaming} {files : Files} {w w' : Workspace} {root root' : Nat}

namespace Job

/-! Loading one file after another. -/

theorem loadFile_error {path : Text} {e : FileError} (h : files.read path = .error e)
    (root : Nat) (w : Workspace) :
    (loadFile root path).result files w = (.error { fault := .unreadableFile e }, w) := by
  have hread : files.run (.read path .done) = .error e := h
  rw [loadFile, result_bind, result_onDisk, hread]
  rfl

theorem loadFile_ok {path : Text} {bytes : List UInt8} (h : files.read path = .ok bytes)
    (root : Nat) (w : Workspace) :
    (loadFile root path).result files w
      = (evalSource root path.toString (Text.ofBytes bytes)).result files w := by
  have hread : files.run (.read path .done) = .ok bytes := h
  rw [loadFile, result_bind, result_onDisk, hread]

theorem loadPrelude_cons_error {path : String} {f : Failure}
    (h : ((loadFile root (Text.ofString path)).result files w).1 = .error f)
    (rest : List String) :
    (loadPrelude root (path :: rest)).result files w
      = (.error (.prelude path f), ((loadFile root (Text.ofString path)).result files w).2) := by
  rw [loadPrelude, result_bind, h]
  rfl

theorem loadPrelude_cons_ok {path : String} {v : Value}
    (h : ((loadFile root (Text.ofString path)).result files w).1 = .ok v) :
    ∃ w₁ : Workspace,
      w₁.machine = ((loadFile root (Text.ofString path)).result files w).2.machine ∧
      ∀ rest, (loadPrelude root (path :: rest)).result files w
        = (loadPrelude root rest).result files w₁ := by
  refine ⟨_, result_log files .debug "loaded prelude" [("path", path)] _, fun rest => ?_⟩
  rw [loadPrelude, result_bind, h]
  dsimp only
  rw [result_bind]

/--
A prelude fails at one of its files: those before it have been loaded, and those after it are left alone.
-/
theorem loadPrelude_error {paths : List String} {p : Problem}
    (h : (loadPrelude root paths).result files w = (.error p, w')) :
    ∃ before path after f w₁, paths = before ++ path :: after ∧ p = .prelude path f ∧
      (loadPrelude root before).result files w = (.ok (), w₁) ∧
      (loadFile root (Text.ofString path)).result files w₁ = (.error f, w') := by
  induction paths generalizing w with
  | nil => cases h
  | cons path rest ih =>
    cases hfile : ((loadFile root (Text.ofString path)).result files w).1 with
    | error f =>
      rw [loadPrelude_cons_error hfile] at h
      cases h
      exact ⟨[], path, rest, f, w, rfl, rfl, rfl, Prod.ext hfile rfl⟩
    | ok v =>
      obtain ⟨w₁, _, hrest⟩ := loadPrelude_cons_ok hfile
      rw [hrest] at h
      obtain ⟨before, path', after, f, w₂, rfl, hp, hbefore, hfails⟩ := ih h
      refine ⟨path :: before, path', after, f, w₂, rfl, hp, ?_, hfails⟩
      rw [hrest, hbefore]

/-! Loading in two workspaces. -/

theorem loadFile_twin (files : Files) (path : Text) (hroot : ρ .frames root root')
    (hw : w.machine.Alike .exact ρ w'.machine) :
    ∃ ρ', w.machine.Passage .exact ρ ρ' w'.machine
        ((loadFile root path).result files w).2.machine
        ((loadFile root' path).result files w').2.machine ∧
      OutcomeAlike .exact ρ' ((loadFile root path).result files w).1
        ((loadFile root' path).result files w').1 := by
  cases hread : files.read path with
  | error e =>
    rw [loadFile_error hread, loadFile_error hread]
    exact ⟨ρ, .refl hw, .error (.refl _ _)⟩
  | ok bytes =>
    rw [loadFile_ok hread, loadFile_ok hread]
    exact evalSource_twin (fun _ _ e _ => e.mentions_exact) hroot hw

theorem loadPrelude_twin (files : Files) (paths : List String)
    (hroot : ρ .frames root root')
    (hw : w.machine.Alike .exact ρ w'.machine) :
    ∃ ρ', w.machine.Passage .exact ρ ρ' w'.machine
        ((loadPrelude root paths).result files w).2.machine
        ((loadPrelude root' paths).result files w').2.machine ∧
      ((loadPrelude root paths).result files w).1
        = ((loadPrelude root' paths).result files w').1 := by
  induction paths generalizing ρ w w' with
  | nil => exact ⟨ρ, .refl hw, rfl⟩
  | cons path rest ih =>
    obtain ⟨ρ₁, hpassage, houtcome⟩ := loadFile_twin files (Text.ofString path) hroot hw
    generalize hr : ((loadFile root (Text.ofString path)).result files w).1 = r at houtcome
    generalize hr' : ((loadFile root' (Text.ofString path)).result files w').1 = r' at houtcome
    cases houtcome with
    | error hf =>
      rw [loadPrelude_cons_error hr, loadPrelude_cons_error hr', hf.placed trivial]
      exact ⟨ρ₁, hpassage, rfl⟩
    | ok _ =>
      obtain ⟨w₁, hw₁, hrest⟩ := loadPrelude_cons_ok hr
      obtain ⟨w₁', hw₁', hrest'⟩ := loadPrelude_cons_ok hr'
      rw [← hw₁, ← hw₁'] at hpassage
      rw [hrest, hrest']
      obtain ⟨ρ₂, hpassage₂, hsame⟩ := ih (hpassage.store.le _ _ _ hroot) hpassage.alike
      exact ⟨ρ₂, hpassage.trans hpassage₂, hsame⟩

end Job

namespace Session

variable {s : Session} {p : Problem}

/-! Starting over. -/

/--
The files of the prelude.
-/
def preludeFiles (s : Session) : List String :=
  match s.config with
  | none => []
  | some (path, config) => Project.preludePaths path config

theorem restart_result (s : Session) (w : Workspace) :
    s.restart.result files w
      = let root := Job.newRoot.result files w
        let loaded := (Job.loadPrelude root.1 s.preludeFiles).result files root.2
        (({ s with frame := root.1 }, loaded.1), loaded.2) := by
  unfold restart
  rw [Job.result_bind]
  dsimp only
  cases hconfig : s.config with
  | none =>
    rw [preludeFiles, hconfig]
    rfl
  | some c =>
    rw [preludeFiles, hconfig]
    dsimp only
    rw [Job.result_bind]
    rfl

/--
The session `s`, in the workspace `w`, has started over as `s'`, and the prelude has been loaded with the
given outcome, which leaves the store `t`.
-/
structure StartsOver (files : Files) (s : Session) (w : Workspace)
    (outcome : Except Problem Unit) (s' : Session) (t : Store) : Prop where
  config : s'.config = s.config
  showsForms : s'.showsForms = s.showsForms
  frame : w.machine.store.frames.size ≤ s'.frame
  /-- Whatever was there is as it was, the old frame included. -/
  spares : w.machine.store.Spares (fun _ _ => False) t
  /-- The prelude makes the same bindings, with the same outcome, in any new frame. -/
  bindings : ∀ w' : Workspace, w'.machine.streams = w.machine.streams →
    let root := Job.newRoot.result files w'
    let loaded := (Job.loadPrelude root.1 s.preludeFiles).result files root.2
    loaded.1 = outcome ∧
      ∃ ρ, t.Alike .exact ρ loaded.2.machine.store ∧ ρ .frames s'.frame root.1 ∧
        EntriesAlike ρ (t.bindings s'.frame) (loaded.2.machine.store.bindings root.1)

/--
New frames are alike in all workspaces that read and print alike.
-/
theorem newRoot_alike (files : Files) (h : w.machine.streams = w'.machine.streams) :
    let root := Job.newRoot.result files w
    let root' := Job.newRoot.result files w'
    root.2.machine.Alike .exact (.single root.1 root'.1) root'.2.machine where
  store := Store.alike_single (w.machine.store.addFrame_adds none).lt
    (w'.machine.store.addFrame_adds none).lt (w.machine.store.frame_addFrame none)
    (w'.machine.store.frame_addFrame none)
  output := congrArg Streams.output h
  input := congrArg Streams.input h
  muted := congrArg Streams.muted h

theorem restart_startsOver (files : Files) (s : Session) (w : Workspace) :
    let r := s.restart.result files w
    StartsOver files s w r.1.2 r.1.1 r.2.machine.store := by
  rw [restart_result]
  have hroot {w' : Workspace} : Renaming.single (Job.newRoot.result files w).1
      (Job.newRoot.result files w').1 .frames _ _ := ⟨rfl, rfl, rfl⟩
  refine ⟨rfl, rfl, Nat.le_refl _, ?_, ?_⟩
  . obtain ⟨ρ, hpassage, _⟩ := Job.loadPrelude_twin files s.preludeFiles hroot
      (newRoot_alike files (w := w) rfl)
    apply ((w.machine.store.addFrame_adds none).spares fun _ _ => False).trans hpassage.store.left
    rintro k a ha ⟨b, rfl, rfl, _⟩
    exact Nat.lt_irrefl _ ha
  . intro w' hstreams root loaded
    obtain ⟨ρ, hpassage, hsame⟩ := Job.loadPrelude_twin files s.preludeFiles hroot
      (newRoot_alike files hstreams.symm)
    have hframes := hpassage.store.le _ _ _ hroot
    refine ⟨hsame.symm, ρ, hpassage.alike.store, hframes, ?_⟩
    exact hpassage.alike.store.bindings (fun _ => rfl) hframes

theorem complain_machine (files : Files) (p : Problem) (w : Workspace) :
    ((complain p).result files w).2.machine = w.machine := by
  unfold complain
  split
  . rw [Job.result_bind, Job.result_onDisk]
    rfl
  . rfl

theorem handle_reset_error {input : Text} (hinput : Input.ofText input = .command .reset)
    (hfails : (s.restart.result files w).1.2 = .error p) :
    (s.handle input).result files w
      = (some (s.restart.result files w).1.1,
        ((complain p).result files (s.restart.result files w).2).2) := by
  simp only [handle, hinput, obey]
  rw [Job.result_bind, hfails]
  dsimp only
  rw [Job.result_bind]
  rfl

/--
A session that is reset while its prelude fails complains and goes on in a new frame. The frame has the
bindings that the prelude makes in any new frame before it fails, and nothing that was there has changed.
-/
theorem reset_failed {input : Text} (hinput : Input.ofText input = .command .reset)
    (hfails : (s.restart.result files w).1.2 = .error p) :
    let root := Job.newRoot.result files w
    let after := (s.handle input).result files w
    after.2 = ((complain p).result files (s.restart.result files w).2).2 ∧
      (∃ before path rest f w₁, s.preludeFiles = before ++ path :: rest ∧ p = .prelude path f ∧
        (Job.loadPrelude root.1 before).result files root.2 = (.ok (), w₁) ∧
        ((Job.loadFile root.1 (Text.ofString path)).result files w₁).1 = .error f) ∧
      ∃ s', after.1 = some s' ∧
        StartsOver files s w (.error p) s' after.2.machine.store := by
  intro root after
  have hafter : after = _ := handle_reset_error hinput hfails
  have hover := restart_startsOver files s w
  rw [hafter]
  refine ⟨rfl, ?_, _, rfl, ?_⟩
  . rw [restart_result] at hfails
    obtain ⟨before, path, rest, f, w₁, hfiles, hp, hbefore, hfile⟩ :=
      Job.loadPrelude_error (Prod.ext hfails rfl)
    exact ⟨before, path, rest, f, w₁, hfiles, hp, hbefore, congrArg Prod.fst hfile⟩
  . rw [complain_machine, ← hfails]
    exact hover

theorem exists_error {r : Except Problem Unit} (h : r.isOk = false) : ∃ p, r = .error p := by
  cases r with
  | ok => contradiction
  | error p => exact ⟨p, rfl⟩

/--
A file of the prelude binds `a`, and the next one is missing: the session forgets `x`.
-/
theorem reset_failed_forgets :
    let tree : FileTree := .directory [("p", .file (Text.ofChars
      ['(', 'v', 'a', 'r', ' ', 'a', ' ', '2', ')']).bytes)]
    let files := tree.files "/"
    let s : Session := { config := some ("/c", { prelude := ["/p", "/q"] }), frame := 0 }
    let w : Workspace :=
      { machine := { store := { frames := #[{ parent := none, bindings := [("x", .integer 1)] }] } } }
    let after := (s.handle (Text.ofString ":reset")).result files w
    (∃ p, (s.restart.result files w).1.2 = .error p) ∧
      ∃ s', after.1 = some s' ∧
        after.2.machine.store.bindings s'.frame ≠ w.machine.store.bindings s.frame := by
  intro tree files s w after
  refine ⟨exists_error (by decide +kernel), ?_⟩
  have hbefore : (w.machine.store.bindings s.frame).map Prod.fst = ["x"] := by decide +kernel
  have hafter : (after.1.map fun s' => (after.2.machine.store.bindings s'.frame).map Prod.fst)
      = some ["a"] := by
    decide +kernel
  obtain ⟨s', hs', hnames⟩ := Option.map_eq_some_iff.1 hafter
  refine ⟨s', hs', fun heq => ?_⟩
  rw [heq, hbefore] at hnames
  contradiction

theorem reset_failed_missing :
    let tree : FileTree := .directory [("p", .file (Text.ofChars
      ['(', 'v', 'a', 'r', ' ', 'a', ' ', '2', ')']).bytes)]
    let files := tree.files "/"
    let s : Session := { config := some ("/c", { prelude := ["/p", "/q"] }), frame := 0 }
    let w : Workspace :=
      { machine := { store := { frames := #[{ parent := none, bindings := [("x", .integer 1)] }] } } }
    let after := (s.handle (Text.ofString ":reset")).result files w
    Input.ofText (Text.ofString ":reset") = .command .reset ∧
      ∃ p, (s.restart.result files w).1.2 = .error p ∧
        ∃ s', after.1 = some s' ∧
          StartsOver files s w (.error p) s' after.2.machine.store := by
  intro tree files s w after
  have hinput : Input.ofText (Text.ofString ":reset") = .command .reset := rfl
  obtain ⟨p, hp⟩ : ∃ p, (s.restart.result files w).1.2 = .error p :=
    exists_error (by decide +kernel)
  exact ⟨hinput, p, hp, (reset_failed hinput hp).2.2⟩

end Session

end LispScript
