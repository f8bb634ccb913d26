import LispScript.Proofs.Inputs
import LispScript.Proofs.Taking
import LispScript.Toml.Config

/-!
This module contains the proof that a dialogue makes one use of each line: it is a line of an input that is
handled, or it is what a program reads. The lines are used in the order in which they come, and the console
gives each of them to the one who asks for it.
-/

namespace LispScript

/--
What lines are used for.
-/
inductive Use where
  /-- They make up an input, which is handled. -/
  | input (lines : List Text)
  /-- A program reads one, unless the stream has ended. -/
  | reading (line : Option Text)
  /-- The stream ends before the input does that they begin. -/
  | unfinished (lines : List Text)

namespace Use

def lines : Use → List Text
  | input lines | unfinished lines => lines
  | reading line => line.toList

/--
What the console is asked for.
-/
def requests : Use → List (Asker × Option Text)
  | input lines => lines.map fun line => (.prompt, some line)
  | reading line => [(.program, line)]
  | unfinished lines => (lines.map fun line => (.prompt, some line)) ++ [(.prompt, none)]

theorem lines_eq (uses : List Use) :
    ((uses.flatMap requests).map Prod.snd).reduceOption = uses.flatMap lines := by
  induction uses with
  | nil => rfl
  | cons use uses ih =>
    rw [List.flatMap_cons, List.map_append, List.reduceOption_append, ih, List.flatMap_cons]
    congr 1
    cases use with
    | input lines => simp [requests, Use.lines, List.reduceOption]
    | reading line => cases line <;> rfl
    | unfinished lines => simp [requests, Use.lines, List.reduceOption]

theorem requests_readings (given : List (Option Text)) :
    ((given.map reading).flatMap requests).map Prod.snd = given := by
  induction given with
  | nil => rfl
  | cons line given ih => simpa [requests] using ih

end Use

def Workspace.withInput (w : Workspace) (lines : List Text) : Workspace :=
  { w with machine := { w.machine with input := lines } }

namespace Job

/-! Jobs that have nothing to do with the input. -/

/--
The job does the same whatever lines there are to be read, and leaves them.
-/
def Idle {α : Type} (files : Files) (j : Job α) : Prop :=
  ∀ w lines, j.result files (w.withInput lines)
    = ((j.result files w).1, (j.result files w).2.withInput lines)

variable {files : Files} {α β : Type}

namespace Idle

theorem pure (a : α) : Idle files (Pure.pure a) :=
  fun _ _ => rfl

theorem bind {j : Job α} {f : α → Job β} (hj : Idle files j)
    (hf : ∀ a, Idle files (f a)) : Idle files (j >>= f) := by
  intro w lines
  rw [result_bind, result_bind, hj w lines, hf]

theorem input_eq {j : Job α} (h : Idle files j) (w : Workspace) :
    (j.result files w).2.machine.input = w.machine.input := by
  have hsame : j.result files w = (_, (j.result files w).2.withInput w.machine.input) :=
    h w w.machine.input
  rw [hsame]
  rfl

theorem onDisk (d : Disk α) : Idle files (Job.onDisk d) := by
  intro w lines
  rw [result_onDisk, result_onDisk]

theorem onStore (f : Store → α × Store) : Idle files (Job.onStore f) :=
  fun _ _ => rfl

theorem store : Idle files Job.store :=
  fun _ _ => rfl

theorem print (text : String) : Idle files (Job.print text) :=
  fun _ _ => rfl

theorem println (text : String) : Idle files (Job.println text) :=
  print _

theorem printError (t : Text) : Idle files (Job.printError t) :=
  fun _ _ => rfl

theorem log (level : LogLevel) (message : String) (fields : List (String × String)) :
    Idle files (Job.log level message fields) := by
  intro w lines
  obtain ⟨machine, notices, verbose⟩ := w
  cases level <;> cases verbose <;> rfl

theorem forM {as : List α} {f : α → Job PUnit} (h : ∀ a, Idle files (f a)) :
    Idle files (as.forM f) := by
  induction as with
  | nil => exact pure _
  | cons a as ih => exact bind (h a) fun _ => ih

end Idle

theorem complain_idle (p : Problem) : Idle files (Session.complain p) := by
  unfold Session.complain
  split
  . exact .bind (.onDisk _) fun t => .printError t
  . exact .printError _

theorem showOutcome_idle (r : Except Failure Value) : Idle files (Session.showOutcome r) := by
  unfold Session.showOutcome
  split
  . exact .bind .store fun _ => .println _
  . exact complain_idle _

theorem configFor_idle (decode : Config.Decoder) (dir : String) :
    Idle files (Project.configFor decode dir) := by
  apply Idle.bind (.onDisk _)
  intro path
  split
  . exact .pure _
  . apply Idle.bind
    . apply Idle.bind (.onDisk _)
      intro contents
      split
      . exact .pure _
      . split
        . exact .pure _
        . split
          . exact .bind (.log _ _ _) fun _ => .pure _
          . exact .bind (.pure _) fun _ => .pure _
    . intro config
      split
      . exact .pure _
      . exact .pure _

theorem loadHistory_idle (path : String) : Idle files (Dialogue.loadHistory path) := by
  apply Idle.bind (.onDisk _)
  intro contents
  split
  . split
    . exact .bind (.log _ _ _) fun _ => .pure _
    . exact .bind (.pure _) fun _ => .pure _
  . dsimp only
    split
    . exact .bind (.log _ _ _) fun _ => .pure _
    . exact .pure _

theorem saveHistory_idle (path : String) (history : History) :
    Idle files (Dialogue.saveHistory path history) := by
  apply Idle.bind (.onDisk _)
  intro entry
  split
  . exact .bind (.log _ _ _) fun _ => .pure _
  . exact .pure _

/-! Jobs that use lines. -/

/--
In the course of a job, the lines that it takes are put to the uses `uses`. An input is the first lines that
are left, and it is handed on to the session as it is.
-/
inductive Uses (files : Files) :
    {α : Type} → Job α → Workspace → List Use → Prop where
  | idle {α : Type} {j : Job α} {w : Workspace} (h : Idle files j) : Uses files j w []
  | look {w : Workspace} : Uses files get w []
  | evaluate {context : Context} {frame : Nat} {e : Expr Value} {w : Workspace}
      {given : List (Option Text)} (h : ReadsLines context unbounded frame e w.machine given) :
      Uses files (onMachine (·.evaluate context frame e)) w (given.map .reading)
  | handle {α : Type} {prompt : String} {s : Session} {k : Option Text → Job α}
      {k' : Option Session → Job α} {w w' : Workspace} {lines : List Text} {uses : List Use}
      (hne : lines ≠ []) (hlines : w.machine.input = lines ++ w'.machine.input)
      (hnext : (Dialogue.nextInput prompt).result files w = (some (Text.ofLines lines), w'))
      (hk : k (some (Text.ofLines lines)) = s.handle (Text.ofLines lines) >>= k')
      (huses : Uses files (s.handle (Text.ofLines lines) >>= k') w' uses) :
      Uses files (Dialogue.nextInput prompt >>= k) w (.input lines :: uses)
  | ended {prompt : String} {w w' : Workspace} {lines : List Text} (hlines : w.machine.input = lines)
      (hunfinished : lines = [] ∨ Dialogue.isUnfinished (Text.ofLines lines))
      (hnext : (Dialogue.nextInput prompt).result files w = (none, w')) :
      Uses files (Dialogue.nextInput prompt) w [.unfinished lines]
  | bind {α β : Type} {j : Job α} {f : α → Job β} {w : Workspace} {uses more : List Use}
      (hj : Uses files j w uses)
      (hf : Uses files (f (j.result files w).1) (j.result files w).2 more) :
      Uses files (j >>= f) w (uses ++ more)

theorem nextInput_result (prompt : String) (w : Workspace) :
    ((Dialogue.nextInput prompt).result files w).1 = (Dialogue.read [] w.machine.input).input ∧
      ((Dialogue.nextInput prompt).result files w).2.machine.input
        = (Dialogue.read [] w.machine.input).rest :=
  ⟨rfl, rfl⟩

theorem read_rest_of_none {before : Text} {lines : List Text}
    (h : (Dialogue.read before lines).input = none) : (Dialogue.read before lines).rest = [] := by
  induction lines generalizing before with
  | nil => rfl
  | cons line rest ih =>
    unfold Dialogue.read at h ⊢
    dsimp only at h ⊢
    split at h
    . next hunfinished =>
      rw [if_pos hunfinished]
      exact ih h
    . contradiction

theorem Uses.takes {j : Job α} {w : Workspace} {uses : List Use} (h : Uses files j w uses) :
    Takes ((uses.flatMap Use.requests).map Prod.snd) w.machine.input
      (j.result files w).2.machine.input := by
  induction h with
  | @idle _ j w hidle =>
    rw [hidle.input_eq]
    exact .done
  | look => exact .done
  | @evaluate context frame e w given h =>
    rw [Use.requests_readings, result_onMachine]
    dsimp only
    rw [Machine.evaluate_machine]
    exact h.takes
  | @handle _ prompt s k k' w w' lines uses hne hlines hnext hk _ ih =>
    rw [result_bind, hnext, List.flatMap_cons, List.map_append]
    dsimp only
    rw [hk, hlines]
    have hinput : (Use.input lines).requests.map Prod.snd = lines.map some := by
      simp [Use.requests]
    rw [hinput]
    exact (Takes.all lines _).append ih
  | @ended prompt w w' lines hlines hunfinished hnext =>
    obtain ⟨hinput, hrest⟩ := @nextInput_result files prompt w
    have hnone : (Dialogue.read [] w.machine.input).input = none := by
      rw [← hinput, hnext]
    rw [hrest, read_rest_of_none hnone, hlines]
    have hrequests : ([Use.unfinished lines].flatMap Use.requests).map Prod.snd
        = lines.map some ++ [none] := by
      simp [Use.requests]
    rw [hrequests]
    have htakes := (Takes.all lines []).append (.ended .done)
    rwa [List.append_nil] at htakes
  | bind _ _ ihj ihf =>
    rw [result_bind, List.flatMap_append, List.map_append]
    exact ihj.append ihf

/--
It can be told what lines the job uses, from whatever workspace it starts.
-/
def Accounted (files : Files) (j : Job α) : Prop :=
  ∀ w, ∃ uses, Uses files j w uses

theorem Idle.accounted {j : Job α} (h : Idle files j) : Accounted files j :=
  fun _ => ⟨[], .idle h⟩

namespace Accounted

theorem pure (a : α) : Accounted files (Pure.pure a) :=
  (Idle.pure a).accounted

theorem bind {j : Job α} {f : α → Job β} (hj : Accounted files j)
    (hf : ∀ a, Accounted files (f a)) : Accounted files (j >>= f) := by
  intro w
  obtain ⟨uses, huses⟩ := hj w
  obtain ⟨more, hmore⟩ := hf (j.result files w).1 (j.result files w).2
  exact ⟨uses ++ more, .bind huses hmore⟩

theorem look : Accounted files get :=
  fun _ => ⟨[], .look⟩

theorem evaluate (context : Context) (frame : Nat) (e : Expr Value) :
    Accounted files (onMachine (·.evaluate context frame e)) := by
  intro w
  obtain ⟨given, hgiven⟩ := eval_readsLines context unbounded frame e w.machine
  exact ⟨given.map .reading, .evaluate hgiven⟩

end Accounted

theorem evalForms_go_accounted (context : Context) (frame : Nat) (last : Value)
    (forms : List (Expr Value)) : Accounted files (evalForms.go context frame last forms) := by
  induction forms generalizing last with
  | nil => exact .pure _
  | cons e rest ih =>
    apply Accounted.bind (.evaluate context frame e)
    intro r
    split
    . exact .pure _
    . apply Accounted.bind .look
      intro w
      split
      . exact .bind Idle.store.accounted fun _ => .bind (Idle.log _ _ _).accounted fun _ => ih _
      . exact ih _

theorem evalSource_accounted (frame : Nat) (file : String) (source : Text) :
    Accounted files (evalSource frame file source) := by
  unfold evalSource
  split
  . exact .pure _
  . apply Accounted.bind (Idle.onStore _).accounted
    intro forms
    exact evalForms_go_accounted _ frame .null forms

theorem loadFile_accounted (frame : Nat) (path : Text) :
    Accounted files (loadFile frame path) := by
  apply Accounted.bind (Idle.onDisk _).accounted
  intro contents
  split
  . exact .pure _
  . exact evalSource_accounted frame _ _

theorem loadPrelude_accounted (frame : Nat) (paths : List String) :
    Accounted files (loadPrelude frame paths) := by
  induction paths with
  | nil => exact .pure _
  | cons path rest ih =>
    apply Accounted.bind (loadFile_accounted frame _)
    intro r
    split
    . exact .pure _
    . exact .bind (Idle.log _ _ _).accounted fun _ => ih

end Job

namespace Session

open Job

variable {files : Files}

theorem restart_accounted (s : Session) : Accounted files s.restart := by
  apply Accounted.bind (Idle.onStore _).accounted
  intro frame
  dsimp only
  split
  . exact .pure _
  . exact .bind (loadPrelude_accounted frame _) fun _ => .pure _

theorem start_accounted (config : Option (String × Config)) (showsForms : Bool) :
    Accounted files (start config showsForms) :=
  .bind (restart_accounted _) fun _ => .pure _

theorem eval_accounted (s : Session) (source : Text) : Accounted files (s.eval source) := by
  have hshown : Accounted files (evalSource s.frame fileName source >>= showOutcome) :=
    .bind (evalSource_accounted _ _ _) fun r => (showOutcome_idle r).accounted
  unfold eval
  split
  . split
    . exact .bind (Idle.println _).accounted fun _ => hshown
    . exact hshown
  . exact hshown

theorem obey_accounted (s : Session) (c : Command) : Accounted files (s.obey c) := by
  have hsay (tint : Tint) (text : String) (s : Session) :
      Accounted files (say tint text >>= fun _ => pure (some s)) :=
    .bind (Idle.println _).accounted fun _ => .pure _
  cases c with
  | leave => exact .pure _
  | help =>
    apply Accounted.bind (Idle.println _).accounted
    intro _
    exact .bind (Idle.forM fun _ => .println _).accounted fun _ => .pure _
  | load path =>
    apply Accounted.bind (loadFile_accounted s.frame path)
    intro r
    exact .bind (showOutcome_idle r).accounted fun _ => .pure _
  | env =>
    apply Accounted.bind Idle.store.accounted
    intro store
    exact .bind (Idle.forM fun _ => .println _).accounted fun _ => .pure _
  | reset =>
    apply Accounted.bind (restart_accounted s)
    intro r
    dsimp only
    split
    . exact hsay _ _ _
    . exact .bind (complain_idle _).accounted fun _ => .pure _
  | debug => exact hsay _ _ _
  | empty => exact hsay _ _ _
  | badLoad => exact hsay _ _ _
  | unknown name => exact hsay _ _ _

theorem handle_accounted (s : Session) (input : Text) : Accounted files (s.handle input) := by
  unfold handle
  split
  . exact .pure _
  . exact obey_accounted s _
  . exact .bind (eval_accounted s input) fun _ => .pure _

theorem isSome_bind {α : Type} {j : Job α} {f : α → Job (Option Session)} {w : Workspace}
    (h : ∀ a w, ((f a).result files w).1.isSome) : ((j >>= f).result files w).1.isSome := by
  rw [result_bind]
  apply h

theorem obey_isSome {c : Command} (hc : c ≠ .leave) (s : Session) (w : Workspace) :
    ((s.obey c).result files w).1.isSome := by
  cases c with
  | leave => contradiction
  | help => exact isSome_bind fun _ _ => isSome_bind fun _ _ => rfl
  | load path => exact isSome_bind fun _ _ => isSome_bind fun _ _ => rfl
  | env => exact isSome_bind fun _ _ => isSome_bind fun _ _ => rfl
  | reset =>
    apply isSome_bind
    rintro ⟨s, r⟩ w
    cases r with
    | ok a => exact isSome_bind fun _ _ => rfl
    | error p => exact isSome_bind fun _ _ => rfl
  | _ => exact isSome_bind fun _ _ => rfl

theorem leave_of_handle {s : Session} {input : Text} {w : Workspace}
    (h : ((s.handle input).result files w).1 = none) :
    Input.ofText input = .command .leave := by
  unfold handle at h
  split at h
  . contradiction
  . next c hinput =>
    rw [hinput]
    apply congrArg Input.command
    apply Classical.byContradiction
    intro hc
    have hsome := @obey_isSome files c hc s w
    rw [h] at hsome
    contradiction
  . have hsome := @isSome_bind files _ (s.eval input) (fun _ => pure (some s)) w fun _ _ => rfl
    rw [h] at hsome
    contradiction

theorem handle_leave {input : Text} (h : Input.ofText input = .command .leave) (s : Session) :
    s.handle input = pure none := by
  unfold handle
  rw [h]
  rfl

end Session

namespace Dialogue

open Job

variable {files : Files}

/--
The dialogue goes on until no line is left or it is left by a command, which is the last input then.
-/
def Ends (uses : List Use) (rest : List Text) : Prop :=
  rest = [] ∨ ∃ before lines, uses = before ++ [.input lines] ∧
    Session.Input.ofText (Text.ofLines lines) = .command .leave

theorem Ends.append {uses : List Use} {rest : List Text} (h : Ends uses rest) (before : List Use) :
    Ends (before ++ uses) rest := by
  rcases h with h | ⟨between, lines, rfl, hleave⟩
  . exact .inl h
  . exact .inr ⟨before ++ between, lines, by simp, hleave⟩

theorem nextInput_none {prompt : String} {w w' : Workspace}
    (h : (nextInput prompt).result files w = (none, w')) :
    Uses files (nextInput prompt) w [.unfinished w.machine.input] ∧ w'.machine.input = [] := by
  obtain ⟨hinput, hrest⟩ := @nextInput_result files prompt w
  rw [h] at hinput hrest
  refine ⟨.ended rfl ?_ h, hrest.trans (read_rest_of_none hinput.symm)⟩
  by_cases hnil : w.machine.input = []
  . exact .inl hnil
  . have hcovers := @read_covers w.machine.input [] (.inl rfl) hnil
    cases hcovers with
    | input _ _ hsome _ =>
      have hcontra := hinput.trans hsome
      contradiction
    | short _ hunfinished => exact .inr hunfinished

theorem nextInput_some {prompt : String} {w w' : Workspace} {input : Text}
    (h : (nextInput prompt).result files w = (some input, w')) :
    ∃ lines, lines ≠ [] ∧ input = Text.ofLines lines ∧ w.machine.input = lines ++ w'.machine.input := by
  obtain ⟨hinput, hrest⟩ := @nextInput_result files prompt w
  rw [h] at hinput hrest
  have hne : w.machine.input ≠ [] := by
    intro hnil
    rw [hnil] at hinput
    cases hinput
  have hcovers := @read_covers w.machine.input [] (.inl rfl) hne
  cases hcovers with
  | input hlines hused hsome _ =>
    have heq := hinput.trans hsome
    cases heq
    exact ⟨_, hused, rfl, by rw [hrest]; exact hlines⟩
  | short hnone _ =>
    have hcontra := hinput.trans hnone
    contradiction

-- Each turn takes a line at least, so that the bound is never what ends the dialogue.
theorem handleInputs_uses (prompt : String) (history : History) (s : Session) {most : Nat}
    {w : Workspace} (hmost : w.machine.input.length < most) :
    ∃ uses, Uses files (handleInputs prompt history s most) w uses ∧
      Ends uses ((handleInputs prompt history s most).result files w).2.machine.input := by
  induction most generalizing history s w with
  | zero => contradiction
  | succ most ih =>
    unfold handleInputs
    obtain ⟨input, w', hnext⟩ : ∃ input w', (nextInput prompt).result files w = (input, w') :=
      ⟨_, _, rfl⟩
    rw [result_bind, hnext]
    cases input with
    | none =>
      obtain ⟨huses, hrest⟩ := nextInput_none hnext
      refine ⟨_, .bind huses (.idle ?_), .inl hrest⟩
      rw [hnext]
      exact .bind (.println _) fun _ => .pure _
    | some input =>
      obtain ⟨lines, hne, rfl, hlines⟩ := nextInput_some hnext
      obtain ⟨next, w'', hhandle⟩ : ∃ next w'',
          (s.handle (Text.ofLines lines)).result files w' = (next, w'') := ⟨_, _, rfl⟩
      dsimp only
      rw [result_bind, hhandle]
      cases next with
      | none =>
        have hleave : Session.Input.ofText (Text.ofLines lines) = .command .leave := by
          apply Session.leave_of_handle (w := w')
          rw [hhandle]
        refine ⟨_, .handle hne hlines hnext rfl (.bind (.idle ?_) (.idle ?_)),
          .inr ⟨[], lines, rfl, hleave⟩⟩
        . rw [Session.handle_leave hleave]
          exact .pure none
        . rw [hhandle]
          exact .pure _
      | some s' =>
        obtain ⟨uses, huses⟩ := @Session.handle_accounted files s (Text.ofLines lines) w'
        have hless : w''.machine.input.length < most := by
          have hle := huses.takes.length_le
          have hpos := List.length_pos_iff.2 hne
          rw [hhandle] at hle
          rw [hlines, List.length_append] at hmost
          dsimp only at hle
          omega
        let history' := if (Text.ofLines lines).trim.isEmpty then history
          else history.add (History.entry (Text.ofLines lines))
        obtain ⟨more, hmore, hends⟩ := ih history' s' hless
        refine ⟨.input lines :: (uses ++ more), .handle hne hlines hnext rfl (.bind huses ?_),
          hends.append (.input lines :: uses)⟩
        rw [hhandle]
        exact hmore

/--
The dialogue ends as it should, unless it cannot be begun.
-/
def Concludes {α : Type} (files : Files) (j : Job (Except Problem α)) : Prop :=
  ∀ w, ∃ uses, Uses files j w uses ∧
    ((∃ p, (j.result files w).1 = .error p) ∨
      Ends uses (j.result files w).2.machine.input)

theorem Concludes.bind {α β : Type} {j : Job α} {f : α → Job (Except Problem β)}
    (hj : Accounted files j) (hf : ∀ a, Concludes files (f a)) :
    Concludes files (j >>= f) := by
  intro w
  obtain ⟨uses, huses⟩ := hj w
  obtain ⟨more, hmore, hends⟩ := hf (j.result files w).1 (j.result files w).2
  refine ⟨uses ++ more, .bind huses hmore, ?_⟩
  rw [result_bind]
  exact hends.imp_right fun h => h.append uses

theorem hold_concludes {α : Type} (prompt : String) (history : History) (s : Session)
    {k : History → Job (Except Problem α)} (hk : ∀ history, Idle files (k history)) :
    Concludes files (hold prompt history s >>= k) := by
  intro w
  obtain ⟨uses, hhold, hends⟩ : ∃ uses, Uses files (hold prompt history s) w uses ∧
      Ends uses ((hold prompt history s).result files w).2.machine.input := by
    unfold hold
    rw [result_bind]
    obtain ⟨uses, huses, hends⟩ := handleInputs_uses prompt history s (Nat.lt_succ_self _)
    exact ⟨uses, .bind (.idle (.println _)) (.bind .look huses), hends⟩
  have hk' := Uses.bind hhold (.idle (hk _))
  rw [List.append_nil] at hk'
  refine ⟨uses, hk', .inr ?_⟩
  rw [result_bind, (hk _).input_eq]
  exact hends

theorem run_concludes (decode : Config.Decoder) (historyPath : String) (showsForms : Bool) :
    Concludes files (run decode historyPath showsForms) := by
  apply Concludes.bind (Idle.onDisk _).accounted
  intro dir
  apply Concludes.bind (configFor_idle decode dir).accounted
  intro found
  extract_lets go
  have hgo (config : Option (String × Config)) : Concludes files (go config) := by
    apply Concludes.bind (Session.start_accounted config showsForms)
    intro started
    split
    . intro w
      exact ⟨[], .idle (.pure _), .inl ⟨_, rfl⟩⟩
    . dsimp only
      split
      . exact hold_concludes _ _ _ fun _ => .pure _
      . apply Concludes.bind (loadHistory_idle _).accounted
        intro history
        exact hold_concludes _ _ _ fun history => .bind (saveHistory_idle _ history) fun _ => .pure _
  split
  . exact hgo _
  . exact .bind (Idle.log _ _ _).accounted fun _ => hgo none

/--
What a dialogue does with the lines of the terminal, if `rest` are those that are left in the end. Each of
the others has one use, and the uses come in the order of the lines; the console gives each line to the one
who asks for it, however many bytes the reader takes at a time.
-/
structure Faithful {α : Type} (files : Files) (j : Job (Except Problem α))
    (w : Workspace) (lines : List (List UInt8)) (uses : List Use) (rest : List (List UInt8)) : Prop where
  course : Uses files j w uses
  left : (j.result files w).2.machine.input = rest.map Text.ofBytes
  once : lines.map Text.ofBytes = uses.flatMap Use.lines ++ rest.map Text.ofBytes
  ends : (∃ p, (j.result files w).1 = .error p) ∨ Ends uses (rest.map Text.ofBytes)
  serves : ∀ rooms, Console.Serves (uses.flatMap Use.requests) rooms { lines } { lines := rest }

end Dialogue

theorem dialogue_uses_lines (files : Files) (decode : Config.Decoder) (historyPath : String)
    (showsForms : Bool) (w : Workspace) {lines : List (List UInt8)}
    (hlines : ∀ line ∈ lines, Chunk.lineFeed ∉ line)
    (hinput : w.machine.input = lines.map Text.ofBytes) :
    ∃ uses rest,
      Dialogue.Faithful files (Dialogue.run decode historyPath showsForms) w lines uses rest := by
  have hconcludes := @Dialogue.run_concludes files decode historyPath showsForms
  -- From here on it only matters how the job ends.
  generalize Dialogue.run decode historyPath showsForms = job at hconcludes ⊢
  obtain ⟨uses, huses, hends⟩ := hconcludes w
  have htakes := huses.takes
  rw [hinput] at htakes
  obtain ⟨rest, hrest, hserves⟩ := Console.serves_of_takes hlines htakes
  rw [← hrest] at htakes hends
  have honce : lines.map Text.ofBytes = uses.flatMap Use.lines ++ rest.map Text.ofBytes := by
    rw [← Use.lines_eq]
    exact htakes.lines_eq
  exact ⟨uses, rest, huses, hrest.symm, honce, hends, hserves⟩

theorem dialogue_uses_lines_read :
    let lines : List (List UInt8) :=
      [[0x28, 0x72, 0x65, 0x61, 0x64], [0x29], [0x37, 0x0D], [], [0x28, 0x66]]
    let w : Workspace := { machine := { input := lines.map Text.ofBytes } }
    (∀ line ∈ lines, Chunk.lineFeed ∉ line) ∧ w.machine.input = lines.map Text.ofBytes ∧
      ∃ uses rest,
        Dialogue.Faithful .none (Dialogue.run Toml.decodeConfig "history" false) w lines uses rest := by
  intro lines w
  have hlines : ∀ line ∈ lines, Chunk.lineFeed ∉ line := by
    decide
  exact ⟨hlines, rfl, dialogue_uses_lines .none Toml.decodeConfig "history" false w hlines rfl⟩

end LispScript
