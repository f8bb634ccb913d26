import LispScript.Proofs.Continuation

/-!
This module contains the proof that a text that ends too early can be completed, except for one case:
a character literal that holds more than one character already can be closed, but not read. Everything
else is completed by ending the literal or the line, and by closing the open lists.
-/

namespace LispScript

namespace Reader

variable {found : List Token} {depth : Nat}

/--
The tokens, the latest first, fit together so far and leave `depth` lists open.
-/
def Nested (found : List Token) (depth : Nat) : Prop :=
  ∃ r, found.reverse.foldlM step {} = .ok r ∧ r.outer.length = depth

theorem outer_add_length (r : Reader) (d : Datum) : (r.add d).outer.length = r.outer.length := by
  unfold add
  split
  . rfl
  . next heq => simp [heq]

theorem Nested.cons {t : Token} {r : Reader} (h : found.reverse.foldlM step {} = .ok r)
    {r' : Reader} (hstep : r.step t = .ok r') : Nested (t :: found) r'.outer.length := by
  refine ⟨r', ?_, rfl⟩
  rw [List.reverse_cons, List.foldlM_append, h]
  show (r.step t >>= pure) = _
  rw [hstep]
  rfl

theorem Nested.atom (h : Nested found depth) (a : Atom) (location : Location) :
    Nested (⟨.atom a, location⟩ :: found) depth := by
  obtain ⟨r, hfold, rfl⟩ := h
  rw [← outer_add_length r (.atom location a)]
  apply Nested.cons hfold rfl

theorem Nested.closing (h : Nested found (depth + 1)) (location : Location) :
    Nested (⟨.closing, location⟩ :: found) depth := by
  obtain ⟨⟨outer, data⟩, hfold, hdepth⟩ := h
  cases outer with
  | nil => contradiction
  | cons o outer =>
    cases hdepth
    rw [← outer_add_length ⟨outer, data⟩ (o.close location)]
    apply Nested.cons hfold rfl

end Reader

namespace Lexer

variable {l : Lexer} {depth : Nat}

/--
The lexer stands between two tokens, inside of `depth` lists.
-/
structure Ready (l : Lexer) (depth : Nat) : Prop where
  error : l.error = none
  mode : l.mode = .between
  nested : Reader.Nested l.tokens depth

theorem Ready.step_closing (h : l.Ready (depth + 1)) : (l.step ')').Ready depth := by
  obtain ⟨file, place, mode, tokens, error⟩ := l
  obtain ⟨rfl, rfl, hnested⟩ := h
  exact ⟨rfl, rfl, hnested.closing _⟩

theorem Ready.foldl_closing (h : l.Ready depth) :
    ((List.replicate depth ')').foldl step l).Ready 0 := by
  induction depth generalizing l with
  | zero => apply h
  | succ depth ih =>
    rw [List.replicate_succ, List.foldl_cons]
    apply ih h.step_closing

theorem Ready.data (h : l.Ready 0) : ∃ data, l.scan.data = .ok data := by
  obtain ⟨r, hfold, houter⟩ := h.nested
  have hfinish : l.finish = l := by
    unfold finish
    rw [h.error, h.mode]
    rfl
  refine ⟨r.data.reverse, ?_⟩
  unfold Scan.data scan
  rw [hfinish, hfold, h.error]
  show r.finish = _
  unfold Reader.finish
  rw [List.length_eq_zero_iff.1 houter]

theorem ready_step_newline (h : l.finish.error = none)
    (hnested : Reader.Nested l.finish.tokens depth) : (l.step '\n').Ready depth := by
  rw [step_newline h]
  exact ⟨rfl, rfl, hnested⟩

/-! Literals. -/

structure Quoting (l : Lexer) (mark : QuoteMark) (read : List Char) (escaped : Bool) (depth : Nat) :
    Prop where
  error : l.error = none
  mode : ∃ start, l.mode = .literal mark start read escaped
  nested : Reader.Nested l.tokens depth

variable {mark : QuoteMark} {read : List Char} {c : Char}

theorem Quoting.step_escaped (h : l.Quoting mark read true depth) {d : Char}
    (hd : unescape c = some d) : (l.step c).Quoting mark (d :: read) false depth := by
  obtain ⟨file, place, mode, tokens, error⟩ := l
  obtain ⟨rfl, ⟨start, rfl⟩, hnested⟩ := h
  simp only [step, take, takeLiteral, hd]
  exact ⟨rfl, ⟨start, rfl⟩, hnested⟩

theorem Quoting.step_plain (h : l.Quoting mark read false depth) (hmark : c ≠ mark.char)
    (hc : c ≠ '\\') : (l.step c).Quoting mark (c :: read) false depth := by
  obtain ⟨file, place, mode, tokens, error⟩ := l
  obtain ⟨rfl, ⟨start, rfl⟩, hnested⟩ := h
  simp only [step, take, takeLiteral, hmark, hc]
  exact ⟨rfl, ⟨start, rfl⟩, hnested⟩

theorem Quoting.step_mark (h : l.Quoting mark read false depth)
    (hread : mark = .single → read.length = 1) : (l.step mark.char).Ready depth := by
  obtain ⟨file, place, mode, tokens, error⟩ := l
  obtain ⟨rfl, ⟨start, rfl⟩, hnested⟩ := h
  cases mark with
  | double => exact ⟨rfl, rfl, hnested.atom _ _⟩
  | single =>
    obtain ⟨d, rfl⟩ := List.length_eq_one_iff.1 (hread rfl)
    exact ⟨rfl, rfl, hnested.atom _ _⟩

/--
The lexer is inside of a character literal that holds more than one character, where an escape that has
been begun counts as one.
-/
def Overfull (l : Lexer) : Prop :=
  ∃ start read escaped, l.mode = .literal .single start read escaped ∧
    1 < read.length + escaped.toNat

theorem Quoting.completion {escaped : Bool} (h : l.Quoting mark read escaped depth)
    (hroom : ¬ l.Overfull) : ∃ text : List Char, (text.foldl step l).Ready depth := by
  have hcount : mark = .single → read.length + escaped.toNat ≤ 1 := by
    rintro rfl
    obtain ⟨start, hmode⟩ := h.mode
    apply Nat.le_of_not_lt
    intro hfull
    apply hroom ⟨start, read, escaped, hmode, hfull⟩
  cases escaped with
  | true =>
    refine ⟨['n', mark.char], ?_⟩
    apply (h.step_escaped (c := 'n') rfl).step_mark
    intro hmark
    have := hcount hmark
    simp at this ⊢
    apply this
  | false =>
    by_cases hempty : mark = .single ∧ read = []
    . obtain ⟨rfl, rfl⟩ := hempty
      refine ⟨['a', '\''], ?_⟩
      apply (h.step_plain (c := 'a') (by decide) (by decide)).step_mark
      intro _
      rfl
    . refine ⟨[mark.char], ?_⟩
      apply h.step_mark
      intro hmark
      have hcount := hcount hmark
      have hread : read.length ≠ 0 := by
        intro hread
        apply hempty ⟨hmark, List.length_eq_zero_iff.1 hread⟩
      simp at hcount
      omega

theorem quoting_of_finish {e : ReadError} (hfinal : ∀ e, l.error = some e → ¬ e.isIncomplete)
    (h : l.finish.error = some e) (hincomplete : e.isIncomplete)
    (hnested : Reader.Nested l.finish.tokens depth) :
    ∃ mark read escaped, l.Quoting mark read escaped depth := by
  rcases finish_error_cases h with herror | ⟨herror, hword | hliteral⟩
  . apply absurd hincomplete (hfinal e herror)
  . obtain ⟨start, read, fault, hmode, hword, rfl⟩ := hword
    apply absurd hincomplete
    simpa using Word.classify_isIncomplete hword
  . obtain ⟨mark, start, read, escaped, hmode, rfl, htokens⟩ := hliteral
    rw [htokens] at hnested
    exact ⟨mark, read, escaped, herror, ⟨start, hmode⟩, hnested⟩

theorem exists_ready {e : ReadError} (hfinal : ∀ e, l.error = some e → ¬ e.isIncomplete)
    (h : l.scan.data = .error e) (hincomplete : e.isIncomplete) (hroom : ¬ l.Overfull) :
    ∃ (text : List Char) (depth : Nat), (text.foldl step l).Ready depth := by
  rcases Scan.data_eq_error h with hfold | ⟨r, hfold, herror | ⟨herror, -⟩⟩
  . have := Reader.foldlM_step_isIncomplete hfold
    simp [hincomplete] at this
  . obtain ⟨mark, read, escaped, hquoting⟩ :=
      quoting_of_finish hfinal herror hincomplete ⟨r, hfold, rfl⟩
    obtain ⟨text, hready⟩ := hquoting.completion hroom
    exact ⟨text, _, hready⟩
  . exact ⟨['\n'], _, ready_step_newline herror ⟨r, hfold, rfl⟩⟩

/-! Literals that hold too much. -/

/--
Whatever comes, the text cannot be read.
-/
def Lost (l : Lexer) : Prop :=
  l.error.isSome ∨ l.Overfull

theorem endLiteral_single_error {start stop : Mark} (h : 1 < read.length) :
    (l.endLiteral .single start stop read).error.isSome := by
  match read with
  | [] => contradiction
  | [_] => contradiction
  | _ :: _ :: _ => rfl

theorem Lost.step (h : l.Lost) (c : Char) : (l.step c).Lost := by
  rcases h with herror | ⟨start, read, escaped, hmode, hfull⟩
  . rw [step_error herror]
    left
    apply herror
  . unfold Lexer.step
    split
    . next herror =>
      left
      apply herror
    . rw [take, hmode]
      dsimp only
      unfold takeLiteral
      cases escaped with
      | true =>
        rw [if_pos rfl]
        split
        . right
          refine ⟨start, _, false, rfl, ?_⟩
          simp at hfull ⊢
          apply hfull
        . left
          rfl
      | false =>
        have hread : 1 < read.length := by
          simpa using hfull
        rw [if_neg Bool.false_ne_true]
        split
        . left
          apply endLiteral_single_error hread
        . right
          split
          . refine ⟨start, read, true, rfl, ?_⟩
            omega
          . refine ⟨start, c :: read, false, rfl, ?_⟩
            rw [List.length_cons]
            omega

theorem Lost.foldl_step (h : l.Lost) (text : List Char) : (text.foldl Lexer.step l).Lost := by
  induction text generalizing l with
  | nil => apply h
  | cons c rest ih =>
    apply ih
    apply h.step

theorem Lost.finish (h : l.Lost) : l.finish.error.isSome := by
  cases herror : l.error with
  | some e =>
    rw [finish_error (by simp [herror]), herror]
    rfl
  | none =>
    rcases h with h | ⟨start, read, escaped, hmode, -⟩
    . simp [herror] at h
    . unfold Lexer.finish
      rw [herror, hmode]
      rfl

theorem Lost.data (h : l.Lost) (data : List Datum) : l.scan.data ≠ .ok data := by
  intro hdata
  have herror : l.finish.error = none := (Scan.data_eq_ok hdata).1
  have := h.finish
  simp [herror] at this

end Lexer

theorem Datum.readAll_overfull {file : String} {text : List Char}
    (h : (text.foldl Lexer.step { file }).Overfull) (more : List Char) (data : List Datum) :
    Datum.readAll file (text ++ more) ≠ .ok data := by
  rw [Datum.readAll_eq_data, List.foldl_append]
  apply Lexer.Lost.data
  apply Lexer.Lost.foldl_step
  right
  apply h

theorem readAll_completable {file : String} {text : List Char} {e : ReadError}
    (h : Datum.readAll file text = .error e) (hincomplete : e.isIncomplete) :
    (∃ more data, Datum.readAll file (text ++ more) = .ok data) ↔
      ¬ (text.foldl Lexer.step { file }).Overfull := by
  constructor
  . rintro ⟨more, data, hdata⟩ hfull
    apply Datum.readAll_overfull hfull more data hdata
  . intro hroom
    have hfinal : ∀ e, (text.foldl Lexer.step { file }).error = some e → ¬ e.isIncomplete := by
      intro e he hincomplete
      have := (Lexer.foldl_step_extends { file } text).error e he hincomplete
      contradiction
    rw [Datum.readAll_eq_data] at h
    obtain ⟨ending, depth, hready⟩ := Lexer.exists_ready hfinal h hincomplete hroom
    obtain ⟨data, hdata⟩ := hready.foldl_closing.data
    refine ⟨ending ++ List.replicate depth ')', data, ?_⟩
    rw [Datum.readAll_eq_data, List.foldl_append, List.foldl_append]
    apply hdata

theorem readAll_completable_escape :
    let text := ['(', '"', 'a', '\\']
    let fault : ReadError :=
      { fault := .unterminated .double
        location := some { file := "f", line := 1, column := 2, length := 1 } }
    Datum.readAll "f" text = .error fault ∧ fault.isIncomplete ∧
      ∃ more data, Datum.readAll "f" (text ++ more) = .ok data := by
  intro text fault
  have h : Datum.readAll "f" text = .error fault := by
    rfl
  refine ⟨h, rfl, (readAll_completable h rfl).2 ?_⟩
  rintro ⟨start, read, escaped, hmode, -⟩
  cases hmode

-- More input is asked for after a character literal with two characters, and none can help.
theorem readAll_two_characters :
    let text := ['\'', 'a', 'b']
    (∃ e, Datum.readAll "f" text = .error e ∧ e.isIncomplete) ∧
      ¬ ∃ more data, Datum.readAll "f" (text ++ more) = .ok data := by
  intro text
  refine ⟨⟨_, rfl, rfl⟩, ?_⟩
  rintro ⟨more, data, hdata⟩
  have hfull : (text.foldl Lexer.step { file := "f" }).Overfull :=
    ⟨_, ['b', 'a'], false, rfl, by decide⟩
  apply Datum.readAll_overfull hfull more data hdata

end LispScript
