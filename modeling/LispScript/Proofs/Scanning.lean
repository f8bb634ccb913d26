import LispScript.Datum

/-!
This module contains what reading on leaves as it is. The tokens that a lexer has found stay found, an
error stays the same, and the forms that a reader has finished stay finished. At the end of a line a
lexer stands between two tokens again if the text could have ended there.
-/

namespace LispScript

namespace Mark

variable (m : Mark) (text : List Char)

theorem foldl_after_offset : (text.foldl after m).offset = m.offset + text.length := by
  induction text generalizing m with
  | nil => rfl
  | cons c rest ih =>
    rw [List.foldl_cons, ih, List.length_cons]
    unfold after
    split
    . simp only
      omega
    . simp only
      omega

theorem foldl_after_line : (text.foldl after m).line = m.line + text.count '\n' := by
  induction text generalizing m with
  | nil => rfl
  | cons c rest ih =>
    rw [List.foldl_cons, ih]
    unfold after
    split
    . next hc =>
      rw [hc, List.count_cons_self]
      simp only
      omega
    . next hc => rw [List.count_cons_of_ne hc]

end Mark

theorem Word.classify_isIncomplete {word : List Char} {fault : ReadFault}
    (h : Word.classify word = .error fault) : fault.isIncomplete = false := by
  unfold Word.classify at h
  dsimp only at h
  split at h
  . cases h
  . split at h
    . cases h
      rfl
    . split at h
      . cases h
      . cases h
      . cases h
        rfl

@[simp]
theorem ReadError.isIncomplete_atPlace (location : Location) (fault : ReadFault) :
    (ReadError.atPlace location fault).isIncomplete = fault.isIncomplete := by
  rfl

namespace Lexer

variable {l : Lexer}

/--
What a lexer keeps while it takes characters. That the text ends too early is only said at its end.
-/
structure Extends (l l' : Lexer) : Prop where
  file : l'.file = l.file
  tokens : l.tokens <:+ l'.tokens
  error : ∀ e, l'.error = some e → e.isIncomplete → l.error = some e

namespace Extends

theorem move (l : Lexer) (place : Mark) (mode : Mode) : l.Extends { l with place, mode } :=
  ⟨rfl, List.suffix_rfl, fun _ he _ => he⟩

theorem trans {l₁ l₂ l₃ : Lexer} (h : l₁.Extends l₂) (h' : l₂.Extends l₃) : l₁.Extends l₃ := by
  refine ⟨h'.file.trans h.file, h.tokens.trans h'.tokens, ?_⟩
  intro e he hincomplete
  apply h.error e (h'.error e he hincomplete) hincomplete

end Extends

theorem emit_extends (l : Lexer) (start stop : Mark) (lexeme : Lexeme) :
    l.Extends (l.emit start stop lexeme) :=
  ⟨rfl, List.suffix_cons _ _, fun _ he _ => he⟩

theorem fail_extends (l : Lexer) (start stop : Mark) {fault : ReadFault}
    (h : fault.isIncomplete = false) : l.Extends (l.fail start stop fault) := by
  refine ⟨rfl, List.suffix_rfl, ?_⟩
  intro e he hincomplete
  cases he
  simp [h] at hincomplete

theorem endWord_extends (l : Lexer) (start : Mark) (read : List Char) :
    l.Extends (l.endWord start read) := by
  unfold endWord
  split
  . apply emit_extends
  . next hword => apply fail_extends l _ _ (Word.classify_isIncomplete hword)

theorem endLiteral_extends (l : Lexer) (mark : QuoteMark) (start stop : Mark) (read : List Char) :
    l.Extends (l.endLiteral mark start stop read) := by
  unfold endLiteral
  split
  . apply emit_extends
  . apply emit_extends
  . apply fail_extends l _ _ rfl

theorem takeBetween_extends (l : Lexer) (c : Char) : l.Extends (l.takeBetween c) := by
  unfold takeBetween
  repeat' split
  . apply Extends.move
  . apply Extends.move
  . apply emit_extends
  . apply emit_extends
  . apply Extends.move
  . apply Extends.move
  . apply Extends.move

theorem takeLiteral_extends (l : Lexer) (mark : QuoteMark) (start : Mark) (read : List Char)
    (escaped : Bool) (c : Char) : l.Extends (l.takeLiteral mark start read escaped c) := by
  unfold takeLiteral
  split
  . split
    . apply Extends.move
    . refine ⟨rfl, List.suffix_rfl, ?_⟩
      intro e he hincomplete
      cases he
      contradiction
  . split
    . apply endLiteral_extends
    . split
      . apply Extends.move
      . apply Extends.move

theorem take_extends (l : Lexer) (c : Char) : l.Extends (l.take c) := by
  unfold take
  split
  . apply takeBetween_extends
  . split
    . apply Extends.move
    . apply Extends.move
  . split
    . dsimp only
      split
      . apply endWord_extends
      . apply Extends.trans (endWord_extends l _ _)
        apply takeBetween_extends
    . apply Extends.move
  . apply takeLiteral_extends

theorem step_extends (l : Lexer) (c : Char) : l.Extends (l.step c) := by
  unfold step
  split
  . apply Extends.move
  . apply Extends.trans (take_extends l c)
    apply Extends.move

theorem foldl_step_extends (l : Lexer) (text : List Char) : l.Extends (text.foldl step l) := by
  induction text generalizing l with
  | nil => apply Extends.move
  | cons c rest ih =>
    apply Extends.trans (step_extends l c)
    apply ih

theorem step_error (h : l.error.isSome) (c : Char) : l.step c = l := by
  unfold step
  rw [if_pos h]

theorem foldl_step_error (h : l.error.isSome) (text : List Char) : text.foldl step l = l := by
  induction text with
  | nil => rfl
  | cons c rest ih => rw [List.foldl_cons, step_error h, ih]

theorem finish_error (h : l.error.isSome) : l.finish = l := by
  unfold finish
  rw [if_pos h]

theorem finish_file (l : Lexer) : l.finish.file = l.file := by
  unfold finish
  split
  . rfl
  . split
    . rfl
    . rfl
    . apply (endWord_extends l _ _).file
    . rfl

theorem error_of_finish (h : l.finish.error = none) : l.error = none := by
  cases herror : l.error with
  | none => rfl
  | some e =>
    rw [finish_error (by simp [herror]), herror] at h
    contradiction

theorem finish_error_cases {e : ReadError} (h : l.finish.error = some e) :
    l.error = some e ∨ l.error = none ∧
      ((∃ start read fault, l.mode = .word start read ∧ Word.classify read.reverse = .error fault ∧
          e = .atPlace (l.locate start (l.place.offset - start.offset)) fault) ∨
        ∃ mark start read escaped, l.mode = .literal mark start read escaped ∧
          e = .atPlace (l.locate start 1) (.unterminated mark) ∧ l.finish.tokens = l.tokens) := by
  cases herror : l.error with
  | some e' =>
    left
    rw [finish_error (by simp [herror]), herror] at h
    apply h
  | none =>
    right
    refine ⟨rfl, ?_⟩
    unfold finish at h ⊢
    rw [herror] at h ⊢
    cases hmode : l.mode with
    | between => simp [hmode, herror] at h
    | comment => simp [hmode, herror] at h
    | word start read =>
      left
      cases hword : Word.classify read.reverse with
      | ok a => simp [hmode, endWord, hword, emit, herror] at h
      | error fault =>
        simp only [hmode, endWord, hword] at h
        cases h
        exact ⟨start, read, fault, rfl, hword, rfl⟩
    | literal mark start read escaped =>
      right
      rw [hmode] at h
      cases h
      exact ⟨mark, start, read, escaped, rfl, rfl, rfl⟩

theorem foldl_step_place {text : List Char} (h : (text.foldl step l).error = none) :
    (text.foldl step l).place = text.foldl Mark.after l.place := by
  induction text generalizing l with
  | nil => rfl
  | cons c rest ih =>
    rw [List.foldl_cons] at h ⊢
    rw [ih h, List.foldl_cons]
    congr
    unfold step
    split
    . next herror =>
      -- An error would have stayed to the end of the text.
      rw [step_error herror, foldl_step_error herror] at h
      simp [h] at herror
    . rfl

theorem step_newline (h : l.finish.error = none) :
    l.step '\n' = { file := l.file, place := l.place.after '\n', tokens := l.finish.tokens } := by
  have herror := error_of_finish h
  obtain ⟨file, place, mode, tokens, error⟩ := l
  cases herror
  cases mode with
  | between => rfl
  | comment => rfl
  | word start read =>
    cases hword : Word.classify read.reverse with
    | ok a =>
      simp only [step, take, finish, endWord, hword]
      rfl
    | error fault => simp [finish, endWord, hword, fail] at h
  | literal mark start read escaped => cases h

/--
The scan of a text that ends where the lexer stands.
-/
def scan (l : Lexer) : Scan :=
  { tokens := l.finish.tokens.reverse, error := l.finish.error }

end Lexer

namespace Reader

variable {r r' : Reader}

theorem add_data_suffix (r : Reader) (d : Datum) : r.data <:+ (r.add d).data := by
  unfold add
  split
  . apply List.suffix_cons
  . apply List.suffix_rfl

theorem step_data_suffix {t : Token} (h : r.step t = .ok r') : r.data <:+ r'.data := by
  unfold step at h
  split at h
  . cases h
    apply add_data_suffix
  . cases h
    apply List.suffix_rfl
  . split at h
    . cases h
    . next o outer houter =>
      cases h
      apply add_data_suffix { r with outer }

theorem foldlM_step_data_suffix {tokens : List Token} (h : tokens.foldlM step r = .ok r') :
    r.data <:+ r'.data := by
  induction tokens generalizing r with
  | nil =>
    cases h
    apply List.suffix_rfl
  | cons t rest ih =>
    rw [List.foldlM_cons] at h
    cases hstep : r.step t with
    | error e =>
      rw [hstep] at h
      cases h
    | ok r₁ =>
      rw [hstep] at h
      apply (step_data_suffix hstep).trans (ih h)

end Reader

namespace Scan

/--
The forms that the tokens of a scan make up.
-/
def data (scan : Scan) : Except ReadError (List Datum) := do
  let reader ← scan.tokens.foldlM Reader.step {}
  match scan.error with
  | some e => .error e
  | none => reader.finish

theorem data_eq_ok {scan : Scan} {data : List Datum} (h : scan.data = .ok data) :
    scan.error = none ∧ scan.tokens.foldlM Reader.step {} = .ok { data := data.reverse } := by
  unfold Scan.data at h
  cases hr : scan.tokens.foldlM Reader.step {} with
  | error e => simp [hr, bind, Except.bind] at h
  | ok r =>
    cases he : scan.error with
    | some e => simp [hr, he, bind, Except.bind] at h
    | none =>
      simp only [hr, he, bind, Except.bind, Reader.finish] at h
      obtain ⟨outer, done⟩ := r
      cases outer with
      | cons o outer => cases h
      | nil =>
        cases h
        simp

theorem data_eq_error {scan : Scan} {e : ReadError} (h : scan.data = .error e) :
    scan.tokens.foldlM Reader.step {} = .error e ∨
      ∃ r, scan.tokens.foldlM Reader.step {} = .ok r ∧
        (scan.error = some e ∨ scan.error = none ∧ r.finish = .error e) := by
  unfold Scan.data at h
  cases hr : scan.tokens.foldlM Reader.step {} with
  | error e' =>
    left
    simpa [hr, bind, Except.bind] using h
  | ok r =>
    right
    refine ⟨r, rfl, ?_⟩
    cases he : scan.error with
    | some e' =>
      left
      simpa [hr, he, bind, Except.bind] using h
    | none =>
      right
      simpa [hr, he, bind, Except.bind] using h

theorem data_of_error {scan : Scan} {r : Reader} {e : ReadError}
    (h : scan.tokens.foldlM Reader.step {} = .ok r) (he : scan.error = some e) :
    scan.data = .error e := by
  unfold Scan.data
  rw [h, he]
  rfl

end Scan

theorem Datum.readAll_eq_data (file : String) (text : List Char) :
    Datum.readAll file text = (text.foldl Lexer.step { file }).scan.data := by
  rfl

end LispScript
