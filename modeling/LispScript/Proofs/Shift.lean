import LispScript.Proofs.Reading
import LispScript.Proofs.Relocation
import LispScript.Proofs.Scanning

/-!
This module contains the proof that a text that follows another one is read as if it stood alone. A
lexer that has taken a readable text and the end of its line is a fresh lexer, except for where it
stands and for what it has found already. `Shift.lexer` adds these to a lexer, `Shift.reader` to a
reader, and both go on as before.
-/

namespace LispScript

/--
Where a text is put: how its file is called there, and how many lines and characters come before it.
-/
structure Shift where
  file : String → String
  lines : Nat
  chars : Nat

namespace Shift

/--
The shift of what comes after `text` and the end of its last line.
-/
def past (text : List Char) : Shift :=
  { file := id, lines := text.count '\n' + 1, chars := text.length + 1 }

/--
The shift of a text that is given another name.
-/
def toFile (file : String) : Shift :=
  { file := fun _ => file, lines := 0, chars := 0 }

def location (s : Shift) (l : Location) : Location :=
  { l.below s.lines with file := s.file l.file }

theorem location_toFile (file : String) : (toFile file).location = Location.inFile file := by
  funext l
  simp [location, toFile, Location.below, Location.inFile]

def token (s : Shift) (t : Token) : Token :=
  { t with location := s.location t.location }

def mark (s : Shift) (m : Mark) : Mark :=
  { offset := m.offset + s.chars, line := m.line + s.lines, column := m.column }

def mode (s : Shift) : Mode → Mode
  | .between => .between
  | .comment => .comment
  | .word start read => .word (s.mark start) read
  | .literal mark start read escaped => .literal mark (s.mark start) read escaped

/--
The lexer in the shifted text, in which the tokens `before` have been found before.
-/
def lexer (s : Shift) (before : List Token) (l : Lexer) : Lexer :=
  { file := s.file l.file
    place := s.mark l.place
    mode := s.mode l.mode
    tokens := l.tokens.map s.token ++ before
    error := l.error.map (ReadError.relocate s.location) }

variable (s : Shift) (before : List Token) (l : Lexer)

theorem mark_after (m : Mark) (c : Char) : (s.mark m).after c = s.mark (m.after c) := by
  unfold Mark.after
  split
  . simp [mark]
    omega
  . simp [mark]
    omega

theorem locate_lexer (start : Mark) (length : Nat) :
    (s.lexer before l).locate (s.mark start) length = s.location (l.locate start length) := by
  simp [Lexer.locate, lexer, mark, location, Location.below]

theorem offset_mark_sub (start stop : Mark) :
    (s.mark stop).offset - (s.mark start).offset = stop.offset - start.offset := by
  apply Nat.add_sub_add_right

theorem emit_lexer (start stop : Mark) (lexeme : Lexeme) :
    (s.lexer before l).emit (s.mark start) (s.mark stop) lexeme
      = s.lexer before (l.emit start stop lexeme) := by
  unfold Lexer.emit
  rw [offset_mark_sub, locate_lexer]
  rfl

theorem fail_lexer (start stop : Mark) (fault : ReadFault) :
    (s.lexer before l).fail (s.mark start) (s.mark stop) fault
      = s.lexer before (l.fail start stop fault) := by
  unfold Lexer.fail
  rw [offset_mark_sub, locate_lexer]
  rfl

theorem failAtQuote_lexer (start : Mark) (fault : ReadFault) :
    (s.lexer before l).failAtQuote (s.mark start) fault
      = s.lexer before (l.failAtQuote start fault) := by
  unfold Lexer.failAtQuote
  rw [locate_lexer]
  rfl

theorem endWord_lexer (start : Mark) (read : List Char) :
    (s.lexer before l).endWord (s.mark start) read = s.lexer before (l.endWord start read) := by
  unfold Lexer.endWord
  split
  . apply emit_lexer
  . apply fail_lexer

theorem endLiteral_lexer (mark : QuoteMark) (start stop : Mark) (read : List Char) :
    (s.lexer before l).endLiteral mark (s.mark start) (s.mark stop) read
      = s.lexer before (l.endLiteral mark start stop read) := by
  unfold Lexer.endLiteral
  split
  . apply emit_lexer
  . apply emit_lexer
  . apply fail_lexer

theorem takeBetween_lexer (c : Char) :
    (s.lexer before l).takeBetween c = s.lexer before (l.takeBetween c) := by
  have hplace : (s.lexer before l).place.after c = s.mark (l.place.after c) := by
    apply mark_after
  unfold Lexer.takeBetween
  rw [hplace]
  repeat' split
  . rfl
  . rfl
  . apply emit_lexer
  . apply emit_lexer
  . rfl
  . rfl
  . rfl

theorem takeLiteral_lexer (mark : QuoteMark) (start : Mark) (read : List Char) (escaped : Bool)
    (c : Char) :
    (s.lexer before l).takeLiteral mark (s.mark start) read escaped c
      = s.lexer before (l.takeLiteral mark start read escaped c) := by
  have hplace : (s.lexer before l).place.after c = s.mark (l.place.after c) := by
    apply mark_after
  unfold Lexer.takeLiteral
  rw [hplace]
  split
  . split
    . rfl
    . apply failAtQuote_lexer
  . split
    . apply endLiteral_lexer
    . split
      . rfl
      . rfl

theorem error_lexer_isSome : (s.lexer before l).error.isSome = l.error.isSome := by
  simp [lexer]

theorem take_lexer (c : Char) : (s.lexer before l).take c = s.lexer before (l.take c) := by
  have hmode : (s.lexer before l).mode = s.mode l.mode := by
    rfl
  unfold Lexer.take
  rw [hmode]
  cases l.mode with
  | between => apply takeBetween_lexer
  | comment =>
    dsimp only [mode]
    split
    . rfl
    . rfl
  | word start read =>
    dsimp only [mode]
    rw [endWord_lexer, error_lexer_isSome, takeBetween_lexer]
    split
    . split
      . rfl
      . rfl
    . rfl
  | literal mark start read escaped => apply takeLiteral_lexer

theorem step_lexer (c : Char) : (s.lexer before l).step c = s.lexer before (l.step c) := by
  have hplace : (s.lexer before l).place.after c = s.mark (l.place.after c) := by
    apply mark_after
  unfold Lexer.step
  rw [error_lexer_isSome, take_lexer, hplace]
  split
  . rfl
  . rfl

theorem finish_lexer : (s.lexer before l).finish = s.lexer before l.finish := by
  have hmode : (s.lexer before l).mode = s.mode l.mode := by
    rfl
  unfold Lexer.finish
  rw [error_lexer_isSome, hmode]
  split
  . rfl
  . cases l.mode with
    | between => rfl
    | comment => rfl
    | word start read => apply endWord_lexer
    | literal mark start read escaped => apply failAtQuote_lexer

theorem foldl_step_lexer (text : List Char) :
    text.foldl Lexer.step (s.lexer before l) = s.lexer before (text.foldl Lexer.step l) := by
  induction text generalizing l with
  | nil => rfl
  | cons c rest ih => rw [List.foldl_cons, List.foldl_cons, step_lexer, ih]

/-! The reader. -/

def openList (o : OpenList) : OpenList :=
  { location := s.location o.location, items := o.items.map (Datum.relocate s.location) }

/--
The reader of the shifted text, for which the forms `done` have been read before, the latest first.
-/
def reader (done : List Datum) (r : Reader) : Reader :=
  { outer := r.outer.map s.openList, data := r.data.map (Datum.relocate s.location) ++ done }

variable (done : List Datum) (r : Reader)

theorem add_reader (d : Datum) :
    (s.reader done r).add (d.relocate s.location) = s.reader done (r.add d) := by
  unfold Reader.add reader
  cases r.outer with
  | nil => rfl
  | cons o outer => rfl

theorem close_openList (o : OpenList) (closing : Location) :
    (s.openList o).close (s.location closing) = (o.close closing).relocate s.location := by
  have hline : (s.location closing).line = (s.location o.location).line
      ↔ closing.line = o.location.line := by
    simp [location, Location.below]
  simp only [OpenList.close, openList, hline, Datum.relocate, Datum.relocateAll_eq_map,
    List.map_reverse]
  rfl

theorem step_reader (t : Token) :
    (s.reader done r).step (s.token t) = relocated s.location (s.reader done) (r.step t) := by
  unfold Reader.step
  cases ht : t.lexeme with
  | atom a =>
    simp only [token, ht, relocated, ← add_reader]
    rfl
  | opening =>
    simp only [token, ht]
    rfl
  | closing =>
    simp only [token, ht]
    cases hr : r.outer with
    | nil =>
      simp only [reader, hr]
      rfl
    | cons o outer =>
      simp only [reader, hr, List.map_cons, close_openList]
      apply congrArg Except.ok (s.add_reader done { r with outer } (o.close t.location))

theorem foldlM_step_reader (tokens : List Token) :
    (tokens.map s.token).foldlM Reader.step (s.reader done r)
      = relocated s.location (s.reader done) (tokens.foldlM Reader.step r) := by
  induction tokens generalizing r with
  | nil => rfl
  | cons t rest ih =>
    rw [List.map_cons, List.foldlM_cons, List.foldlM_cons]
    apply bind_relocated (s.step_reader done r t)
    intro r'
    apply ih

theorem finish_reader :
    (s.reader done r).finish
      = relocated s.location (fun data => done.reverse ++ data.map (Datum.relocate s.location))
        r.finish := by
  unfold Reader.finish reader
  cases r.outer with
  | nil => simp [relocated]
  | cons o outer => rfl

end Shift

/-! Whole texts. -/

/--
The scan of the shifted text, in which the tokens `before` come before it.
-/
def Shift.scan (s : Shift) (before : List Token) (scan : Scan) : Scan :=
  { tokens := before ++ scan.tokens.map s.token
    error := scan.error.map (ReadError.relocate s.location) }

theorem Shift.scan_lexer (s : Shift) (before : List Token) (l : Lexer) :
    (s.lexer before l).scan = s.scan before.reverse l.scan := by
  unfold Lexer.scan
  rw [finish_lexer]
  simp [scan, lexer]

theorem Lexer.foldl_step_past {file : String} {text : List Char}
    (h : (text.foldl Lexer.step { file }).finish.error = none) :
    (text ++ ['\n']).foldl Lexer.step { file }
      = (Shift.past text).lexer (text.foldl Lexer.step { file }).finish.tokens { file } := by
  have hplace := foldl_step_place (error_of_finish h)
  have hkept := (foldl_step_extends { file } text).file
  have hoffset := Mark.foldl_after_offset {} text
  have hline := Mark.foldl_after_line {} text
  rw [List.foldl_append, List.foldl_cons, List.foldl_nil, step_newline h, hplace, hkept]
  simp only [Shift.lexer, Shift.past, Shift.mark, Shift.mode, Mark.after, hoffset, hline]
  simp
  omega

theorem Lexer.scan_append {file : String} {first : List Char}
    (h : (first.foldl Lexer.step { file }).finish.error = none) (second : List Char) :
    ((first ++ '\n' :: second).foldl Lexer.step { file }).scan
      = (Shift.past first).scan (first.foldl Lexer.step { file }).scan.tokens
        (second.foldl Lexer.step { file }).scan := by
  rw [List.append_cons, List.foldl_append, foldl_step_past h, Shift.foldl_step_lexer,
    Shift.scan_lexer]
  rfl

theorem Lexer.scan_toFile (file file' : String) (text : List Char) :
    (text.foldl Lexer.step { file }).scan
      = (Shift.toFile file).scan [] (text.foldl Lexer.step { file := file' }).scan := by
  have hstart : ({ file } : Lexer) = (Shift.toFile file).lexer [] { file := file' } := by
    rfl
  rw [hstart, Shift.foldl_step_lexer, Shift.scan_lexer]
  rfl

theorem Scan.data_shift (s : Shift) {before : List Token} {data : List Datum}
    (h : before.foldlM Reader.step {} = .ok { data := data.reverse }) (scan : Scan) :
    (s.scan before scan).data
      = relocated s.location (fun rest => data ++ rest.map (Datum.relocate s.location))
        scan.data := by
  unfold Scan.data Shift.scan
  have hstart : (before ++ scan.tokens.map s.token).foldlM Reader.step {}
      = (scan.tokens.map s.token).foldlM Reader.step (s.reader data.reverse {}) := by
    rw [List.foldlM_append, h]
    rfl
  rw [hstart]
  apply bind_relocated (s.foldlM_step_reader data.reverse {} scan.tokens)
  intro r
  cases scan.error with
  | some e => rfl
  | none => simpa using s.finish_reader data.reverse r

namespace Datum

theorem readAll_append {file : String} {first : List Char} {data : List Datum}
    (h : readAll file first = .ok data) (second : List Char) :
    let below := Location.below (first.count '\n' + 1)
    readAll file (first ++ '\n' :: second)
      = relocated below (fun rest => data ++ rest.map (relocate below)) (readAll file second) := by
  intro below
  obtain ⟨herror, hdata⟩ := Scan.data_eq_ok h
  rw [readAll_eq_data, readAll_eq_data, Lexer.scan_append herror]
  apply Scan.data_shift _ hdata

theorem readAll_inFile (file file' : String) (text : List Char) :
    readAll file text
      = relocated (Location.inFile file) (List.map (relocate (Location.inFile file)))
        (readAll file' text) := by
  rw [readAll_eq_data, readAll_eq_data, Lexer.scan_toFile file file', ← Shift.location_toFile]
  have hstart : ([] : List Token).foldlM Reader.step {} = .ok { data := [].reverse } := by
    rfl
  apply Scan.data_shift _ hstart

theorem mapM_toExpr_append {g : Location → Location} {first : List Datum}
    {forms : List (Expr Literal)} (h : first.mapM toExpr = .ok forms) (second : List Datum) :
    (first ++ second.map (relocate g)).mapM toExpr
      = relocated g (fun rest => forms ++ rest.map (Expr.relocate g)) (second.mapM toExpr) := by
  have hsecond : (second.map (relocate g)).mapM toExpr
      = relocated g (List.map (Expr.relocate g)) (second.mapM toExpr) :=
    mapM_relocated fun d _ => toExpr_relocate d
  rw [List.mapM_append, h, hsecond]
  cases second.mapM toExpr with
  | ok rest => rfl
  | error e => rfl

end Datum

namespace Expr

theorem parse_eq_ok {file : String} {text : List Char} {forms : List (Expr Literal)}
    (h : parse file text = .ok forms) :
    ∃ data, Datum.readAll file text = .ok data ∧ data.mapM Datum.toExpr = .ok forms := by
  unfold parse at h
  cases hdata : Datum.readAll file text with
  | error e => simp [hdata, bind, Except.bind] at h
  | ok data =>
    rw [hdata] at h
    exact ⟨data, rfl, h⟩

theorem parse_past {file : String} {first : List Char} {forms : List (Expr Literal)}
    (h : parse file first = .ok forms) (second : List Char) :
    let below := Location.below (first.count '\n' + 1)
    parse file (first ++ '\n' :: second)
      = relocated below (fun rest => forms ++ rest.map (relocate below)) (parse file second) := by
  intro below
  obtain ⟨data, hdata, hforms⟩ := parse_eq_ok h
  apply bind_relocated (Datum.readAll_append hdata second)
  intro rest
  apply Datum.mapM_toExpr_append hforms

theorem parse_inFile (file file' : String) (text : List Char) :
    parse file text
      = relocated (Location.inFile file) (List.map (relocate (Location.inFile file)))
        (parse file' text) := by
  apply bind_relocated (Datum.readAll_inFile file file' text)
  intro data
  apply mapM_relocated
  intro d _
  apply Datum.toExpr_relocate

end Expr

theorem parse_append {file : String} {first : List Char} {forms : List (Expr Literal)}
    (h : Expr.parse file first = .ok forms) (second : List Char) :
    let below := Location.below (first.count '\n' + 1)
    let whole := Expr.parse file (first ++ '\n' :: second)
    ((∃ all, whole = .ok all) ↔ ∃ rest, Expr.parse file second = .ok rest) ∧
      (∀ rest, Expr.parse file second = .ok rest →
        whole = .ok (forms ++ rest.map (Expr.relocate below))) ∧
      ∀ e, Expr.parse file second = .error e →
        ∃ e' l, whole = .error e' ∧ e'.message = e.message ∧ e'.isIncomplete = e.isIncomplete ∧
          e.location = some l ∧ e'.location = some (below l) := by
  intro below whole
  have hwhole : whole = relocated below (fun rest => forms ++ rest.map (Expr.relocate below))
      (Expr.parse file second) :=
    Expr.parse_past h second
  have hlocated := Expr.parse_parsed file second
  rw [hwhole]
  cases hsecond : Expr.parse file second with
  | ok rest =>
    refine ⟨by simp [relocated], ?_, ?_⟩
    . intro rest' hrest
      cases hrest
      rfl
    . intro e he
      contradiction
  | error e =>
    rw [hsecond] at hlocated
    obtain ⟨l, hl⟩ := Option.isSome_iff_exists.1 hlocated
    refine ⟨by simp [relocated], ?_, ?_⟩
    . intro rest hrest
      contradiction
    . intro e' he
      cases he
      exact ⟨e.relocate below, l, rfl, rfl, rfl, hl, by simp [ReadError.relocate, hl]⟩

theorem parse_append_comment :
    let first := ['f', ';', '(', '\n', 'g']
    let second := ['\n', '(', 'h']
    let fault : ReadError :=
      { fault := .unclosedList
        location := some { file := "a", line := 2, column := 1, length := 1 } }
    ∃ forms, Expr.parse "a" first = .ok forms ∧ Expr.parse "a" second = .error fault ∧
      ∃ e', Expr.parse "a" (first ++ '\n' :: second) = .error e' ∧ e'.message = fault.message ∧
        e'.isIncomplete ∧
        e'.location = some { file := "a", line := 4, column := 1, length := 1 } := by
  intro first second fault
  obtain ⟨forms, h⟩ : ∃ forms, Expr.parse "a" first = .ok forms := ⟨_, rfl⟩
  have hsecond : Expr.parse "a" second = .error fault := by
    rfl
  obtain ⟨e', l, h', hmessage, hincomplete, hl, hlocation⟩ :=
    (parse_append h second).2.2 fault hsecond
  cases hl
  exact ⟨forms, h, hsecond, e', h', hmessage, hincomplete, hlocation⟩

end LispScript
