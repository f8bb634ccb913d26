import LispScript.Proofs.Layout
import LispScript.Proofs.Reading
import LispScript.Proofs.Scanning

/-!
This module contains the proof that an error that is not about the end of a text stays where it is,
whatever is added to the text: only a number that is none can be extended at all, and then it is none
either.
-/

namespace LispScript

/-! Numbers that are none. -/

namespace Word

theorem unsigned_cons (c : Char) (rest : List Char) :
    unsigned (c :: rest) = if c = '+' ∨ c = '-' then rest else c :: rest := by
  by_cases hplus : c = '+'
  . subst hplus
    rfl
  . by_cases hminus : c = '-'
    . subst hminus
      rfl
    . simp [unsigned, hplus, hminus]

theorem unsigned_append {word : List Char} (h : word ≠ []) (more : List Char) :
    unsigned (word ++ more) = unsigned word ++ more := by
  cases word with
  | nil => contradiction
  | cons c rest =>
    rw [List.cons_append, unsigned_cons, unsigned_cons]
    split
    . rfl
    . rfl

theorem startsNumber_of_isDigit {c : Char} (h : c.isDigit) (rest : List Char) :
    startsNumber (c :: rest) := by
  rw [startsNumber_cons, h, Bool.true_or]

theorem startsNumber_append {body : List Char} (h : startsNumber body) (more : List Char) :
    startsNumber (body ++ more) := by
  cases body with
  | nil => contradiction
  | cons c rest =>
    cases rest with
    | nil =>
      rw [startsNumber_cons] at h
      apply startsNumber_of_isDigit
      simpa using h
    | cons d rest =>
      rwa [List.cons_append, List.cons_append, startsNumber_cons, List.head?_cons, ← List.head?_cons,
        ← startsNumber_cons]

/--
The word starts like a number and is none.
-/
structure Misspelt (word : List Char) : Prop where
  starts : startsNumber (unsigned word)
  wrong : (unsigned word).all (fun c => c == '.' || isNumeral c) = false ∨
    1 < (unsigned word).count '.'

theorem Misspelt.of_classify {word : List Char} {fault : ReadFault}
    (h : classify word = .error fault) : Misspelt word := by
  unfold classify at h
  dsimp only at h
  split at h
  . cases h
  . next hstarts =>
    have hstarts : startsNumber (unsigned word) := by
      simpa using hstarts
    refine ⟨hstarts, ?_⟩
    split at h
    . next hall =>
      left
      simpa using hall
    . right
      cases hcount : (unsigned word).count '.' with
      | zero => simp [hcount] at h
      | succ n =>
        cases n with
        | zero => simp [hcount] at h
        | succ n => omega

theorem Misspelt.classify {word : List Char} (h : Misspelt word) :
    ∃ fault, classify word = .error fault := by
  unfold Word.classify
  dsimp only
  rw [h.starts]
  cases hall : (unsigned word).all (fun c => c == '.' || isNumeral c) with
  | false => exact ⟨_, rfl⟩
  | true =>
    have hcount : 1 < (unsigned word).count '.' :=
      h.wrong.resolve_left (by rw [hall]; nofun)
    obtain ⟨n, hn⟩ := Nat.exists_eq_add_of_le hcount
    rw [hn, Nat.add_comm]
    exact ⟨_, rfl⟩

theorem Misspelt.append {word : List Char} (h : Misspelt word) (more : List Char) :
    Misspelt (word ++ more) := by
  have hne : word ≠ [] := by
    rintro rfl
    cases h.starts
  have hunsigned := unsigned_append hne more
  refine ⟨?_, ?_⟩
  . rw [hunsigned]
    apply startsNumber_append h.starts
  . rw [hunsigned, List.all_append, List.count_append]
    rcases h.wrong with hchars | hpoints
    . left
      rw [hchars, Bool.false_and]
    . right
      omega

end Word

/-! Tokens. -/

namespace Reader

variable {r : Reader} {e : ReadError}

theorem step_isIncomplete {t : Token} (h : r.step t = .error e) : e.isIncomplete = false := by
  unfold step at h
  split at h
  . cases h
  . cases h
  . split at h
    . cases h
      rfl
    . cases h

theorem foldlM_step_isIncomplete {tokens : List Token} (h : tokens.foldlM step r = .error e) :
    e.isIncomplete = false := by
  induction tokens generalizing r with
  | nil => cases h
  | cons t rest ih =>
    rw [List.foldlM_cons] at h
    cases hstep : r.step t with
    | error e' =>
      rw [hstep] at h
      cases h
      apply step_isIncomplete hstep
    | ok r' =>
      rw [hstep] at h
      apply ih h

theorem finish_isIncomplete (h : r.finish = .error e) : e.isIncomplete := by
  unfold finish at h
  split at h
  . cases h
  . cases h
    rfl

theorem foldlM_step_suffix {found found' : List Token} (hfound : found <:+ found')
    (h : found.reverse.foldlM step r = .error e) : found'.reverse.foldlM step r = .error e := by
  obtain ⟨new, rfl⟩ := hfound
  rw [List.reverse_append, List.foldlM_append, h]
  rfl

end Reader

namespace Lexer

variable {l : Lexer} {e : ReadError}

theorem finish_tokens (l : Lexer) :
    l.finish.tokens = l.tokens ∨ ∃ a location, l.finish.tokens = ⟨.atom a, location⟩ :: l.tokens := by
  unfold finish
  split
  . left
    rfl
  . split
    . left
      rfl
    . left
      rfl
    . unfold endWord
      split
      . right
        exact ⟨_, _, rfl⟩
      . left
        rfl
    . left
      rfl

-- The last word may still grow. This does no harm, as an atom fits everywhere.
theorem foldlM_finish_tokens (h : l.finish.tokens.reverse.foldlM Reader.step {} = .error e) :
    l.tokens.reverse.foldlM Reader.step {} = .error e := by
  rcases l.finish_tokens with htokens | ⟨a, location, htokens⟩
  . rw [← htokens, h]
  . rw [htokens, List.reverse_cons, List.foldlM_append] at h
    cases hfold : l.tokens.reverse.foldlM Reader.step {} with
    | error e' =>
      rw [hfold] at h
      apply h
    | ok r =>
      rw [hfold] at h
      cases h

theorem tokens_suffix_finish (l : Lexer) : l.tokens <:+ l.finish.tokens := by
  rcases l.finish_tokens with htokens | ⟨a, location, htokens⟩
  . simp only [htokens, List.suffix_rfl]
  . simp only [htokens, List.suffix_cons]

theorem scan_data_of_tokens (h : l.tokens.reverse.foldlM Reader.step {} = .error e) :
    l.scan.data = .error e := by
  unfold Scan.data scan
  rw [Reader.foldlM_step_suffix l.tokens_suffix_finish h]
  rfl

end Lexer

/-! Errors that stay. -/

/--
The error is at the place, and more text does not help.
-/
structure ReadError.FoundAt (e : ReadError) (line column : Int) : Prop where
  final : e.isIncomplete = false
  location : ∃ l, e.location = some l ∧ l.line = line ∧ l.column = column

namespace Lexer

variable {l : Lexer} {e : ReadError} {line column : Int}

/--
There is an error at the place, or the lexer reads a word there that will be one.
-/
inductive Broken (line column : Int) (l : Lexer) : Prop where
  | failed {e : ReadError} (herror : l.error = some e) (he : e.FoundAt line column)
  | word {start : Mark} {read : List Char} (herror : l.error = none)
      (hmode : l.mode = .word start read) (hword : Word.Misspelt read.reverse)
      (hline : start.line = line) (hcolumn : start.column = column)

theorem endWord_broken {start : Mark} {read : List Char} (hword : Word.Misspelt read.reverse)
    (hline : start.line = line) (hcolumn : start.column = column) :
    ∃ e, (l.endWord start read).error = some e ∧ e.FoundAt line column ∧
      (l.endWord start read).tokens = l.tokens := by
  obtain ⟨fault, hfault⟩ := hword.classify
  unfold endWord
  rw [hfault]
  refine ⟨_, rfl, ⟨?_, ?_⟩, rfl⟩
  . apply Word.classify_isIncomplete hfault
  . exact ⟨_, rfl, hline, hcolumn⟩

theorem Broken.step (h : l.Broken line column) (c : Char) :
    (l.step c).Broken line column ∧ (l.step c).tokens = l.tokens := by
  cases h with
  | failed herror he =>
    rw [step_error (by simp [herror])]
    exact ⟨.failed herror he, rfl⟩
  | @word start read herror hmode hword hline hcolumn =>
    rw [step_of_ok herror, take, hmode]
    dsimp only
    split
    . obtain ⟨e, herror, he, htokens⟩ := endWord_broken (l := l) hword hline hcolumn
      simp only [herror, Option.isSome_some, if_true]
      exact ⟨.failed rfl he, htokens⟩
    . refine ⟨.word herror rfl ?_ hline hcolumn, rfl⟩
      rw [List.reverse_cons]
      apply hword.append

theorem Broken.foldl_step (h : l.Broken line column) (text : List Char) :
    (text.foldl Lexer.step l).Broken line column ∧
      (text.foldl Lexer.step l).tokens = l.tokens := by
  induction text generalizing l with
  | nil => exact ⟨h, rfl⟩
  | cons c rest ih =>
    obtain ⟨hstep, htokens⟩ := h.step c
    obtain ⟨hrest, htokens'⟩ := ih hstep
    exact ⟨hrest, htokens'.trans htokens⟩

theorem Broken.finish (h : l.Broken line column) :
    ∃ e, l.finish.error = some e ∧ e.FoundAt line column ∧ l.finish.tokens = l.tokens := by
  cases h with
  | failed herror he =>
    rw [finish_error (by simp [herror])]
    exact ⟨_, herror, he, rfl⟩
  | @word start read herror hmode hword hline hcolumn =>
    have hfinish : l.finish = l.endWord start read := by
      unfold Lexer.finish
      rw [herror, hmode]
      rfl
    rw [hfinish]
    apply endWord_broken hword hline hcolumn

theorem broken_of_finish (hlocated : l.LocatedError) (h : l.finish.error = some e)
    (hfinal : e.isIncomplete = false) :
    ∃ line column, l.Broken line column ∧ e.FoundAt line column := by
  obtain ⟨location, hlocation⟩ := Option.isSome_iff_exists.1 (finish_located hlocated e h)
  have hfound : e.FoundAt location.line location.column := ⟨hfinal, _, hlocation, rfl, rfl⟩
  refine ⟨location.line, location.column, ?_, hfound⟩
  rcases finish_error_cases h with herror | ⟨herror, hword | hliteral⟩
  . apply Broken.failed herror hfound
  . obtain ⟨start, read, fault, hmode, hword, rfl⟩ := hword
    cases hlocation
    apply Broken.word herror hmode (.of_classify hword) rfl rfl
  . obtain ⟨mark, start, read, escaped, hmode, rfl, -⟩ := hliteral
    contradiction

end Lexer

theorem Datum.readAll_foundAt {file : String} {text : List Char} {e : ReadError}
    (h : Datum.readAll file text = .error e) (hfinal : e.isIncomplete = false) (more : List Char) :
    ∃ line column, e.FoundAt line column ∧
      ∃ e', Datum.readAll file (text ++ more) = .error e' ∧ e'.FoundAt line column := by
  have hlocated := Datum.readAll_parsed file text
  rw [h] at hlocated
  rw [Datum.readAll_eq_data] at h ⊢
  rw [List.foldl_append]
  generalize hl : text.foldl Lexer.step { file } = l at h ⊢
  rcases Scan.data_eq_error h with hfold | ⟨r, hfold, herror | ⟨-, hfinish⟩⟩
  . obtain ⟨location, hlocation⟩ := Option.isSome_iff_exists.1 hlocated
    have hfound : e.FoundAt location.line location.column := ⟨hfinal, location, hlocation, rfl, rfl⟩
    have hmore := Reader.foldlM_step_suffix (l.foldl_step_extends more).tokens
      (Lexer.foldlM_finish_tokens hfold)
    exact ⟨_, _, hfound, e, Lexer.scan_data_of_tokens hmore, hfound⟩
  . have hl : l.LocatedError := by
      rw [← hl]
      apply Lexer.foldl_step_located
      intro e he
      contradiction
    obtain ⟨line, column, hbroken, he⟩ := Lexer.broken_of_finish hl herror hfinal
    obtain ⟨-, -, -, htokens⟩ := hbroken.finish
    obtain ⟨hmore, hsame⟩ := hbroken.foldl_step more
    obtain ⟨e', herror', he', htokens'⟩ := hmore.finish
    have hfold' : (more.foldl Lexer.step l).scan.tokens.foldlM Reader.step {} = .ok r := by
      unfold Lexer.scan at hfold ⊢
      rw [htokens', hsame, ← htokens, hfold]
    exact ⟨line, column, he, e', Scan.data_of_error hfold' herror', he'⟩
  . have hincomplete := Reader.finish_isIncomplete hfinish
    simp [hfinal] at hincomplete

theorem readAll_final {file : String} {text : List Char} {e : ReadError}
    (h : Datum.readAll file text = .error e) (hfinal : e.isIncomplete = false) (more : List Char) :
    ∃ e' l l', Datum.readAll file (text ++ more) = .error e' ∧ e'.isIncomplete = false ∧
      e.location = some l ∧ e'.location = some l' ∧ l'.line = l.line ∧ l'.column = l.column := by
  obtain ⟨line, column, he, e', h', he'⟩ := Datum.readAll_foundAt h hfinal more
  obtain ⟨l, hl, hline, hcolumn⟩ := he.location
  obtain ⟨l', hl', hline', hcolumn'⟩ := he'.location
  refine ⟨e', l, l', h', he'.final, hl, hl', ?_, ?_⟩
  . rw [hline', hline]
  . rw [hcolumn', hcolumn]

theorem readAll_final_number :
    let text := ['(', '\n', '1', '.', '2', '.']
    let fault : ReadError :=
      { fault := .manyPoints "1.2."
        location := some { file := "f", line := 2, column := 1, length := 4 } }
    Datum.readAll "f" text = .error fault ∧ fault.isIncomplete = false ∧
      ∃ e' l, Datum.readAll "f" (text ++ ['x', ')']) = .error e' ∧ e'.isIncomplete = false ∧
        e'.location = some l ∧ l.line = 2 ∧ l.column = 1 := by
  intro text fault
  have h : Datum.readAll "f" text = .error fault := by
    rfl
  obtain ⟨e', l, l', h', hfinal, hl, hl', hline, hcolumn⟩ := readAll_final h rfl ['x', ')']
  cases hl
  exact ⟨h, rfl, e', l', h', hfinal, hl', hline, hcolumn⟩

end LispScript
