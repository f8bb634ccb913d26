import LispScript.Datum
import LispScript.Value.Print

/-!
This module contains the ways to lay out tokens as text, and the proof that the tokens are found again.
A word goes on until something ends it, so that after a word the lexer has not noticed its end yet.
`Lexer.Shows` covers this: the word counts as found if it could end where the lexer stands.
-/

namespace LispScript

/--
White space and line comments, each comment with the end of its line.
-/
inductive Gap : List Char → Prop where
  | nil : Gap []
  | blank {c : Char} {rest : List Char} (hc : isBlank c) (hrest : Gap rest) : Gap (c :: rest)
  | comment {body rest : List Char} (hbody : '\n' ∉ body) (hrest : Gap rest) :
      Gap (';' :: body ++ '\n' :: rest)

structure Word.Spells (word : List Char) (a : Atom) : Prop where
  nonempty : word ≠ []
  inner : ∀ c ∈ word, Word.isEnd c = false
  start : word.head? ≠ some '\''
  atom : Word.classify word = .ok a

namespace Atom

/--
The atom can be written down: a number or a symbol has to be a word that is read as such.
-/
def Proper : Atom → Prop
  | integer word => Word.Spells word.toList (integer word)
  | real word => Word.Spells word.toList (real word)
  | symbol name => Word.Spells name.toList (symbol name)
  | character _ | string _ => True

def text : Atom → List Char
  | integer word | real word | symbol word => word.toList
  | character c => (Value.quotedText '\'' [c]).toList
  | string content => (Value.quotedText '"' content.toList).toList

end Atom

namespace Lexeme

def text : Lexeme → List Char
  | opening => ['(']
  | closing => [')']
  | atom a => a.text

def isAtom : Lexeme → Bool
  | atom _ => true
  | _ => false

end Lexeme

/--
The tokens are laid out as the text. There may be a gap after each of them, and between two atoms there
must be one.
-/
inductive Layout : List Lexeme → List Char → Prop where
  | nil : Layout [] []
  | cons {lexeme : Lexeme} {rest : List Lexeme} {gap text : List Char} (hgap : Gap gap)
      (hapart : lexeme.isAtom → rest.head?.any Lexeme.isAtom → gap ≠ [])
      (hrest : Layout rest text) : Layout (lexeme :: rest) (lexeme.text ++ gap ++ text)

namespace Lexer

variable {l : Lexer} {found : List Lexeme} {c : Char}

structure Rests (l : Lexer) (found : List Lexeme) : Prop where
  error : l.error = none
  mode : l.mode = .between
  tokens : l.tokens.map Token.lexeme = found

structure Comments (l : Lexer) (found : List Lexeme) : Prop where
  error : l.error = none
  mode : l.mode = .comment
  tokens : l.tokens.map Token.lexeme = found

structure Spells (l : Lexer) (read : List Char) (found : List Lexeme) : Prop where
  error : l.error = none
  mode : ∃ start, l.mode = .word start read
  tokens : l.tokens.map Token.lexeme = found

structure Quotes (l : Lexer) (mark : QuoteMark) (read : List Char) (found : List Lexeme) :
    Prop where
  error : l.error = none
  mode : ∃ start, l.mode = .literal mark start read false
  tokens : l.tokens.map Token.lexeme = found

inductive Shows (l : Lexer) : List Lexeme → Prop where
  | rests {found : List Lexeme} (h : l.Rests found) : Shows l found
  | word {read : List Char} {a : Atom} {found : List Lexeme} (h : l.Spells read found)
      (hword : Word.classify read.reverse = .ok a) : Shows l (.atom a :: found)

theorem step_of_ok (h : l.error = none) (c : Char) :
    l.step c = { l.take c with place := l.place.after c } := by
  unfold step
  rw [h]
  rfl

theorem Shows.step_end (h : l.Shows found) (hc : Word.isEnd c) :
    ∃ l' : Lexer, l'.Rests found ∧ l.step c = { l'.takeBetween c with place := l.place.after c } := by
  cases h with
  | rests h =>
    refine ⟨l, h, ?_⟩
    rw [step_of_ok h.error, take, h.mode]
  | @word read a found h hword =>
    obtain ⟨start, hmode⟩ := h.mode
    have hend : l.endWord start read = l.emit start l.place (.atom a) := by
      unfold endWord
      rw [hword]
    -- The word ends before the character, which is then taken as if there had been none.
    refine ⟨l.emit start l.place (.atom a), ⟨h.error, rfl, ?_⟩, ?_⟩
    . simp [emit, h.tokens]
    . rw [step_of_ok h.error, take, hmode]
      simp [hc, hend, emit, h.error]

theorem Shows.step_blank (h : l.Shows found) (hc : isBlank c) : (l.step c).Rests found := by
  have hend : Word.isEnd c := by simp [Word.isEnd, hc]
  obtain ⟨l', hl', hstep⟩ := h.step_end hend
  have htake : l'.takeBetween c = l' := by
    simp [takeBetween, hc]
  rw [hstep, htake]
  exact ⟨hl'.error, hl'.mode, hl'.tokens⟩

theorem Shows.step_semicolon (h : l.Shows found) : (l.step ';').Comments found := by
  obtain ⟨l', hl', hstep⟩ := h.step_end (c := ';') rfl
  have htake : l'.takeBetween ';' = { l' with mode := .comment } := by
    rfl
  rw [hstep, htake]
  exact ⟨hl'.error, rfl, hl'.tokens⟩

theorem Shows.step_opening (h : l.Shows found) : (l.step '(').Rests (.opening :: found) := by
  obtain ⟨l', hl', hstep⟩ := h.step_end (c := '(') rfl
  have htake : l'.takeBetween '(' = l'.emit l'.place (l'.place.after '(') .opening := by
    rfl
  rw [hstep, htake]
  refine ⟨hl'.error, rfl, ?_⟩
  simp [emit, hl'.tokens]

theorem Shows.step_closing (h : l.Shows found) : (l.step ')').Rests (.closing :: found) := by
  obtain ⟨l', hl', hstep⟩ := h.step_end (c := ')') rfl
  have htake : l'.takeBetween ')' = l'.emit l'.place (l'.place.after ')') .closing := by
    rfl
  rw [hstep, htake]
  refine ⟨hl'.error, rfl, ?_⟩
  simp [emit, hl'.tokens]

theorem Comments.foldl_step (h : l.Comments found) {body : List Char} (hbody : '\n' ∉ body) :
    (body.foldl step l).Comments found := by
  induction body generalizing l with
  | nil => apply h
  | cons c body ih =>
    have hc : ¬ c = '\n' := fun hc => hbody (hc ▸ List.mem_cons_self)
    apply ih _ fun hmem => hbody (List.mem_cons_of_mem c hmem)
    rw [step_of_ok h.error, take, h.mode]
    simp only [hc]
    exact ⟨h.error, h.mode, h.tokens⟩

theorem Comments.step_newline (h : l.Comments found) : (l.step '\n').Rests found := by
  rw [step_of_ok h.error, take, h.mode]
  exact ⟨h.error, rfl, h.tokens⟩

theorem Shows.comment (h : l.Shows found) {body : List Char} (hbody : '\n' ∉ body) :
    ((';' :: body ++ ['\n']).foldl step l).Rests found := by
  rw [List.foldl_append]
  apply Comments.step_newline
  apply h.step_semicolon.foldl_step hbody

theorem Rests.gap (h : l.Rests found) {gap : List Char} (hgap : Gap gap) :
    (gap.foldl step l).Rests found := by
  induction hgap generalizing l with
  | nil => apply h
  | blank hc _ ih =>
    apply ih
    apply Shows.step_blank (.rests h) hc
  | @comment body rest hbody _ ih =>
    have happend : ';' :: body ++ '\n' :: rest = (';' :: body ++ ['\n']) ++ rest := by simp
    rw [happend, List.foldl_append]
    apply ih
    apply Shows.comment (.rests h) hbody

theorem Shows.gap (h : l.Shows found) {gap : List Char} (hgap : Gap gap) (hne : gap ≠ []) :
    (gap.foldl step l).Rests found := by
  cases hgap with
  | nil => contradiction
  | blank hc hrest => apply (h.step_blank hc).gap hrest
  | @comment body rest hbody hrest =>
    have happend : ';' :: body ++ '\n' :: rest = (';' :: body ++ ['\n']) ++ rest := by simp
    rw [happend, List.foldl_append]
    apply (h.comment hbody).gap hrest

theorem Shows.gap_or_nothing (h : l.Shows found) {gap : List Char} (hgap : Gap gap) :
    (gap.foldl step l).Shows found := by
  by_cases hne : gap = []
  . subst hne
    apply h
  . apply Shows.rests (h.gap hgap hne)

/-! Words. -/

theorem Spells.foldl_step {read word : List Char} (h : l.Spells read found)
    (hword : ∀ c ∈ word, Word.isEnd c = false) :
    (word.foldl step l).Spells (word.reverse ++ read) found := by
  induction word generalizing l read with
  | nil => apply h
  | cons c word ih =>
    obtain ⟨start, hmode⟩ := h.mode
    have hc := hword c List.mem_cons_self
    have hstep : (l.step c).Spells (c :: read) found := by
      rw [step_of_ok h.error, take, hmode]
      simp only [hc]
      exact ⟨h.error, ⟨start, rfl⟩, h.tokens⟩
    rw [List.reverse_cons, List.append_assoc]
    apply ih hstep
    intro d hd
    apply hword d (List.mem_cons_of_mem c hd)

theorem Rests.step_word (h : l.Rests found) (hc : Word.isEnd c = false) (hquote : c ≠ '\'') :
    (l.step c).Spells [c] found := by
  simp only [Word.isEnd, Bool.or_eq_false_iff, beq_eq_false_iff_ne] at hc
  obtain ⟨⟨⟨⟨hblank, hopening⟩, hclosing⟩, hdouble⟩, hsemicolon⟩ := hc
  rw [step_of_ok h.error, take, h.mode]
  simp only [takeBetween, hblank, hsemicolon, hopening, hclosing, hdouble, hquote]
  exact ⟨h.error, ⟨l.place, rfl⟩, h.tokens⟩

theorem Rests.spells (h : l.Rests found) {word : List Char} (hne : word ≠ [])
    (hinner : ∀ c ∈ word, Word.isEnd c = false) (hstart : word.head? ≠ some '\'') :
    (word.foldl step l).Spells word.reverse found := by
  cases word with
  | nil => contradiction
  | cons c word =>
    have hquote : c ≠ '\'' := by
      intro hc
      apply hstart
      rw [hc]
      rfl
    have hfirst := h.step_word (hinner c List.mem_cons_self) hquote
    rw [List.reverse_cons]
    exact hfirst.foldl_step fun d hd => hinner d (List.mem_cons_of_mem c hd)

theorem Rests.word (h : l.Rests found) {word : List Char} {a : Atom} (hword : Word.Spells word a) :
    (word.foldl step l).Shows (.atom a :: found) := by
  apply Shows.word (h.spells hword.nonempty hword.inner hword.start)
  rw [List.reverse_reverse]
  exact hword.atom

/-! Quoted literals. -/

variable {mark : QuoteMark} {read : List Char}

theorem Quotes.step_plain (h : l.Quotes mark read found) (hmark : c ≠ mark.char) (hc : c ≠ '\\') :
    (l.step c).Quotes mark (c :: read) found := by
  obtain ⟨start, hmode⟩ := h.mode
  rw [step_of_ok h.error, take, hmode]
  simp only [takeLiteral, hmark, hc]
  exact ⟨h.error, ⟨start, rfl⟩, h.tokens⟩

theorem Quotes.step_escape (h : l.Quotes mark read found) {letter : Char}
    (hletter : unescape letter = some c) :
    (['\\', letter].foldl step l).Quotes mark (c :: read) found := by
  obtain ⟨start, hmode⟩ := h.mode
  have hmark : '\\' ≠ mark.char := by
    cases mark <;> decide
  have hstep : l.step '\\'
      = { l with mode := .literal mark start read true, place := l.place.after '\\' } := by
    rw [step_of_ok h.error, take, hmode]
    simp [takeLiteral, hmark]
  rw [List.foldl_cons, hstep, List.foldl_cons, List.foldl_nil]
  simp only [step, h.error, take, takeLiteral, hletter]
  exact ⟨rfl, ⟨start, rfl⟩, h.tokens⟩

theorem Quotes.char (h : l.Quotes mark read found) (c : Char) :
    ((Value.charText mark.char c).foldl step l).Quotes mark (c :: read) found := by
  unfold Value.charText
  split
  . apply h.step_escape rfl
  . apply h.step_escape rfl
  . apply h.step_escape rfl
  . apply h.step_escape rfl
  . next hbackslash =>
    split
    . next hmark =>
      apply h.step_escape
      rw [hmark]
      cases mark <;> rfl
    . next hmark => apply h.step_plain hmark hbackslash

theorem Quotes.chars (h : l.Quotes mark read found) (content : List Char) :
    ((content.flatMap (Value.charText mark.char)).foldl step l).Quotes mark
      (content.reverse ++ read) found := by
  induction content generalizing l read with
  | nil => apply h
  | cons c content ih =>
    rw [List.flatMap_cons, List.foldl_append, List.reverse_cons, List.append_assoc]
    apply ih
    apply h.char

theorem Rests.step_quote (h : l.Rests found) (mark : QuoteMark) :
    (l.step mark.char).Quotes mark [] found := by
  rw [step_of_ok h.error, take, h.mode]
  cases mark with
  | single => exact ⟨h.error, ⟨l.place, rfl⟩, h.tokens⟩
  | double => exact ⟨h.error, ⟨l.place, rfl⟩, h.tokens⟩

theorem Quotes.step_quote (h : l.Quotes mark read found) {a : Atom}
    (ha : ∀ start stop : Mark, l.endLiteral mark start stop read = l.emit start stop (.atom a)) :
    (l.step mark.char).Rests (.atom a :: found) := by
  obtain ⟨start, hmode⟩ := h.mode
  have htake : l.take mark.char = l.emit start (l.place.after mark.char) (.atom a) := by
    rw [take, hmode]
    simp [takeLiteral, ha]
  rw [step_of_ok h.error, htake]
  refine ⟨h.error, rfl, ?_⟩
  simp [emit, h.tokens]

theorem Rests.quoted (h : l.Rests found) (mark : QuoteMark) (content : List Char) {a : Atom}
    (ha : ∀ (l : Lexer) start stop,
      l.endLiteral mark start stop content.reverse = l.emit start stop (.atom a)) :
    ((Value.quotedText mark.char content).toList.foldl step l).Rests (.atom a :: found) := by
  have hquotes := (h.step_quote mark).chars content
  rw [List.append_nil] at hquotes
  have hrests := hquotes.step_quote (ha _)
  unfold Value.quotedText
  rw [String.toList_ofList, List.cons_append, List.foldl_cons, List.foldl_append]
  apply hrests

/-! Tokens. -/

theorem Rests.atom (h : l.Rests found) {a : Atom} (ha : a.Proper) :
    (a.text.foldl step l).Shows (.atom a :: found) := by
  cases a with
  | integer word => apply h.word ha
  | real word => apply h.word ha
  | symbol name => apply h.word ha
  | character c =>
    apply Shows.rests
    apply h.quoted .single [c]
    intros
    rfl
  | string content =>
    apply Shows.rests
    apply h.quoted .double content.toList
    intro l start stop
    simp [endLiteral]

theorem Shows.layout {lexemes : List Lexeme} {text : List Char} (hlayout : Layout lexemes text)
    (hproper : ∀ a, .atom a ∈ lexemes → a.Proper) (h : l.Shows found)
    (hrests : lexemes.head?.any Lexeme.isAtom → l.Rests found) :
    (text.foldl step l).Shows (lexemes.reverse ++ found) := by
  induction hlayout generalizing l found with
  | nil => apply h
  | @cons lexeme rest gap text hgap hapart hrest ih =>
    rw [List.foldl_append, List.foldl_append, List.reverse_cons, List.append_assoc]
    have hfound : (lexeme.text.foldl step l).Shows (lexeme :: found) := by
      cases lexeme with
      | opening => apply Shows.rests h.step_opening
      | closing => apply Shows.rests h.step_closing
      | atom a => apply (hrests rfl).atom (hproper a List.mem_cons_self)
    apply ih
    . intro a ha
      apply hproper a (List.mem_cons_of_mem lexeme ha)
    . apply hfound.gap_or_nothing hgap
    -- Only an atom can leave a word behind, and then there is a gap before the next atom.
    . intro hnext
      cases lexeme with
      | opening => apply h.step_opening.gap hgap
      | closing => apply h.step_closing.gap hgap
      | atom a => apply hfound.gap hgap (hapart rfl hnext)

theorem Shows.finish (h : l.Shows found) :
    l.finish.error = none ∧ l.finish.tokens.map Token.lexeme = found := by
  cases h with
  | rests h =>
    unfold Lexer.finish
    rw [h.error, h.mode]
    exact ⟨h.error, h.tokens⟩
  | word h hword =>
    obtain ⟨start, hmode⟩ := h.mode
    unfold Lexer.finish
    rw [h.error, hmode]
    simp [endWord, hword, emit, h.error, h.tokens]

end Lexer

theorem Token.scan_layout (file : String) {lexemes : List Lexeme} {gap text : List Char}
    (hgap : Gap gap) (hlayout : Layout lexemes text)
    (hproper : ∀ a, .atom a ∈ lexemes → a.Proper) :
    (Token.scan file (gap ++ text)).error = none ∧
      (Token.scan file (gap ++ text)).tokens.map Token.lexeme = lexemes := by
  have hstart : Lexer.Rests { file } [] := ⟨rfl, rfl, rfl⟩
  have hrests := hstart.gap hgap
  have hshows := Lexer.Shows.layout hlayout hproper (.rests hrests) fun _ => hrests
  rw [← List.foldl_append, List.append_nil] at hshows
  obtain ⟨herror, htokens⟩ := hshows.finish
  refine ⟨herror, ?_⟩
  unfold Token.scan
  rw [List.map_reverse, htokens, List.reverse_reverse]

end LispScript
