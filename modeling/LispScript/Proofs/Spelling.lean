import LispScript.Proofs.Naming

/-!
This module contains the ways to write a token down: a parenthesis, a word, or a quoted literal from its
opening to its closing quote. Whatever is written in one of these ways is read as this token if it stands
alone.
-/

namespace LispScript

/--
A quoted literal as far as it has been written, from its opening quote on; its characters are in reverse. The
Boolean says whether an escape has been begun.
-/
inductive QuoteMark.Opens (mark : QuoteMark) : List Char → List Char → Bool → Prop where
  | start : Opens mark [mark.char] [] false
  | plain {text read : List Char} {c : Char} (h : Opens mark text read false) (hmark : c ≠ mark.char)
      (hc : c ≠ '\\') : Opens mark (text ++ [c]) (c :: read) false
  | backslash {text read : List Char} (h : Opens mark text read false) :
      Opens mark (text ++ ['\\']) read true
  | escape {text read : List Char} {c d : Char} (h : Opens mark text read true)
      (hd : Lexer.unescape c = some d) : Opens mark (text ++ [c]) (d :: read) false

/--
The text is a way to write the lexeme.
-/
inductive Lexeme.Written : Lexeme → List Char → Prop where
  | opening : Written .opening ['(']
  | closing : Written .closing [')']
  | word {word : List Char} {a : Atom} (h : Word.Spells word a) : Written (.atom a) word
  | string {text read : List Char} (h : QuoteMark.double.Opens text read false) :
      Written (.atom (.string (String.ofList read.reverse))) (text ++ [QuoteMark.double.char])
  | character {text : List Char} {c : Char} (h : QuoteMark.single.Opens text [c] false) :
      Written (.atom (.character c)) (text ++ [QuoteMark.single.char])

/--
The text is read as the lexeme if there is nothing else.
-/
def Lexeme.ReadFrom (lexeme : Lexeme) (text : List Char) : Prop :=
  ∀ file, (Token.scan file text).error = none ∧
    (Token.scan file text).tokens.map Token.lexeme = [lexeme]

variable {mark : QuoteMark} {text read : List Char} {escaped : Bool} {lexeme : Lexeme}

theorem QuoteMark.Opens.head? (h : mark.Opens text read escaped) : text.head? = some mark.char := by
  induction h with
  | start => rfl
  | plain _ _ _ ih => rw [List.head?_append, ih, Option.some_or]
  | backslash _ ih => rw [List.head?_append, ih, Option.some_or]
  | escape _ _ ih => rw [List.head?_append, ih, Option.some_or]

theorem Lexeme.Written.ne_nil (h : lexeme.Written text) : text ≠ [] := by
  cases h with
  | word h => exact h.nonempty
  | _ => simp

/--
Only in a quoted literal, there can be the end of a line.
-/
theorem Lexeme.Written.quoted (h : lexeme.Written text) (hnewline : '\n' ∈ text) :
    ∃ mark : QuoteMark, text.head? = some mark.char := by
  cases h with
  | opening => simp at hnewline
  | closing => simp at hnewline
  | word h => exact absurd (h.inner '\n' hnewline) (by decide)
  | string h => exact ⟨.double, by rw [List.head?_append, h.head?, Option.some_or]⟩
  | character h => exact ⟨.single, by rw [List.head?_append, h.head?, Option.some_or]⟩

/-! Reading. -/

namespace Lexer

variable {l : Lexer} {found : List Lexeme}

/--
The lexer is inside of a quoted literal.
-/
structure Opened (l : Lexer) (mark : QuoteMark) (read : List Char) (escaped : Bool) (found : List Lexeme) :
    Prop where
  error : l.error = none
  mode : ∃ start, l.mode = .literal mark start read escaped
  tokens : l.tokens.map Token.lexeme = found

theorem Opened.step {c : Char} (h : l.Opened mark read escaped found) {read' : List Char} {escaped' : Bool}
    (htake : ∀ start, l.takeLiteral mark start read escaped c
      = { l with mode := .literal mark start read' escaped' }) :
    (l.step c).Opened mark read' escaped' found := by
  obtain ⟨start, hmode⟩ := h.mode
  rw [step_of_ok h.error, take, hmode]
  simp only [htake]
  exact ⟨h.error, ⟨start, rfl⟩, h.tokens⟩

theorem Rests.opens (h : l.Rests found) (hopens : mark.Opens text read escaped) :
    (text.foldl step l).Opened mark read escaped found := by
  induction hopens with
  | start =>
    have hquotes := h.step_quote mark
    exact ⟨hquotes.error, hquotes.mode, hquotes.tokens⟩
  | plain _ hmark hc ih =>
    rw [List.foldl_append]
    apply ih.step
    simp [takeLiteral, hmark, hc]
  | backslash _ ih =>
    have hmark : '\\' ≠ mark.char := by
      cases mark <;> decide
    rw [List.foldl_append]
    apply ih.step
    simp [takeLiteral, hmark]
  | escape _ hd ih =>
    rw [List.foldl_append]
    apply ih.step
    simp [takeLiteral, hd]

theorem Rests.literal (h : l.Rests found) (hopens : mark.Opens text read false) {a : Atom}
    (ha : ∀ (l : Lexer) start stop, l.endLiteral mark start stop read = l.emit start stop (.atom a)) :
    ((text ++ [mark.char]).foldl step l).Rests (.atom a :: found) := by
  have hopened := h.opens hopens
  have hquotes : (text.foldl step l).Quotes mark read found :=
    ⟨hopened.error, hopened.mode, hopened.tokens⟩
  rw [List.foldl_append]
  exact hquotes.step_quote (ha _)

theorem Rests.written (h : l.Rests found) (hwritten : lexeme.Written text) :
    (text.foldl step l).Shows (lexeme :: found) := by
  cases hwritten with
  | opening => exact .rests (Shows.rests h).step_opening
  | closing => exact .rests (Shows.rests h).step_closing
  | word hword => exact h.word hword
  | string hopens => exact .rests (h.literal hopens fun _ _ _ => rfl)
  | character hopens => exact .rests (h.literal hopens fun _ _ _ => rfl)

end Lexer

theorem Lexeme.Written.readFrom (h : lexeme.Written text) : lexeme.ReadFrom text := by
  intro file
  have hstart : Lexer.Rests { file } [] := ⟨rfl, rfl, rfl⟩
  obtain ⟨herror, htokens⟩ := (hstart.written h).finish
  refine ⟨herror, ?_⟩
  unfold Token.scan
  rw [List.map_reverse, htokens, List.reverse_singleton]

end LispScript
