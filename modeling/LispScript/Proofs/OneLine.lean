import LispScript.Proofs.Continuation
import Mathlib.Algebra.Ring.Nat

/-!
This module contains what becomes of a text when it is written on one line, with a space for each line
break. Between tokens and at the end of a word a space is as good as a line break. In a literal it is
another character: `Lexer.Blurs` counts how often this happens. Only in a comment everything comes out
differently, because the comment does not end there.
-/

namespace LispScript

/-! Characters. -/

/--
The character that stands for `c` where a text is written on one line.
-/
def spaced (c : Char) : Char :=
  if c = '\n' then ' ' else c

def onOneLine (text : List Char) : List Char :=
  text.map spaced

theorem spaced_of_ne {c : Char} (h : c ≠ '\n') : spaced c = c :=
  if_neg h

theorem newline_not_mem_onOneLine (text : List Char) : '\n' ∉ onOneLine text := by
  intro h
  obtain ⟨c, _, hc⟩ := List.mem_map.1 h
  unfold spaced at hc
  split at hc
  . contradiction
  . contradiction

theorem Word.isEnd_spaced (c : Char) : isEnd (spaced c) = isEnd c := by
  by_cases hc : c = '\n'
  . subst hc
    rfl
  . rw [spaced_of_ne hc]

/--
The characters are the same, but for `n` spaces in the place of line breaks.
-/
inductive Blurs : Nat → List Char → List Char → Prop where
  | nil : Blurs 0 [] []
  | same {n : Nat} {xs ys : List Char} (c : Char) (h : Blurs n xs ys) : Blurs n (c :: xs) (c :: ys)
  | newline {n : Nat} {xs ys : List Char} (h : Blurs n xs ys) :
      Blurs (n + 1) ('\n' :: xs) (' ' :: ys)

theorem Blurs.eq {n : Nat} {xs ys : List Char} (h : Blurs n xs ys) (hn : n = 0) : xs = ys := by
  induction h with
  | nil => rfl
  | same c _ ih => rw [ih hn]
  | newline => contradiction

theorem Blurs.count {n : Nat} {xs ys : List Char} (h : Blurs n xs ys) :
    xs.count '\n' = ys.count '\n' + n := by
  induction h with
  | nil => rfl
  | same c _ ih =>
    rw [List.count_cons, List.count_cons, ih]
    omega
  | newline _ ih =>
    rw [List.count_cons_self, List.count_cons_of_ne (by decide), ih]
    omega

/-! Lexemes. -/

/--
How many line breaks a quoted literal holds.
-/
def Atom.lineBreaks : Atom → Nat
  | .character c => [c].count '\n'
  | .string content => content.toList.count '\n'
  | _ => 0

def Lexeme.lineBreaks : Lexeme → Nat
  | .atom a => a.lineBreaks
  | _ => 0

inductive Lexeme.Blurs : Nat → Lexeme → Lexeme → Prop where
  | same (lexeme : Lexeme) : Blurs 0 lexeme lexeme
  | character {n : Nat} {c d : Char} (h : LispScript.Blurs n [c] [d]) :
      Blurs n (.atom (.character c)) (.atom (.character d))
  | string {n : Nat} {read read' : List Char} (h : LispScript.Blurs n read read') :
      Blurs n (.atom (.string (String.ofList read.reverse)))
        (.atom (.string (String.ofList read'.reverse)))

inductive LexemesBlur : Nat → List Lexeme → List Lexeme → Prop where
  | nil : LexemesBlur 0 [] []
  | cons {m n : Nat} {x y : Lexeme} {xs ys : List Lexeme} (h : x.Blurs m y)
      (hrest : LexemesBlur n xs ys) : LexemesBlur (m + n) (x :: xs) (y :: ys)

namespace LexemesBlur

variable {n : Nat} {xs ys : List Lexeme}

theorem eq (h : LexemesBlur n xs ys) (hn : n = 0) : xs = ys := by
  induction h with
  | nil => rfl
  | @cons m n x y xs ys hxy _ ih =>
    have hm : m = 0 := by omega
    rw [ih (by omega)]
    cases hxy with
    | same => rfl
    | character h => cases h.eq hm; rfl
    | string h => cases h.eq hm; rfl

theorem lineBreaks (h : LexemesBlur n xs ys) :
    (xs.map Lexeme.lineBreaks).sum = (ys.map Lexeme.lineBreaks).sum + n := by
  induction h with
  | nil => rfl
  | @cons m n x y xs ys hxy _ ih =>
    have hx : x.lineBreaks = y.lineBreaks + m := by
      cases hxy with
      | same => rfl
      | character h => exact h.count
      | string h => simpa [Lexeme.lineBreaks, Atom.lineBreaks] using h.count
    rw [List.map_cons, List.sum_cons, List.map_cons, List.sum_cons, ih, hx]
    omega

end LexemesBlur

/-! Lexers. -/

def Mode.isLiteral : Mode → Bool
  | .literal _ _ _ _ => true
  | _ => false

inductive Mode.Blurs : Nat → Mode → Mode → Prop where
  | between : Blurs 0 .between .between
  | comment : Blurs 0 .comment .comment
  | word (start start' : Mark) (read : List Char) : Blurs 0 (.word start read) (.word start' read)
  | literal {n : Nat} {read read' : List Char} (mark : QuoteMark) (start start' : Mark)
      (escaped : Bool) (h : LispScript.Blurs n read read') :
      Blurs n (.literal mark start read escaped) (.literal mark start' read' escaped)

namespace Lexer

/--
The lexers are in step with each other, but for `k` line breaks in the literal that is being read and `n`
in the tokens that have been found.
-/
structure Blurs (k n : Nat) (l l' : Lexer) : Prop where
  error : l.error = none
  error' : l'.error = none
  mode : l.mode.Blurs k l'.mode
  lexemes : LexemesBlur n (l.tokens.map Token.lexeme) (l'.tokens.map Token.lexeme)

/--
A line break of the text stands where the mode of the lexer is one of which `p` holds.
-/
def BreaksIn (p : Mode → Prop) (l : Lexer) (text : List Char) : Prop :=
  ∃ before after, text = before ++ '\n' :: after ∧ p (before.foldl step l).mode

variable {k n : Nat} {l l' : Lexer} {p : Mode → Prop} {text : List Char}

theorem not_breaksIn_nil : ¬ l.BreaksIn p [] := by
  rintro ⟨before, after, htext, _⟩
  simp at htext

theorem breaksIn_cons {c : Char} :
    l.BreaksIn p (c :: text) ↔ (c = '\n' ∧ p l.mode) ∨ (l.step c).BreaksIn p text := by
  constructor
  . rintro ⟨before, after, htext, hp⟩
    cases before with
    | nil =>
      cases htext
      exact .inl ⟨rfl, hp⟩
    | cons d before =>
      cases htext
      exact .inr ⟨before, after, rfl, hp⟩
  . rintro (⟨rfl, hp⟩ | ⟨before, after, rfl, hp⟩)
    . exact ⟨[], text, rfl, hp⟩
    . exact ⟨c :: before, after, rfl, hp⟩

/--
If a line break stands in such a mode, there is a first one that does.
-/
theorem BreaksIn.first (h : l.BreaksIn p text) : ∃ before after, text = before ++ '\n' :: after ∧
    p (before.foldl step l).mode ∧ ¬ l.BreaksIn p before := by
  induction text generalizing l with
  | nil => exact absurd h not_breaksIn_nil
  | cons c rest ih =>
    by_cases hhere : c = '\n' ∧ p l.mode
    . obtain ⟨rfl, hp⟩ := hhere
      exact ⟨[], rest, rfl, hp, not_breaksIn_nil⟩
    . obtain ⟨before, after, rfl, hp, hbefore⟩ := ih ((breaksIn_cons.1 h).resolve_left hhere)
      refine ⟨c :: before, after, rfl, hp, ?_⟩
      rw [breaksIn_cons]
      rintro (hhere' | hrest)
      . exact hhere hhere'
      . exact hbefore hrest

theorem error_of_foldl_step {text : List Char} (h : (text.foldl step l).error = none) :
    l.error = none := by
  cases herror : l.error with
  | none => rfl
  | some e =>
    rw [foldl_step_error (by simp [herror]), herror] at h
    contradiction

namespace Blurs

theorem start (file : String) : Blurs 0 0 { file } { file } :=
  ⟨rfl, rfl, .between, .nil⟩

theorem emit (h : l.Blurs k n l') {m : Nat} {x y : Lexeme} (hxy : x.Blurs m y)
    (start stop start' stop' : Mark) :
    (l.emit start stop x).Blurs 0 (m + n) (l'.emit start' stop' y) :=
  ⟨h.error, h.error', .between, .cons hxy h.lexemes⟩

theorem emit_same (h : l.Blurs k n l') (lexeme : Lexeme) (start stop start' stop' : Mark) :
    (l.emit start stop lexeme).Blurs 0 n (l'.emit start' stop' lexeme) := by
  have hemit := h.emit (.same lexeme) start stop start' stop'
  rw [Nat.zero_add] at hemit
  apply hemit

theorem enter (h : l.Blurs k n l') {mode mode' : Mode} {j : Nat} (hmode : mode.Blurs j mode')
    (place place' : Mark) : Blurs j n { l with mode, place } { l' with mode := mode', place := place' } :=
  ⟨h.error, h.error', hmode, h.lexemes⟩

theorem takeBetween (h : l.Blurs 0 n l') (c : Char) :
    (l.takeBetween c).Blurs 0 n (l'.takeBetween (spaced c)) := by
  by_cases hc : c = '\n'
  . subst hc
    apply h
  . rw [spaced_of_ne hc]
    unfold Lexer.takeBetween
    split
    . apply h
    . split
      . apply h.enter .comment
      . split
        . apply h.emit_same
        . split
          . apply h.emit_same
          . split
            . apply h.enter (.literal _ _ _ _ .nil)
            . split
              . apply h.enter (.literal _ _ _ _ .nil)
              . apply h.enter (.word _ _ _)

theorem endWord (h : l.Blurs k n l') {start : Mark} {read : List Char}
    (hok : (l.endWord start read).error = none) (start' : Mark) :
    (l.endWord start read).Blurs 0 n (l'.endWord start' read) := by
  unfold Lexer.endWord at hok ⊢
  cases hword : Word.classify read.reverse with
  | ok a => apply h.emit_same
  | error fault =>
    rw [hword] at hok
    cases hok

theorem endLiteral (h : l.Blurs k n l') {m : Nat} {read read' : List Char}
    (hread : LispScript.Blurs m read read') {mark : QuoteMark} {start start' stop stop' : Mark}
    (hok : (l.endLiteral mark start stop read).error = none) :
    (l.endLiteral mark start stop read).Blurs 0 (m + n) (l'.endLiteral mark start' stop' read') := by
  cases mark with
  | double => apply h.emit (.string hread)
  | single =>
    cases hread with
    | nil => cases hok
    | @same _ xs ys c hrest =>
      cases hrest with
      | nil => apply h.emit (.character (.same c .nil))
      | same => cases hok
      | newline => cases hok
    | @newline _ xs ys hrest =>
      cases hrest with
      | nil => apply h.emit (.character (.newline .nil))
      | same => cases hok
      | newline => cases hok

theorem takeLiteral (h : l.Blurs k n l') {m : Nat} {read read' : List Char}
    (hread : LispScript.Blurs m read read') {mark : QuoteMark} {start : Mark} {escaped : Bool}
    {c : Char} (hok : (l.takeLiteral mark start read escaped c).error = none) (start' : Mark) :
    ∃ k' n', (l.takeLiteral mark start read escaped c).Blurs k' n'
        (l'.takeLiteral mark start' read' escaped (spaced c)) ∧
      k' + n' = m + n + if c = '\n' then 1 else 0 := by
  by_cases hc : c = '\n'
  . subst hc
    cases escaped with
    | true => cases hok
    | false =>
      -- Neither the line break nor the space ends the literal or begins an escape.
      refine ⟨m + 1, n, ?_, by simp; omega⟩
      cases mark with
      | single => exact h.enter (.literal _ _ _ _ (.newline hread)) _ _
      | double => exact h.enter (.literal _ _ _ _ (.newline hread)) _ _
  . rw [spaced_of_ne hc, if_neg hc]
    unfold Lexer.takeLiteral at hok ⊢
    cases escaped with
    | true =>
      cases hescape : unescape c with
      | none =>
        simp only [hescape] at hok
        cases hok
      | some d => exact ⟨m, n, h.enter (.literal _ _ _ _ (.same d hread)) _ _, rfl⟩
    | false =>
      by_cases hmark : c = mark.char
      . simp only [hmark] at hok ⊢
        exact ⟨0, m + n, h.endLiteral hread hok, by omega⟩
      . by_cases hbackslash : c = '\\'
        . subst hbackslash
          simp only [hmark]
          exact ⟨m, n, h.enter (.literal _ _ _ _ hread) _ _, rfl⟩
        . simp only [hmark, hbackslash]
          exact ⟨m, n, h.enter (.literal _ _ _ _ (.same c hread)) _ _, rfl⟩

theorem take (h : l.Blurs k n l') {c : Char} (hok : (l.take c).error = none)
    (hcomment : ¬ (c = '\n' ∧ l.mode = .comment)) :
    ∃ k' n', (l.take c).Blurs k' n' (l'.take (spaced c)) ∧
      k' + n' = k + n + if c = '\n' ∧ l.mode.isLiteral then 1 else 0 := by
  have hmode := h.mode
  unfold Lexer.take at hok ⊢
  generalize l.mode = mode at hmode hok hcomment ⊢
  generalize l'.mode = mode' at hmode ⊢
  cases hmode with
  | between => exact ⟨0, n, h.takeBetween c, by simp [Mode.isLiteral]⟩
  | comment =>
    have hc : c ≠ '\n' := by simpa using hcomment
    rw [spaced_of_ne hc]
    simp only [hc]
    exact ⟨0, n, h, by simp⟩
  | word start start' read =>
    dsimp only at hok ⊢
    rw [Word.isEnd_spaced]
    cases hend : Word.isEnd c with
    | false =>
      have hc : c ≠ '\n' := by
        rintro rfl
        cases hend
      rw [spaced_of_ne hc]
      exact ⟨0, n, h.enter (.word start start' (c :: read)) _ _, by simp [hc]⟩
    | true =>
      rw [hend] at hok
      have hword : (l.endWord start read).error = none := by
        cases herror : (l.endWord start read).error with
        | none => rfl
        | some e => simp [herror] at hok
      have hended := h.endWord hword start'
      simp only [hended.error, hended.error']
      exact ⟨0, n, hended.takeBetween c, by simp [Mode.isLiteral]⟩
  | literal mark start start' escaped hread =>
    obtain ⟨k', n', htaken, hsum⟩ := h.takeLiteral hread hok start'
    exact ⟨k', n', htaken, by simpa [Mode.isLiteral] using hsum⟩

theorem step (h : l.Blurs k n l') {c : Char} (hok : (l.step c).error = none)
    (hcomment : ¬ (c = '\n' ∧ l.mode = .comment)) :
    ∃ k' n', (l.step c).Blurs k' n' (l'.step (spaced c)) ∧
      k' + n' = k + n + if c = '\n' ∧ l.mode.isLiteral then 1 else 0 := by
  rw [step_of_ok h.error] at hok ⊢
  rw [step_of_ok h.error']
  obtain ⟨k', n', htaken, hsum⟩ := h.take hok hcomment
  exact ⟨k', n', ⟨htaken.error, htaken.error', htaken.mode, htaken.lexemes⟩, hsum⟩

/--
As long as no comment ends, the lexers stay in step, and what comes between them is the line breaks in
literals.
-/
theorem foldl (h : l.Blurs k n l') (hok : (text.foldl Lexer.step l).error = none)
    (hcomment : ¬ l.BreaksIn (· = .comment) text) :
    ∃ k' n', (text.foldl Lexer.step l).Blurs k' n' ((onOneLine text).foldl Lexer.step l') ∧
      k + n ≤ k' + n' ∧ (k' + n' = k + n ↔ ¬ l.BreaksIn (·.isLiteral) text) := by
  induction text generalizing k n l l' with
  | nil => exact ⟨k, n, h, Nat.le_refl _, by simp [not_breaksIn_nil]⟩
  | cons c rest ih =>
    rw [breaksIn_cons, not_or] at hcomment
    have hfirst : (l.step c).error = none := error_of_foldl_step hok
    obtain ⟨k₁, n₁, hstep, hsum⟩ := h.step hfirst hcomment.1
    obtain ⟨k₂, n₂, hrest, hle, hiff⟩ := ih hstep hok hcomment.2
    refine ⟨k₂, n₂, hrest, by omega, ?_⟩
    rw [breaksIn_cons, not_or, ← hiff]
    split at hsum
    . next hhere => simp only [hhere, not_true_eq_false, and_self, false_and, iff_false]; omega
    . next hhere => simp only [hhere, not_false_eq_true, true_and]; omega

theorem finish (h : l.Blurs k n l') (hok : l.finish.error = none) :
    l'.finish.error = none ∧ LexemesBlur (k + n) (l.finish.tokens.map Token.lexeme)
      (l'.finish.tokens.map Token.lexeme) := by
  have hmode := h.mode
  unfold Lexer.finish at hok ⊢
  rw [h.error] at hok ⊢
  rw [h.error']
  generalize l.mode = mode at hmode hok ⊢
  generalize l'.mode = mode' at hmode ⊢
  cases hmode with
  | between => exact ⟨h.error', by simpa using h.lexemes⟩
  | comment => exact ⟨h.error', by simpa using h.lexemes⟩
  | word start start' read =>
    have hended := h.endWord hok start'
    exact ⟨hended.error', by simpa using hended.lexemes⟩
  | literal => cases hok

end Blurs

end Lexer

end LispScript
