import LispScript.ReadError
import LispScript.Text.Blank

/-!
Tokens: parentheses and atoms. `Token.scan` splits source text into tokens by feeding its characters
one by one to a small machine, so that the tokens of a text are those of its beginning followed by
those of its end whenever the machine stands between two tokens there.
-/

namespace LispScript

inductive Atom where
  | integer (word : String)
  | real (word : String)
  | character (c : Char)
  | string (content : String)
  | symbol (name : String)
  deriving DecidableEq, Repr

def Atom.shape : Atom → Shape
  | integer _ => .integer
  | real _ => .real
  | character _ => .character
  | string _ => .string
  | symbol _ => .symbol

inductive Lexeme where
  | opening
  | closing
  | atom (a : Atom)
  deriving DecidableEq, Repr

structure Token where
  lexeme : Lexeme
  location : Location
  deriving DecidableEq, Repr

structure Scan where
  tokens : List Token
  error : Option ReadError
  deriving Repr

namespace Word

def isDigit (b : UInt8) : Bool :=
  0x30 ≤ b && b ≤ 0x39

def isNumeral (c : Char) : Bool :=
  isDigit c.toNat.toUInt8 && !(0x7F < c.toNat)

def startsNumber (body : List Char) : Bool :=
  match body.flatMap String.utf8EncodeChar with
  | [] => false
  | first :: rest => isDigit first || (first == 0x2E && rest.head?.any isDigit)

theorem isDigit_iff_toNat {b : UInt8} : isDigit b ↔ 48 ≤ b.toNat ∧ b.toNat ≤ 57 := by
  simp [isDigit, UInt8.le_iff_toNat_le]

theorem charIsDigit_iff {c : Char} : c.isDigit ↔ 48 ≤ c.toNat ∧ c.toNat ≤ 57 := by
  simp [Char.isDigit, UInt32.le_iff_toNat_le]

/--
The test of bytes is the one of characters, whatever the low byte of a character is.
-/
@[simp]
theorem isNumeral_eq (c : Char) : isNumeral c = c.isDigit := by
  rw [Bool.eq_iff_iff, charIsDigit_iff, isNumeral, Bool.and_eq_true, isDigit_iff_toNat]
  simp only [Nat.toUInt8, UInt8.toNat_ofNat', Bool.not_eq_true', decide_eq_false_iff_not]
  omega

theorem utf8EncodeChar_cases (c : Char) : ∃ b rest, String.utf8EncodeChar c = b :: rest ∧
    isDigit b = c.isDigit ∧ (b == 0x2E) = (c == '.') ∧ (c = '.' → rest = []) := by
  have hbyte {b : UInt8} (hb : b.toNat = c.toNat ∨ 192 ≤ b.toNat ∧ 127 < c.toNat) :
      isDigit b = c.isDigit ∧ (b == 0x2E) = (c == '.') := by
    have hpoint : (b == 0x2E) ↔ b.toNat = 46 := by simp [← UInt8.toNat_inj]
    have hpoint' : (c == '.') ↔ c.toNat = 46 := by simp [← Char.toNat_inj]
    refine ⟨Bool.eq_iff_iff.2 ?_, Bool.eq_iff_iff.2 ?_⟩
    . rw [isDigit_iff_toNat, charIsDigit_iff]
      omega
    . rw [hpoint, hpoint']
      omega
  have hnopoint : 127 < c.toNat → c ≠ '.' := by
    rintro hc rfl
    exact absurd hc (by decide)
  have hn : c.val.toNat = c.toNat := rfl
  unfold String.utf8EncodeChar
  dsimp only
  rw [hn]
  split
  . exact ⟨_, _, rfl, (hbyte (by simp; omega)).1, (hbyte (by simp; omega)).2, fun _ => rfl⟩
  . have hc := hnopoint (by omega)
    split
    . exact ⟨_, _, rfl, (hbyte (by simp; omega)).1, (hbyte (by simp; omega)).2, (absurd · hc)⟩
    . split
      . exact ⟨_, _, rfl, (hbyte (by simp; omega)).1, (hbyte (by simp; omega)).2, (absurd · hc)⟩
      . exact ⟨_, _, rfl, (hbyte (by simp; omega)).1, (hbyte (by simp; omega)).2, (absurd · hc)⟩

@[simp]
theorem startsNumber_nil : startsNumber [] = false := rfl

theorem startsNumber_cons (c : Char) (rest : List Char) :
    startsNumber (c :: rest) = (c.isDigit || (c == '.' && rest.head?.any Char.isDigit)) := by
  obtain ⟨b, more, hc, hdigit, hpoint, hmore⟩ := utf8EncodeChar_cases c
  rw [startsNumber, List.flatMap_cons, hc]
  show (isDigit b || (b == 0x2E && (more ++ _).head?.any isDigit)) = _
  rw [hdigit, hpoint]
  by_cases hc : c = '.'
  . rw [hmore hc]
    cases rest with
    | nil => rfl
    | cons d rest =>
      obtain ⟨b', more', hd, hdigit', -⟩ := utf8EncodeChar_cases d
      simp [hd, hdigit']
  . rw [beq_eq_false_iff_ne.2 hc, Bool.false_and, Bool.false_and]

def unsigned : List Char → List Char
  | '+' :: body => body
  | '-' :: body => body
  | body => body

/--
The atom that a word is. A word that starts like a number must be one: ASCII digits with at most one
point among them. Every other word is a symbol.
-/
def classify (word : List Char) : Except ReadFault Atom :=
  let text := String.ofList word
  let body := unsigned word
  if !startsNumber body then
    .ok (.symbol text)
  else if !body.all (fun c => c == '.' || isNumeral c) then
    .error (.malformedNumber text)
  else
    match body.count '.' with
    | 0 => .ok (.integer text)
    | 1 => .ok (.real text)
    | _ => .error (.manyPoints text)

def isEnd (c : Char) : Bool :=
  isBlank c || c == '(' || c == ')' || c == '"' || c == ';'

end Word

structure Mark where
  offset : Nat := 0
  line : Nat := 1
  column : Nat := 1
  deriving DecidableEq, Repr

def Mark.after (m : Mark) (c : Char) : Mark :=
  if c = '\n' then
    { offset := m.offset + 1, line := m.line + 1, column := 1 }
  else
    { offset := m.offset + 1, line := m.line, column := m.column + 1 }

/--
What the lexer is in the middle of; characters read so far are in reverse.
-/
inductive Mode where
  | between
  | comment
  | word (start : Mark) (read : List Char)
  | literal (mark : QuoteMark) (start : Mark) (read : List Char) (escaped : Bool)
  deriving DecidableEq, Repr

structure Lexer where
  file : String
  place : Mark := {}
  mode : Mode := .between
  tokens : List Token := []
  error : Option ReadError := none
  deriving Repr

namespace Lexer

def locate (l : Lexer) (start : Mark) (length : Nat) : Location :=
  { file := l.file, line := start.line, column := start.column, length := length }

def emit (l : Lexer) (start stop : Mark) (lexeme : Lexeme) : Lexer :=
  { l with
    mode := .between
    tokens := { lexeme, location := l.locate start (stop.offset - start.offset) } :: l.tokens }

def fail (l : Lexer) (start stop : Mark) (fault : ReadFault) : Lexer :=
  { l with error := some (.atPlace (l.locate start (stop.offset - start.offset)) fault) }

/--
Give up because of a literal; only its quote is shown.
-/
def failAtQuote (l : Lexer) (start : Mark) (fault : ReadFault) : Lexer :=
  { l with error := some (.atPlace (l.locate start 1) fault) }

def endWord (l : Lexer) (start : Mark) (read : List Char) : Lexer :=
  match Word.classify read.reverse with
  | .ok a => l.emit start l.place (.atom a)
  | .error fault => l.fail start l.place fault

def endLiteral (l : Lexer) (mark : QuoteMark) (start stop : Mark) (read : List Char) : Lexer :=
  match mark, read with
  | .double, read => l.emit start stop (.atom (.string (String.ofList read.reverse)))
  | .single, [c] => l.emit start stop (.atom (.character c))
  | .single, read => l.fail start stop (.characterCount (String.ofList read.reverse))

def takeBetween (l : Lexer) (c : Char) : Lexer :=
  if isBlank c then l
  else if c = ';' then { l with mode := .comment }
  else if c = '(' then l.emit l.place (l.place.after c) .opening
  else if c = ')' then l.emit l.place (l.place.after c) .closing
  else if c = '"' then { l with mode := .literal .double l.place [] false }
  else if c = '\'' then { l with mode := .literal .single l.place [] false }
  else { l with mode := .word l.place [c] }

def unescape : Char → Option Char
  | 'n' => some '\n'
  | 't' => some '\t'
  | 'r' => some '\r'
  | '\\' => some '\\'
  | '"' => some '"'
  | '\'' => some '\''
  | _ => none

def takeLiteral (l : Lexer) (mark : QuoteMark) (start : Mark) (read : List Char) (escaped : Bool)
    (c : Char) : Lexer :=
  if escaped then
    match unescape c with
    | some d => { l with mode := .literal mark start (d :: read) false }
    | none => l.failAtQuote start (.unknownEscape c)
  else if c = mark.char then l.endLiteral mark start (l.place.after c) read
  else if c = '\\' then { l with mode := .literal mark start read true }
  else { l with mode := .literal mark start (c :: read) false }

def take (l : Lexer) (c : Char) : Lexer :=
  match l.mode with
  | .between => l.takeBetween c
  | .comment => if c = '\n' then { l with mode := .between } else l
  | .word start read =>
    if Word.isEnd c then
      let l := l.endWord start read
      if l.error.isSome then l else l.takeBetween c
    else
      { l with mode := .word start (c :: read) }
  | .literal mark start read escaped => l.takeLiteral mark start read escaped c

def step (l : Lexer) (c : Char) : Lexer :=
  if l.error.isSome then l
  else
    let taken := l.take c
    { taken with place := l.place.after c }

def finish (l : Lexer) : Lexer :=
  if l.error.isSome then l
  else
    match l.mode with
    | .between | .comment => l
    | .word start read => l.endWord start read
    | .literal mark start _ _ => l.failAtQuote start (.unterminated mark)

end Lexer

def Token.scan (file : String) (source : List Char) : Scan :=
  let l := (source.foldl Lexer.step { file }).finish
  { tokens := l.tokens.reverse, error := l.error }

end LispScript
