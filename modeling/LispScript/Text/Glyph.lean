/-!
Text as it stands in files and streams: a sequence of code points in which single bytes that belong
to no UTF-8 encoding may stand between them. `Text.ofBytes` reads bytes, `Text.bytes` writes them.
-/

namespace LispScript

/--
One unit of text: a code point, or a byte that is part of no code point.
-/
inductive Glyph where
  | char (c : Char)
  | stray (b : UInt8)
  deriving DecidableEq, Repr, Inhabited

abbrev Text := List Glyph

namespace Glyph

def toChar : Glyph → Char
  | char c => c
  | stray _ => '\uFFFD'

def bytes : Glyph → List UInt8
  | char c => String.utf8EncodeChar c
  | stray b => [b]

end Glyph

namespace Text

def tail (b : UInt8) : Option Nat :=
  if 0x80 ≤ b ∧ b ≤ 0xBF then some (b.toNat - 0x80) else none

/--
The code point with the given number, if it is one and its shortest encoding has more than `least` as
its number.
-/
def scalar (least n : Nat) : Option Char :=
  if least ≤ n ∧ n.isValidChar then some (Char.ofNat n) else none

/--
The code point whose encoding starts with the byte `b` and goes on in `rest`, with the number of bytes
it takes of `rest`. Overlong forms, surrogates and numbers out of range are no encodings.
-/
def leading (b : UInt8) (rest : List UInt8) : Option (Char × Nat) :=
  if b < 0x80 then
    some (Char.ofNat b.toNat, 0)
  else if b < 0xC2 then
    none
  else if b < 0xE0 then do
    let t₁ ← rest[0]? >>= tail
    return (← scalar 0x80 ((b.toNat - 0xC0) * 64 + t₁), 1)
  else if b < 0xF0 then do
    let t₁ ← rest[0]? >>= tail
    let t₂ ← rest[1]? >>= tail
    return (← scalar 0x800 (((b.toNat - 0xE0) * 64 + t₁) * 64 + t₂), 2)
  else if b < 0xF5 then do
    let t₁ ← rest[0]? >>= tail
    let t₂ ← rest[1]? >>= tail
    let t₃ ← rest[2]? >>= tail
    return (← scalar 0x10000 ((((b.toNat - 0xF0) * 64 + t₁) * 64 + t₂) * 64 + t₃), 3)
  else
    none

/--
Read bytes as text. Each byte that starts no encoding becomes a stray byte of its own.
-/
def ofBytes (bytes : List UInt8) : Text :=
  go 0 bytes []
where
  go (skip : Nat) (bytes : List UInt8) (read : Text) : Text :=
    match bytes with
    | [] => read.reverse
    | b :: rest =>
      match skip with
      | skip + 1 => go skip rest read
      | 0 =>
        match leading b rest with
        | some (c, n) => go n rest (.char c :: read)
        | none => go 0 rest (.stray b :: read)

def bytes (t : Text) : List UInt8 :=
  t.flatMap Glyph.bytes

def chars (t : Text) : List Char :=
  t.map Glyph.toChar

def ofChars (cs : List Char) : Text :=
  cs.map .char

def ofString (s : String) : Text :=
  ofChars s.toList

def toString (t : Text) : String :=
  String.ofList t.chars

def isValid (t : Text) : Bool :=
  t.all fun
    | .char _ => true
    | .stray _ => false

def splitLines (t : Text) : List Text :=
  t.splitOn (.char '\n')

/--
The lines of a stream: a last line need not end in a line feed, and an empty one is none.
-/
def streamLines (t : Text) : List Text :=
  match t.splitLines.reverse with
  | [] :: lines => lines.reverse
  | lines => lines.reverse

end Text

end LispScript
