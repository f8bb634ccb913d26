import LispScript.Text.Glyph

/-!
Text for terminals: the control sequences that switch styles, and `Text.strip`, which removes every
control sequence from a text. Stripping reads bytes the way a terminal does: the C1 control bytes
count, and the bytes of a code point are taken together.
-/

namespace LispScript

namespace Terminal

inductive State where
  | ground
  /-- The given number of bytes of a code point are still to come. -/
  | codePoint (owed : Nat)
  | escape
  | escapeIntermediate
  | controlEntry
  | controlParameter
  | controlIntermediate
  | deviceEntry
  | deviceParameter
  | deviceIntermediate
  | deviceString
  | commandString
  | otherString
  deriving DecidableEq, Repr

def isPlainControl (b : UInt8) : Bool :=
  b ≤ 0x17 || b == 0x19 || (0x1C ≤ b && b ≤ 0x1F)

def within (b lo hi : UInt8) : Bool :=
  lo ≤ b && b ≤ hi

/--
The bytes that mean the same in every state that does not say otherwise: cancel, the C1 controls, the
start of a sequence and the start of a code point. The Boolean says whether the byte is kept.
-/
def anywhere (b : UInt8) : State × Bool :=
  if b == 0x1B then (.escape, false)
  else if b == 0x90 then (.deviceEntry, false)
  else if b == 0x9B then (.controlEntry, false)
  else if b == 0x9D then (.commandString, false)
  else if b == 0x98 || b == 0x9E || b == 0x9F then (.otherString, false)
  else if b == 0x18 || b == 0x1A || within b 0x80 0x9A || b == 0x9C then (.ground, true)
  else if within b 0xC2 0xDF then (.codePoint 1, true)
  else if within b 0xE0 0xEF then (.codePoint 2, true)
  else if within b 0xF0 0xF4 then (.codePoint 3, true)
  else (.ground, false)

def step (s : State) (b : UInt8) : State × Bool :=
  match s with
  | .codePoint (owed + 1) => (if owed = 0 then .ground else .codePoint owed, true)
  | .ground | .codePoint 0 =>
    if isPlainControl b || within b 0x20 0x7F then (.ground, true) else anywhere b
  | .escape =>
    if isPlainControl b then (.escape, true)
    else if b == 0x7F then (.escape, false)
    else if within b 0x20 0x2F then (.escapeIntermediate, false)
    else if b == 0x50 then (.deviceEntry, false)
    else if b == 0x5B then (.controlEntry, false)
    else if b == 0x5D then (.commandString, false)
    else if b == 0x58 || b == 0x5E || b == 0x5F then (.otherString, false)
    else if within b 0x30 0x7E then (.ground, false)
    else anywhere b
  | .escapeIntermediate =>
    if isPlainControl b then (.escapeIntermediate, true)
    else if b == 0x7F || within b 0x20 0x2F then (.escapeIntermediate, false)
    else if within b 0x30 0x7E then (.ground, false)
    else anywhere b
  | .controlEntry | .controlParameter =>
    if isPlainControl b then (s, true)
    else if b == 0x7F then (s, false)
    else if within b 0x20 0x2F then (.controlIntermediate, false)
    else if within b 0x30 0x3F then (.controlParameter, false)
    else if within b 0x40 0x7E then (.ground, false)
    else anywhere b
  | .controlIntermediate =>
    if isPlainControl b then (s, true)
    else if b == 0x7F || within b 0x20 0x2F then (s, false)
    else if within b 0x30 0x7E then (.ground, false)
    else anywhere b
  | .deviceEntry =>
    if within b 0x08 0x0D || b == 0x1B then (.deviceString, false)
    else if isPlainControl b || b == 0x7F then (s, false)
    else if within b 0x20 0x2F then (.deviceIntermediate, false)
    else if within b 0x30 0x3F then (.deviceParameter, false)
    else if within b 0x40 0x7E then (.deviceString, false)
    else anywhere b
  | .deviceParameter =>
    if isPlainControl b || b == 0x7F || within b 0x30 0x3F then (s, false)
    else if within b 0x20 0x2F then (.deviceIntermediate, false)
    else if within b 0x40 0x7E then (.deviceString, false)
    else anywhere b
  | .deviceIntermediate =>
    if isPlainControl b || b == 0x7F || within b 0x20 0x2F then (s, false)
    else if within b 0x30 0x7E then (.deviceString, false)
    else anywhere b
  | .deviceString =>
    if b == 0x1B then (.escape, false)
    else if b == 0x18 || b == 0x1A || b == 0x9C then (.ground, false)
    else (s, false)
  | .commandString =>
    if b == 0x1B then (.escape, false)
    else if b == 0x07 || b == 0x18 || b == 0x1A || b == 0x9C then (.ground, false)
    else (s, false)
  | .otherString =>
    if b == 0x1B then (.escape, false)
    else if b == 0x18 || b == 0x1A || b == 0x9C then (.ground, false)
    else if isPlainControl b || within b 0x20 0x7F then (s, false)
    else anywhere b

def visible (bytes : List UInt8) : List UInt8 :=
  (bytes.foldl feed (.ground, [])).2.reverse
where
  feed (acc : State × List UInt8) (b : UInt8) : State × List UInt8 :=
    let (s, keep) := step acc.1 b
    (s, if keep then b :: acc.2 else acc.2)

end Terminal

def Text.strip (t : Text) : Text :=
  Text.ofBytes (Terminal.visible t.bytes)

end LispScript
