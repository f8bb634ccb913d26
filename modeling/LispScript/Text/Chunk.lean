import LispScript.Text.Glyph

/-!
Lines as a reader with a buffer of limited size gets them: a line that is too long for the buffer
comes in several chunks.
-/

namespace LispScript

structure Chunk where
  bytes : List UInt8
  isPart : Bool
  deriving DecidableEq, Repr

namespace Chunk

def text (c : Chunk) : Text :=
  Text.ofBytes c.bytes

def bufferSize : Nat := 4096

def lineFeed : UInt8 := 0x0A

def carriageReturn : UInt8 := 0x0D

structure Reader where
  /-- The bytes in the buffer, the latest first. -/
  held : List UInt8 := []
  count : Nat := 0
  /-- The chunks that are complete, the latest first. -/
  done : List Chunk := []

namespace Reader

def emit (r : Reader) (bytes : List UInt8) (isPart : Bool) (rest : List UInt8) : Reader :=
  { held := rest, count := rest.length, done := ⟨bytes.reverse, isPart⟩ :: r.done }

/--
Take one more byte. A carriage return before the line feed belongs to the end of the line; one that
fills the buffer stays in it, since a line feed may follow.
-/
def feed (r : Reader) (b : UInt8) : Reader :=
  if b = lineFeed then
    match r.held with
    | last :: before => r.emit (if last = carriageReturn then before else r.held) false []
    | [] => r.emit [] false []
  else if r.count + 1 < bufferSize then
    { r with held := b :: r.held, count := r.count + 1 }
  else if b = carriageReturn then
    r.emit r.held true [b]
  else
    r.emit (b :: r.held) true []

/--
The chunks at the end of the input. A last line without a line feed keeps all its bytes.
-/
def finish (r : Reader) : List Chunk :=
  (if r.held.isEmpty then r else r.emit r.held false []).done.reverse

end Reader

def ofBytes (bytes : List UInt8) : List Chunk :=
  (bytes.foldl Reader.feed {}).finish

end Chunk

end LispScript
