/-!
Mutable strings. A buffer keeps its characters in a storage with some spare room. When it grows
beyond that room, its characters move to a new storage, and the old one stays as it was. A `TextView`
looks at the beginning of the storage that a buffer had at some moment: it sees changes made there
later, but not those made after the characters have moved.
-/

namespace LispScript

structure TextBuffer where
  chars : Array Char
  /-- How many characters the storage holds. -/
  room : Nat
  /-- The storages that the buffer has left, the latest first. -/
  left : List (Array Char) := []
  deriving Repr, Inhabited

namespace TextBuffer

def sizes : List Nat :=
  [0, 2, 4, 6, 8, 12, 16, 20, 24, 28, 32, 36, 40, 44, 48, 52, 56, 60, 64, 72, 80, 88, 96, 104,
    112, 120, 128, 144, 160, 176, 192, 224, 256, 288, 320, 352, 384, 448, 512, 576, 672, 768, 800,
    864, 1024, 1216, 1344, 1536, 1632, 1696, 1728, 2048, 2368, 2432, 2560, 2720, 3072, 3392, 3584,
    4096, 4608, 4768, 5120, 5440, 6144, 6816, 7168, 8192]

def page : Nat := 2048

def sizeFor (n : Nat) : Nat :=
  match sizes.find? (n ≤ ·) with
  | some size => size
  | none => (n + page - 1) / page * page

def widen (n : Nat) : (fuel room : Nat) → Nat
  | 0, room => max n room
  | fuel + 1, room =>
    let room := room + (room + 768) / 4
    if n ≤ room then room else widen n fuel room

/--
The room that a storage with room `room` is replaced by when `n` characters do not fit.
-/
def grownRoom (room n : Nat) : Nat :=
  sizeFor <|
    if 2 * room < n then n
    else if room < 256 then 2 * room
    else widen n n room

def ofList (cs : List Char) : TextBuffer :=
  { chars := cs.toArray, room := sizeFor cs.length }

def exact (cs : Array Char) : TextBuffer :=
  { chars := cs, room := cs.size }

def clone (b : TextBuffer) : TextBuffer :=
  exact b.chars

def set (b : TextBuffer) (i : Nat) (c : Char) : TextBuffer :=
  { b with chars := b.chars.setIfInBounds i c }

def append (b : TextBuffer) (suffix : Array Char) : TextBuffer :=
  let size := b.chars.size + suffix.size
  if size ≤ b.room then
    { b with chars := b.chars ++ suffix }
  else
    { chars := b.chars ++ suffix, room := grownRoom b.room size, left := b.chars :: b.left }

@[simp]
theorem chars_append (b : TextBuffer) (suffix : Array Char) :
    (b.append suffix).chars = b.chars ++ suffix := by
  simp only [append]
  split <;> rfl

@[simp]
theorem chars_set (b : TextBuffer) (i : Nat) (c : Char) :
    (b.set i c).chars = b.chars.setIfInBounds i c := rfl

end TextBuffer

/--
A look at the first `length` characters of the storage that a buffer had after `moves` moves.
-/
structure TextView where
  ref : Nat
  length : Nat
  moves : Nat
  deriving DecidableEq, Repr

namespace TextBuffer

def view (b : TextBuffer) (ref : Nat) : TextView :=
  { ref, length := b.chars.size, moves := b.left.length }

/--
What an earlier look at this buffer sees now.
-/
def seen (b : TextBuffer) (v : TextView) : List Char :=
  let storage :=
    if v.moves < b.left.length then (b.left.reverse[v.moves]?).getD #[] else b.chars
  storage.toList.take v.length

@[simp]
theorem seen_view (b : TextBuffer) (ref : Nat) : b.seen (b.view ref) = b.chars.toList := by
  simp [seen, view, List.take_of_length_le]

end TextBuffer

end LispScript
