import LispScript.Text.Blank
import LispScript.Text.Chunk

/-!
The console of a session. The prompt asks the terminal for its lines, and so do programs that read,
but between these and the terminal lie two buffers: what is left of the line that was asked for last,
and what a buffered reader has taken of it in advance.
-/

namespace LispScript

inductive Asker where
  | prompt
  | program
  deriving DecidableEq, Repr

/--
What of a line the asker looks at; for a program the blanks around it do not count.
-/
def Asker.view : Asker → Text → Text
  | prompt, line => line
  | program, line => line.trim

structure Console where
  lines : List (List UInt8)
  pending : List UInt8 := []
  buffered : List UInt8 := []
  deriving DecidableEq, Repr

namespace Console

def ask (c : Console) : Option (List UInt8) × Console :=
  match c.lines with
  | [] => (none, c)
  | line :: rest => (some line, { c with lines := rest })

def deliver (room : Nat) (c : Console) : List UInt8 × Console :=
  (c.pending.take room, { c with pending := c.pending.drop room })

/--
Fill a buffer that has room for some bytes. A line is asked for only if none is pending, and it gets
back its line feed.
-/
def fetch (room : Nat) (c : Console) : Option (List UInt8) × Console :=
  if c.pending.isEmpty then
    match c.ask with
    | (none, c) => (none, c)
    | (some line, c) =>
      let (bytes, c) := deliver room { c with pending := line ++ [Chunk.lineFeed] }
      (some bytes, c)
  else
    let (bytes, c) := deliver room c
    (some bytes, c)

def size (c : Console) : Nat :=
  (c.pending ++ c.lines.flatMap (· ++ [Chunk.lineFeed])).length

theorem deliver_size {room : Nat} (hroom : 0 < room) {c : Console} (h : c.pending ≠ []) :
    (c.deliver room).2.size < c.size := by
  have hpending := List.length_pos_iff.2 h
  simp only [deliver, size, List.length_append, List.length_drop]
  omega

theorem fetch_size {room : Nat} (hroom : 0 < room) {c c' : Console} {bytes : List UInt8}
    (h : c.fetch room = (some bytes, c')) : c'.size < c.size := by
  unfold fetch at h
  split at h
  . unfold ask at h
    obtain ⟨lines, pending, buffered⟩ := c
    cases lines with
    | nil => cases h
    | cons line rest =>
      cases h
      have hless := deliver_size hroom (c := ⟨rest, line ++ [Chunk.lineFeed], buffered⟩) (by simp)
      apply Nat.lt_of_lt_of_le hless
      simp [size]
  . next hpending =>
    cases h
    exact deliver_size hroom (by simpa using hpending)

/--
The bytes up to the next line feed, and with it; at the end of the input, those that are left. The
buffered reader has room for `room 0 + 1` bytes the first time that it is filled, for `room 1 + 1` bytes
the second time, and so on. What was read before is in `read`.
-/
def readLine (room : Nat → Nat) (read : List UInt8) (c : Console) : List UInt8 × Console :=
  match c.buffered.dropWhile (· != Chunk.lineFeed) with
  | feed :: rest =>
    (read ++ c.buffered.takeWhile (· != Chunk.lineFeed) ++ [feed], { c with buffered := rest })
  | [] =>
    match _h : c.fetch (room 0 + 1) with
    | (none, c') => (read ++ c.buffered, { c' with buffered := [] })
    | (some bytes, c') =>
      readLine (fun n => room (n + 1)) (read ++ c.buffered) { c' with buffered := bytes }
termination_by c.size
decreasing_by
  have hless := fetch_size (Nat.succ_pos _) _h
  exact hless

def serve (room : Nat → Nat) (c : Console) : Asker → Option Text × Console
  | .prompt =>
    let (line, c) := c.ask
    (line.map Text.ofBytes, c)
  | .program =>
    let (bytes, c) := c.readLine room []
    (if bytes.isEmpty then none else some (Text.ofBytes bytes).trim, c)

end Console

end LispScript
