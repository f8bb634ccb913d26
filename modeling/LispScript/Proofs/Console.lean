import LispScript.Session.Console
import Mathlib.Data.List.ReduceOption
import Mathlib.Data.List.TakeWhile

/-!
This module contains the proof that the buffers of a console do not matter. A line that a program reads
leaves both of them empty, however the buffered reader is filled, so that every line goes to the one who
asks for it.
-/

namespace LispScript

namespace Console

variable {c : Console} {line : List UInt8}

theorem readLine_found {room : Nat → Nat} {read rest : List UInt8} {feed : UInt8}
    (h : c.buffered.dropWhile (· != Chunk.lineFeed) = feed :: rest) :
    c.readLine room read
      = (read ++ c.buffered.takeWhile (· != Chunk.lineFeed) ++ [feed],
          { c with buffered := rest }) := by
  rw [readLine]
  split
  . next h' =>
    rw [h] at h'
    cases h'
    rfl
  . next h' =>
    rw [h] at h'
    contradiction

theorem readLine_filled {room : Nat → Nat} {read bytes : List UInt8} {c' : Console}
    (h : c.buffered.dropWhile (· != Chunk.lineFeed) = [])
    (hfetch : c.fetch (room 0 + 1) = (some bytes, c')) :
    c.readLine room read
      = readLine (fun n => room (n + 1)) (read ++ c.buffered) { c' with buffered := bytes } := by
  rw [readLine]
  split
  . next h' =>
    rw [h] at h'
    contradiction
  . split
    . next hfetch' =>
      rw [hfetch] at hfetch'
      cases hfetch'
    . next hfetch' =>
      rw [hfetch] at hfetch'
      cases hfetch'
      rfl

theorem fetch_pending (h : c.pending ≠ []) (room : Nat) :
    c.fetch room = (some (c.pending.take room), { c with pending := c.pending.drop room }) := by
  rw [fetch, if_neg (by simpa using h)]
  rfl

-- The induction is on what is pending: each time that the reader is filled, there is less of it.
theorem readLine_pending (room : Nat → Nat) (read : List UInt8) (hline : Chunk.lineFeed ∉ line)
    (h : c.buffered ++ c.pending = line ++ [Chunk.lineFeed]) :
    c.readLine room read = (read ++ line ++ [Chunk.lineFeed], { lines := c.lines }) := by
  induction hlength : c.pending.length using Nat.strongRecOn generalizing c line room read with
  | _ n ih =>
    have hinner {bytes : List UInt8} (hbytes : ∀ b ∈ bytes, b ∈ line) (b : UInt8) (hb : b ∈ bytes) :
        (b != Chunk.lineFeed) = true := by
      simp only [bne_iff_ne]
      rintro rfl
      exact hline (hbytes _ hb)
    obtain hpending | ⟨before, last, hpending⟩ := c.pending.eq_nil_or_concat
    . -- The line feed is in the buffer, at its end.
      rw [hpending, List.append_nil] at h
      have hdrop : c.buffered.dropWhile (· != Chunk.lineFeed) = [Chunk.lineFeed] := by
        rw [h, List.dropWhile_append_of_pos (hinner fun _ hb => hb)]
        rfl
      have htake : c.buffered.takeWhile (· != Chunk.lineFeed) = line := by
        rw [h, List.takeWhile_append_of_pos (hinner fun _ hb => hb)]
        simp
      rw [readLine_found hdrop, htake, hpending]
    . -- The line feed is the last of the pending bytes, so none is in the buffer.
      have hsplit : c.buffered ++ before = line ∧ last = Chunk.lineFeed := by
        rw [hpending, List.concat_eq_append, ← List.append_assoc] at h
        exact List.append_singleton_inj.1 h
      obtain ⟨rfl, rfl⟩ := hsplit
      have hdrop : c.buffered.dropWhile (· != Chunk.lineFeed) = [] := by
        rw [List.dropWhile_eq_nil_iff]
        exact hinner fun _ hb => List.mem_append_left _ hb
      rw [readLine_filled hdrop (fetch_pending (by simp [hpending]) _)]
      have hrest : Chunk.lineFeed ∉ before := fun hmem => hline (List.mem_append_right _ hmem)
      have hless : (c.pending.drop (room 0 + 1)).length < n := by
        rw [List.length_drop, hlength]
        have hpos : 0 < c.pending.length := by simp [hpending]
        omega
      rw [ih _ hless (fun n => room (n + 1)) (read ++ c.buffered) hrest _ rfl]
      . simp
      . simp [hpending]

theorem readLine_line (room : Nat → Nat) {rest : List (List UInt8)} (hline : Chunk.lineFeed ∉ line) :
    readLine room [] { lines := line :: rest } = (line ++ [Chunk.lineFeed], { lines := rest }) := by
  let filled : Console := { lines := rest, pending := line ++ [Chunk.lineFeed] }
  have hfetch : fetch (room 0 + 1) { lines := line :: rest } = (some (filled.pending.take (room 0 + 1)),
      { filled with pending := filled.pending.drop (room 0 + 1) }) := rfl
  rw [readLine_filled rfl hfetch, readLine_pending _ _ hline (by simp [filled])]
  rfl

theorem readLine_end (room : Nat → Nat) : readLine room [] { lines := [] } = ([], { lines := [] }) := by
  rw [readLine]
  rfl

end Console

/-! Line feeds. -/

namespace Text

theorem tail_append_lineFeed (rest : List UInt8) (i : Nat) :
    ((rest ++ [Chunk.lineFeed])[i]? >>= tail) = (rest[i]? >>= tail) := by
  by_cases hi : i < rest.length
  . rw [List.getElem?_append_left hi]
  . have hnone : rest[i]? = none := List.getElem?_eq_none (by omega)
    rw [List.getElem?_append_right (by omega), hnone]
    cases i - rest.length with
    | zero => rfl
    | succ k => rfl

theorem leading_append_lineFeed (b : UInt8) (rest : List UInt8) :
    leading b (rest ++ [Chunk.lineFeed]) = leading b rest := by
  unfold leading
  simp only [tail_append_lineFeed]

theorem lt_length_of_tail {rest : List UInt8} {i t : Nat} (h : (rest[i]? >>= tail) = some t) :
    i < rest.length := by
  obtain ⟨b, hb, _⟩ := Option.bind_eq_some_iff.1 h
  exact (List.getElem?_eq_some_iff.1 hb).1

theorem leading_le_length {b : UInt8} {rest : List UInt8} {c : Char} {n : Nat}
    (h : leading b rest = some (c, n)) : n ≤ rest.length := by
  unfold leading at h
  split at h
  . cases h
    exact Nat.zero_le _
  . split at h
    . contradiction
    . split at h
      . obtain ⟨t₁, ht₁, h⟩ := Option.bind_eq_some_iff.1 h
        obtain ⟨c, _, h⟩ := Option.bind_eq_some_iff.1 h
        cases h
        exact lt_length_of_tail ht₁
      . split at h
        . obtain ⟨t₁, _, h⟩ := Option.bind_eq_some_iff.1 h
          obtain ⟨t₂, ht₂, h⟩ := Option.bind_eq_some_iff.1 h
          obtain ⟨c, _, h⟩ := Option.bind_eq_some_iff.1 h
          cases h
          exact lt_length_of_tail ht₂
        . split at h
          . obtain ⟨t₁, _, h⟩ := Option.bind_eq_some_iff.1 h
            obtain ⟨t₂, _, h⟩ := Option.bind_eq_some_iff.1 h
            obtain ⟨t₃, ht₃, h⟩ := Option.bind_eq_some_iff.1 h
            obtain ⟨c, _, h⟩ := Option.bind_eq_some_iff.1 h
            cases h
            exact lt_length_of_tail ht₃
          . contradiction

theorem ofBytes_go_append_lineFeed {skip : Nat} {bytes : List UInt8} (h : skip ≤ bytes.length)
    (read : Text) : ofBytes.go skip (bytes ++ [Chunk.lineFeed]) read
      = ofBytes.go skip bytes read ++ [.char '\n'] := by
  induction bytes generalizing skip read with
  | nil =>
    obtain rfl : skip = 0 := Nat.le_zero.1 h
    have hfeed : leading Chunk.lineFeed [] = some ('\n', 0) := rfl
    simp [ofBytes.go, hfeed]
  | cons b rest ih =>
    cases skip with
    | succ skip =>
      rw [List.cons_append, ofBytes.go, ofBytes.go]
      exact ih (Nat.le_of_succ_le_succ h) read
    | zero =>
      rw [List.cons_append, ofBytes.go, ofBytes.go, leading_append_lineFeed]
      cases hleading : leading b rest with
      | none => exact ih (Nat.zero_le _) _
      | some p =>
        obtain ⟨c, n⟩ := p
        exact ih (leading_le_length hleading) _

theorem ofBytes_append_lineFeed (bytes : List UInt8) :
    ofBytes (bytes ++ [Chunk.lineFeed]) = ofBytes bytes ++ [.char '\n'] :=
  ofBytes_go_append_lineFeed (Nat.zero_le _) []

theorem trim_append_newline (t : Text) : trim (t ++ [.char '\n']) = t.trim := by
  have hblank : Glyph.isBlank (.char '\n') = true := by decide
  unfold trim
  cases hdrop : t.dropWhile Glyph.isBlank with
  | nil =>
    have hall := List.dropWhile_eq_nil_iff.1 hdrop
    rw [List.dropWhile_append_of_pos hall]
    simp [hblank]
  | cons g rest =>
    rw [List.dropWhile_append, hdrop]
    simp [hblank]

end Text

/-! Requests. -/

/--
The lines that are given to those who ask for them one after the other, from the lines `before` until the
lines `after` are left.
-/
inductive Takes : List (Option Text) → (before after : List Text) → Prop where
  | done {lines : List Text} : Takes [] lines lines
  | line {given : List (Option Text)} {line : Text} {before after : List Text}
      (h : Takes given before after) : Takes (some line :: given) (line :: before) after
  | ended {given : List (Option Text)} {after : List Text} (h : Takes given [] after) :
      Takes (none :: given) [] after

namespace Takes

variable {given more : List (Option Text)} {before between after : List Text}

theorem append (h : Takes given before between) (hmore : Takes more between after) :
    Takes (given ++ more) before after := by
  induction h with
  | done => exact hmore
  | line _ ih => exact .line (ih hmore)
  | ended _ ih => exact .ended (ih hmore)

theorem head (lines : List Text) : Takes [lines.head?] lines lines.tail := by
  cases lines with
  | nil => exact .ended .done
  | cons line rest => exact .line .done

theorem all (used rest : List Text) : Takes (used.map some) (used ++ rest) rest := by
  induction used with
  | nil => exact .done
  | cons line used ih => exact .line ih

theorem lines_eq (h : Takes given before after) : before = given.reduceOption ++ after := by
  induction h with
  | done => rfl
  | line _ ih => simp [ih]
  | ended _ ih => simpa using ih

theorem length_le (h : Takes given before after) : after.length ≤ before.length := by
  simp [h.lines_eq]

end Takes

namespace Console

/--
The console gives each line to the one who asks for it, and nothing of it is left in a buffer. So there is
no line that the terminal is asked for before it is needed.
-/
def Serves : List (Asker × Option Text) → (rooms : Nat → Nat → Nat) → (c c' : Console) → Prop
  | [], _, c, c' => c' = c
  | (asker, line) :: requests, rooms, c, c' =>
    let (answer, next) := c.serve (rooms 0) asker
    answer = line.map asker.view ∧ next = { lines := c.lines.tail } ∧
      Serves requests (fun n => rooms (n + 1)) next c'

theorem serve_line (room : Nat → Nat) {line : List UInt8} {rest : List (List UInt8)}
    (hline : Chunk.lineFeed ∉ line) (asker : Asker) : serve room { lines := line :: rest } asker
      = (some (asker.view (Text.ofBytes line)), { lines := rest }) := by
  cases asker with
  | prompt => rfl
  | program =>
    simp only [serve, readLine_line room hline, Asker.view, Text.ofBytes_append_lineFeed,
      Text.trim_append_newline]
    simp

theorem serve_end (room : Nat → Nat) (asker : Asker) :
    serve room { lines := [] } asker = (none, { lines := [] }) := by
  cases asker with
  | prompt => rfl
  | program =>
    simp only [serve, readLine_end]
    rfl

theorem serves_of_takes {requests : List (Asker × Option Text)} {lines : List (List UInt8)}
    {after : List Text} (hlines : ∀ line ∈ lines, Chunk.lineFeed ∉ line)
    (h : Takes (requests.map Prod.snd) (lines.map Text.ofBytes) after) :
    ∃ rest, rest.map Text.ofBytes = after ∧
      ∀ rooms, Serves requests rooms { lines } { lines := rest } := by
  induction requests generalizing lines with
  | nil =>
    cases h
    exact ⟨lines, rfl, fun _ => rfl⟩
  | cons request requests ih =>
    obtain ⟨asker, answer⟩ := request
    cases lines with
    | nil =>
      cases h with
      | ended h =>
        obtain ⟨rest, hrest, hserves⟩ := ih hlines h
        refine ⟨rest, hrest, fun rooms => ?_⟩
        rw [Serves, serve_end]
        exact ⟨rfl, rfl, hserves _⟩
    | cons line lines =>
      rw [List.forall_mem_cons] at hlines
      cases h with
      | line h =>
        obtain ⟨rest, hrest, hserves⟩ := ih hlines.2 h
        refine ⟨rest, hrest, fun rooms => ?_⟩
        rw [Serves, serve_line _ hlines.1]
        exact ⟨rfl, rfl, hserves _⟩

end Console

end LispScript
