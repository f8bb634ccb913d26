import LispScript.Proofs.Encoding
import LispScript.Proofs.Literal
import LispScript.Proofs.Safety
import LispScript.Workspace
import Mathlib.Data.List.Forall2

/-!
This module contains the proof that what a program prints can be read by a program, value by value: each
value is printed on a line of its own, and the lines of the output are those of the input.
-/

namespace LispScript

/--
The form `(println v)`.
-/
def Expr.println (location : Option Location) (v : Value) : Expr Value :=
  .node location (.print (.node location (.literal v)) true)

/--
The form `(read)`.
-/
def Expr.read (location : Option Location) : Expr Value :=
  .node location .read

/-! Lines of a stream. -/

theorem Text.flatMap_newline_eq_intercalate (lines : List Text) :
    lines.flatMap (· ++ [.char '\n']) = [Glyph.char '\n'].intercalate (lines ++ [[]]) := by
  induction lines with
  | nil => rfl
  | cons line rest ih =>
    cases rest with
    | nil => simp [List.intercalate]
    | cons next rest =>
      have hcons : line :: next :: rest ++ [[]] = line :: next :: (rest ++ [[]]) := rfl
      rw [List.flatMap_cons, ih, hcons, List.intercalate_cons_cons]
      rfl

theorem Text.splitLines_flatMap {lines : List Text} (h : ∀ line ∈ lines, .char '\n' ∉ line) :
    splitLines (lines.flatMap (· ++ [.char '\n'])) = lines ++ [[]] := by
  rw [flatMap_newline_eq_intercalate, splitLines, List.splitOn_intercalate]
  . intro line hline
    cases List.mem_append.1 hline with
    | inl hline => apply h line hline
    | inr hline =>
      rw [List.mem_singleton.1 hline]
      simp
  . simp

theorem Text.streamLines_flatMap {lines : List Text} (h : ∀ line ∈ lines, .char '\n' ∉ line) :
    Text.streamLines (lines.flatMap (· ++ [.char '\n'])) = lines := by
  unfold Text.streamLines
  rw [splitLines_flatMap h]
  simp

namespace Machine

variable {m : Machine} {context : Option Context} {frame : Nat} {location : Option Location}

/--
Evaluate expressions at top level, one after the other, whatever becomes of each of them.
-/
def evaluateEach (m : Machine) (context : Option Context) (frame : Nat) :
    List (Expr Value) → List (Except Failure Value) × Machine
  | [] => ([], m)
  | e :: rest =>
    let first := m.evaluate context frame e
    let others := first.2.evaluateEach context frame rest
    (first.1 :: others.1, others.2)

theorem unbounded_eq : ∃ fuel, unbounded = fuel + 2 :=
  ⟨unbounded - 2, by decide⟩

theorem evaluate_eq_ok {e : Expr Value} {v : Value} {m' : Machine}
    (h : eval context unbounded frame e m = .ok v m') : m.evaluate context frame e = (.ok v, m') := by
  simp [evaluate, run, Run.refuseBreak, h]

theorem evaluateEach_cons {e : Expr Value} {rest : List (Expr Value)} {v : Value} {m' : Machine}
    (h : m.evaluate context frame e = (.ok v, m')) :
    m.evaluateEach context frame (e :: rest)
      = (.ok v :: (m'.evaluateEach context frame rest).1, (m'.evaluateEach context frame rest).2) := by
  simp [evaluateEach, h]

/-! Printing. -/

def printed (m : Machine) (text : String) : Machine :=
  { m with output := m.output ++ text }

variable (context frame location) in
theorem evaluate_println (hm : m.muted = false) {v : Value} (hv : v.orNull = v) :
    m.evaluate context frame (.println location v)
      = (.ok v, m.printed (v.text m.store ++ "\n")) := by
  obtain ⟨fuel, hfuel⟩ := unbounded_eq
  have hoperand : eval context (fuel + 1) frame (.node location (.literal v)) m = .ok v m := by
    rw [eval, Run.perform, hv]
    rfl
  have hprint : Run.print (v.text m.store ++ "\n") m
      = .ok () (m.printed (v.text m.store ++ "\n")) := by
    show EStateM.Result.ok () (if m.muted then m else m.printed _) = _
    rw [hm]
    rfl
  have hinspect : Run.inspect (fun s => v.text s) m = .ok (v.text m.store) m := rfl
  have hperform : Run.perform (eval context (fuel + 1)) (fuel + 1) frame location
      (.print (.node location (.literal v)) true) m
        = .ok v (m.printed (v.text m.store ++ "\n")) := by
    rw [Run.perform, if_neg (by simp [Expr.isAbsent])]
    rw [Run.bind_ok hoperand, Run.bind_ok hinspect, if_pos rfl, Run.bind_ok hprint]
    rfl
  apply evaluate_eq_ok
  rw [hfuel, Expr.println, eval, Run.located, hperform]

/--
What is printed when each value is printed on a line of its own.
-/
def echo (s : Store) (vs : List Value) : String :=
  vs.foldr (fun v rest => v.text s ++ "\n" ++ rest) ""

theorem evaluateEach_println {vs : List Value} (hm : m.muted = false)
    (hvs : ∀ v ∈ vs, v.orNull = v) :
    m.evaluateEach context frame (vs.map (.println location))
      = (vs.map .ok, m.printed (echo m.store vs)) := by
  induction vs generalizing m with
  | nil => simp [evaluateEach, echo, printed]
  | cons v vs ih =>
    have hhead := evaluate_println context frame location hm (hvs v List.mem_cons_self)
    have hrest := @ih (m.printed (v.text m.store ++ "\n")) hm fun w hw =>
      hvs w (List.mem_cons_of_mem v hw)
    rw [List.map_cons, evaluateEach_cons hhead, hrest]
    simp [echo, printed, String.append_assoc]

theorem chars_echo (s : Store) (vs : List Value) :
    (echo s vs).toList = (vs.map fun v => (v.text s).toList).flatMap (· ++ ['\n']) := by
  induction vs with
  | nil => rfl
  | cons v vs ih =>
    rw [List.map_cons, List.flatMap_cons, ← ih]
    simp [echo]

/-! Reading. -/

theorem evaluate_read_end (hm : m.input = []) :
    m.evaluate context frame (.read location) = (.ok .null, m) := by
  obtain ⟨fuel, hfuel⟩ := unbounded_eq
  have hline : Run.nextLine m = .ok [] m := by
    obtain ⟨store, output, input, muted⟩ := m
    cases hm
    rfl
  have hread : Run.readLiteral m = .ok .null m := by
    rw [Run.readLiteral, Run.bind_ok hline]
    rfl
  apply evaluate_eq_ok
  rw [hfuel, Expr.read, eval, Run.located, Run.perform, hread]

variable (context frame location) in
theorem evaluate_read {line : List Char} {rest : List Text} {l : Literal}
    (hm : m.input = Text.ofChars line :: rest) (hsolid : Solid line)
    (hparse : Literal.parse line = .ok l) :
    m.evaluate context frame (.read location)
      = (.ok (l.toValue m.store).1, { m with store := (l.toValue m.store).2, input := rest }) := by
  obtain ⟨fuel, hfuel⟩ := unbounded_eq
  have hline : Run.nextLine m = .ok (Text.ofChars line) { m with input := rest } := by
    obtain ⟨store, output, input, muted⟩ := m
    cases hm
    rfl
  have hchars : (Text.ofChars line).chars = line := by
    simp [Text.ofChars, Text.chars, Function.comp_def, Glyph.toChar]
  have hread : Run.readLiteral m
      = .ok (l.toValue m.store).1 { m with store := (l.toValue m.store).2, input := rest } := by
    rw [Run.readLiteral, Run.bind_ok hline]
    simp only [hsolid.trim, hchars, hparse]
    rw [if_neg (by simp [Text.ofChars, hsolid.nonempty])]
    rfl
  apply evaluate_eq_ok
  rw [hfuel, Expr.read, eval, Run.located, Run.perform, hread]

theorem evaluateEach_read_end (hm : m.input = []) (n : Nat) :
    m.evaluateEach context frame (List.replicate n (.read location))
      = (List.replicate n (.ok .null), m) := by
  induction n with
  | zero => rfl
  | succ n ih =>
    rw [List.replicate_succ, evaluateEach_cons (evaluate_read_end hm), ih]
    rfl

end Machine

/-! Values that are read. -/

theorem Literal.literal?_toValue {l : Literal} {a : Atom} (h : l.atom? = some a) (s : Store) :
    (l.toValue s).1.literal? (l.toValue s).2 = some l := by
  cases l with
  | real x => contradiction
  | string content =>
    simp [Literal.toValue, Store.addString, Value.literal?, Store.string, TextBuffer.ofList]
  | _ => rfl

namespace Store

/--
The store with some more strings.
-/
def withStrings (s : Store) (buffers : Array TextBuffer) : Store :=
  { s with strings := s.strings ++ buffers }

@[simp]
theorem withStrings_empty (s : Store) : s.withStrings #[] = s := by
  simp [withStrings]

@[simp]
theorem withStrings_withStrings (s : Store) (first second : Array TextBuffer) :
    (s.withStrings first).withStrings second = s.withStrings (first ++ second) := by
  simp [withStrings, Array.append_assoc]

@[simp]
theorem size_strings_withStrings (s : Store) (buffers : Array TextBuffer) :
    (s.withStrings buffers).strings.size = s.strings.size + buffers.size := by
  simp [withStrings]

end Store

/--
Only a string literal takes a place in the store, the next one.
-/
theorem Literal.toValue_store (l : Literal) (s : Store) :
    ∃ buffers, (l.toValue s).2 = s.withStrings buffers ∧
      (l.toValue s).1.string?.toList = List.range' s.strings.size buffers.size := by
  cases l with
  | string content =>
    exact ⟨#[.ofList content.toList], by simp [toValue, Store.addString, Store.withStrings], rfl⟩
  | _ => exact ⟨#[], by simp [toValue], rfl⟩

namespace Value

variable {s : Store} {v w : Value} {l : Literal}

theorem Within.orNull_eq (h : v.Within s) : v.orNull = v := by
  cases v with
  | absent => contradiction
  | _ => rfl

theorem literal?_withStrings (hv : v.Within s) (buffers : Array TextBuffer) :
    v.literal? (s.withStrings buffers) = v.literal? s := by
  cases v with
  | string r =>
    have hr : r < s.strings.size := hv
    simp [literal?, Store.string, Store.withStrings, Array.getElem?_append_left hr]
  | _ => rfl

theorem kind_of_literal {t : Store} (hv : v.literal? s = some l) (hw : w.literal? t = some l) :
    w.kind = v.kind := by
  have h : v.literal? s = w.literal? t := hv.trans hw.symm
  clear hw
  cases v <;> cases w <;> simp [literal?] at h hv <;> rfl

theorem equal_of_literal (hv : v.literal? s = some l) (hw : w.literal? s = some l) :
    equal s v w = true := by
  have h : v.literal? s = w.literal? s := hv.trans hw.symm
  clear hw
  cases v <;> cases w <;> simp [literal?] at h hv
  case string.string r t =>
    have hchars : (s.string r).chars = (s.string t).chars := by
      simpa using congrArg String.toList h
    simp [equal, equalMeeting, equalFlat, orNull, hchars]
  all_goals simp [equal, equalMeeting, equalFlat, equalNumbers, orNull, h]

theorem string?_cons (v : Value) (vs : List Value) :
    (v :: vs).filterMap string? = v.string?.toList ++ vs.filterMap string? := by
  cases h : v.string? with
  | none => simp [h]
  | some r => simp [h]

end Value

namespace Machine

variable {context : Option Context} {frame : Nat} {location : Option Location}

/--
When literals are read from `m`, one after the other, every string goes into a buffer of its own.
-/
theorem evaluateEach_read {ls : List Literal} {lines : List (List Char)}
    (h : List.Forall₂ (fun l line => ∃ a, l.atom? = some a ∧ line = a.text) ls lines)
    {m : Machine} (hm : m.input = lines.map Text.ofChars) (n : Nat) :
    ∃ ws buffers,
      m.evaluateEach context frame (List.replicate (ls.length + n) (.read location))
        = ((ws ++ List.replicate n .null).map .ok,
          { m with store := m.store.withStrings buffers, input := [] }) ∧
      List.Forall₂ (fun l w => w.literal? (m.store.withStrings buffers) = some l) ls ws ∧
      ws.filterMap Value.string? = List.range' m.store.strings.size buffers.size := by
  induction h generalizing m with
  | nil =>
    refine ⟨[], #[], ?_, .nil, rfl⟩
    rw [List.length_nil, Nat.zero_add, evaluateEach_read_end hm]
    obtain ⟨store, output, input, muted⟩ := m
    cases hm
    simp
  | @cons l line ls lines hline _ ih =>
    obtain ⟨a, ha, rfl⟩ := hline
    have hread := evaluate_read context frame location hm
      (Literal.atom_proper ha).solid (Literal.parse_atom ha)
    obtain ⟨first, hstore, hstring⟩ := l.toValue_store m.store
    obtain ⟨ws, buffers, hrest, hvalues, hstrings⟩ :=
      ih (m := { m with store := (l.toValue m.store).2, input := lines.map Text.ofChars }) rfl
    refine ⟨(l.toValue m.store).1 :: ws, first ++ buffers, ?_, ?_, ?_⟩
    . rw [List.length_cons, Nat.add_right_comm, List.replicate_succ, evaluateEach_cons hread, hrest]
      simp [hstore]
    . rw [hstore, Store.withStrings_withStrings] at hvalues
      refine .cons ?_ hvalues
      rw [← Store.withStrings_withStrings, ← hstore, Value.literal?_withStrings]
      . apply Literal.literal?_toValue ha
      . apply Run.toValue_within
    . rw [hstore, Store.size_strings_withStrings] at hstrings
      rw [Value.string?_cons, hstring, hstrings, Array.size_append, List.range'_append_1]

/--
The lines that values are printed on are the literals of these values.
-/
theorem lines_of_literals {s : Store} {vs : List Value} (h : ∀ v ∈ vs, (v.literal? s).isSome) :
    ∃ ls, vs.map (·.literal? s) = ls.map some ∧
      List.Forall₂ (fun l line => ∃ a, l.atom? = some a ∧ line = a.text) ls
        (vs.map fun v => (v.text s).toList) := by
  induction vs with
  | nil => exact ⟨[], rfl, .nil⟩
  | cons v vs ih =>
    obtain ⟨hv, hvs⟩ := List.forall_mem_cons.1 h
    obtain ⟨l, hl⟩ := Option.isSome_iff_exists.1 hv
    obtain ⟨a, ha, htext⟩ := Value.text_literal hl
    obtain ⟨ls, hls, hlines⟩ := ih hvs
    refine ⟨l :: ls, ?_, .cons ⟨a, ha, htext⟩ hlines⟩
    rw [List.map_cons, List.map_cons, hl, hls]

theorem streamLines_echo {s : Store} {vs : List Value} (h : ∀ v ∈ vs, (v.literal? s).isSome) :
    (Text.ofBytes (Text.ofString (echo s vs)).bytes).streamLines
      = (vs.map fun v => (v.text s).toList).map Text.ofChars := by
  have htext : Text.ofString (echo s vs)
      = ((vs.map fun v => (v.text s).toList).map Text.ofChars).flatMap (· ++ [.char '\n']) := by
    rw [Text.ofString, chars_echo]
    simp [Text.ofChars, List.map_flatMap, List.flatMap_map]
  rw [Text.ofString, Text.ofBytes_bytes, ← Text.ofString, htext, Text.streamLines_flatMap]
  intro line hline
  rw [List.map_map] at hline
  obtain ⟨v, hv, rfl⟩ := List.mem_map.1 hline
  obtain ⟨l, hl⟩ := Option.isSome_iff_exists.1 (h v hv)
  obtain ⟨a, ha, htext⟩ := Value.text_literal hl
  have hsolid := (Literal.atom_proper ha).solid
  rw [← htext] at hsolid
  simpa [Text.ofChars] using hsolid.line

end Machine

/--
A value `w` of the store `t` is the same as the value `v` of the store `s`. If what was in `s` still
stands in `t`, the two can be compared there.
-/
structure Value.Recalls (s t : Store) (v w : Value) : Prop where
  literal : w.literal? t = v.literal? s
  kind : w.kind = v.kind
  equal : (∃ buffers, t = s.withStrings buffers) → Value.equal t v w = true

theorem Value.recalls_of_literal {s t : Store} {v w : Value} {l : Literal} (hv : v.literal? s = some l)
    (hwithin : v.Within s) (hw : w.literal? t = some l) : Recalls s t v w where
  literal := hw.trans hv.symm
  kind := kind_of_literal hv hw
  equal := by
    rintro ⟨buffers, rfl⟩
    apply equal_of_literal _ hw
    rw [literal?_withStrings hwithin, hv]

theorem Value.recalls_all {s t : Store} {vs ws : List Value} {ls : List Literal}
    (hvs : vs.map (·.literal? s) = ls.map some) (hwithin : ∀ v ∈ vs, v.Within s)
    (hws : List.Forall₂ (fun l w => w.literal? t = some l) ls ws) :
    List.Forall₂ (Recalls s t) vs ws := by
  induction hws generalizing vs with
  | nil =>
    cases vs with
    | nil => apply List.Forall₂.nil
    | cons v vs => contradiction
  | cons hw _ ih =>
    cases vs with
    | nil => contradiction
    | cons v vs =>
      obtain ⟨hv, hvs⟩ := List.cons.inj hvs
      obtain ⟨hwithin, hrest⟩ := List.forall_mem_cons.1 hwithin
      exact .cons (recalls_of_literal hv hwithin hw) (ih hvs hrest)

theorem read_println (m : Machine) (hm : m.muted = false) (context : Option Context) (frame : Nat)
    (location : Option Location) (vs : List Value)
    (hvs : ∀ v ∈ vs, (v.literal? m.store).isSome ∧ v.Within m.store) :
    ∃ text,
      m.evaluateEach context frame (vs.map (.println location)) = (vs.map .ok, m.printed text) ∧
      ∀ (m' : Machine) (context : Option Context) (frame : Nat) (location : Option Location) (n : Nat),
        m'.input = (Text.ofBytes (Text.ofString text).bytes).streamLines →
        ∃ ws buffers,
          m'.evaluateEach context frame (List.replicate (vs.length + n) (.read location))
            = ((ws ++ List.replicate n .null).map .ok,
              { m' with store := m'.store.withStrings buffers, input := [] }) ∧
          List.Forall₂ (Value.Recalls m.store (m'.store.withStrings buffers)) vs ws ∧
          ws.filterMap Value.string? = List.range' m'.store.strings.size buffers.size := by
  have hliterals : ∀ v ∈ vs, (v.literal? m.store).isSome := fun v hv => (hvs v hv).1
  have hwithin : ∀ v ∈ vs, v.Within m.store := fun v hv => (hvs v hv).2
  obtain ⟨ls, hls, hlines⟩ := Machine.lines_of_literals hliterals
  refine ⟨Machine.echo m.store vs, ?_, ?_⟩
  . apply Machine.evaluateEach_println hm
    intro v hv
    apply (hwithin v hv).orNull_eq
  . intro m' context frame location n hinput
    rw [Machine.streamLines_echo hliterals] at hinput
    obtain ⟨ws, buffers, hread, hvalues, hstrings⟩ := Machine.evaluateEach_read hlines hinput n
    have hlength : ls.length = vs.length := by
      simpa using (congrArg List.length hls).symm
    rw [hlength] at hread
    exact ⟨ws, buffers, hread, Value.recalls_all hls hwithin hvalues, hstrings⟩

theorem read_println_extremes :
    let vs : List Value := [.null, .integer Int64.minValue, .char '\n', .string 0, .string 0]
    let m : Machine := { store := { strings := #[.ofList [' ', '"', '\\', '\u2028']] } }
    ∃ text,
      m.evaluateEach none 0 (vs.map (.println none)) = (vs.map .ok, m.printed text) ∧
      ∀ m' : Machine, m'.input = (Text.ofBytes (Text.ofString text).bytes).streamLines →
        ∃ ws buffers,
          (m'.evaluateEach none 0 (List.replicate 6 (.read none))).1 = (ws ++ [.null]).map .ok ∧
          List.Forall₂ (Value.Recalls m.store (m'.store.withStrings buffers)) vs ws := by
  intro vs m
  have hvs : ∀ v ∈ vs, (v.literal? m.store).isSome ∧ v.Within m.store := by
    simp [vs, m, Value.literal?, Value.Within]
  obtain ⟨text, hprint, hread⟩ := read_println m rfl none 0 none vs hvs
  refine ⟨text, hprint, ?_⟩
  intro m' hinput
  obtain ⟨ws, buffers, hresult, hrecalls, _⟩ := hread m' none 0 none 1 hinput
  exact ⟨ws, buffers, congrArg Prod.fst hresult, hrecalls⟩

end LispScript
