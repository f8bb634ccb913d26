import LispScript.Proofs.Echo
import LispScript.Proofs.Splitting
import LispScript.Report

/-!
This module contains the proof of what a report shows of a source: the lines around the location, each after
its number, and the carets below the line of the location. The numbers are written into a column that is as
wide as it has to be, while the carets are moved to the right as if it was as wide as it is meant to be. So
they stand below their place unless the number of the line has more digits.
-/

namespace LispScript

/--
The line of the source that a location is on.
-/
def Location.sourceLine (l : Location) (source : Text) : Text :=
  source.splitLines.getD (l.line - 1).toNat []

/--
The location lies in the source: there is its line, and the line has its column.
-/
structure Location.Within (l : Location) (source : Text) : Prop where
  line : 1 ≤ l.line ∧ l.line ≤ source.splitLines.length
  column : 1 ≤ l.column ∧ l.column ≤ (l.sourceLine source).length
  length : 1 ≤ l.length

/-! Lines. -/

theorem Text.ofString_append (s t : String) : ofString (s ++ t) = ofString s ++ ofString t := by
  unfold ofString ofChars
  rw [String.toList_append, List.map_append]

namespace Report

/--
A report without its styles.
-/
def plain (spans : List Span) : Text :=
  spans.flatMap Span.unstyled

/--
The message and the place it belongs to.
-/
def heading (message : String) (l : Location) : Text :=
  .ofString s!"Error: {message}\n  --> {l.text}"

def frame : Text :=
  .ofString (" " ++ padLeft numberWidth "" ++ " |")

/--
What stands before the source line of a number.
-/
def gutter (number : Nat) : Text :=
  .ofString (" " ++ padLeft numberWidth (toString number) ++ " | ")

/--
The line below the line of a location.
-/
def caretLine (l : Location) : Text :=
  List.replicate (numberWidth + 3 + l.column.toNat) (.char ' ') ++ List.replicate l.length.toNat (.char '^')

/--
What is shown for the source line of a number: this line, and the carets if it is that of the location.
-/
def numbered (l : Location) (lines : List Text) (number : Nat) : List Text :=
  (gutter number ++ lines.getD (number - 1) []) :: if number = l.line then [caretLine l] else []

/--
The numbers of the source lines that are shown.
-/
def numbers (l : Location) (lines : List Text) : List Nat :=
  let first := max 1 (l.line - contextLines)
  let last := min (lines.length : Int) (l.line + contextLines)
  List.range' first.toNat (last - first + 1).toNat

variable {l : Location} {source line : Text} {lines : List Text} {message : String} {number : Nat}

/-! Spans. -/

theorem plain_append (first second : List Span) : plain (first ++ second) = plain first ++ plain second :=
  List.flatMap_append

theorem plain_flatMap {α : Type} (f : α → List Span) (xs : List α) :
    plain (xs.flatMap f) = xs.flatMap fun x => plain (f x) :=
  List.flatMap_assoc

theorem plain_heading : plain
      [.style .bold, .style .red, .ofString "Error:", .style .plain, .ofString s!" {message}\n", .ofString "  ",
        .style .dim, .style .blue, .ofString s!"--> {l.text}", .style .plain, .ofString "\n"]
    = heading message l ++ [.char '\n'] := by
  unfold plain heading
  simp only [List.flatMap_cons, List.flatMap_nil, Span.unstyled, Span.ofString, Text.ofString_append,
    List.append_assoc, List.nil_append]
  rfl

theorem plain_rule : plain rule = frame ++ [.char '\n'] := by
  decide

theorem plain_contextLine :
    plain (contextLine number line) = gutter number ++ line ++ [.char '\n'] := by
  unfold plain contextLine gutter
  simp only [List.flatMap_cons, List.flatMap_nil, Span.unstyled, Span.ofString, Text.ofString_append,
    List.append_assoc, List.nil_append]
  rfl

theorem plain_markedLine (hnumber : number = l.line) (hcolumn : 1 ≤ l.column) (hlength : 1 ≤ l.length) :
    plain (markedLine l line) = gutter number ++ line ++ [.char '\n'] ++ caretLine l ++ [.char '\n'] := by
  have hpadding : (1 + numberWidth + 3 + l.column - 1).toNat = numberWidth + 3 + l.column.toNat := by
    omega
  have hcarets : max 1 l.length.toNat = l.length.toNat := by
    omega
  unfold plain markedLine gutter caretLine
  simp only [List.flatMap_cons, List.flatMap_nil, Span.unstyled, Span.ofString, Text.ofString_append,
    List.append_assoc, List.nil_append, hpadding, hcarets, ← hnumber]
  rfl

/-! Source lines. -/

theorem numbers_pairwise (l : Location) (lines : List Text) : (numbers l lines).Pairwise (· < ·) :=
  List.pairwise_lt_range'

theorem mem_numbers : number ∈ numbers l lines ↔
    max 1 (l.line - 2) ≤ number ∧ number ≤ min (lines.length : Int) (l.line + 2) := by
  unfold numbers contextLines
  rw [List.mem_range'_1]
  omega

theorem zipIdx_slice {first count : Nat} (hfirst : 1 ≤ first) (hcount : first - 1 + count ≤ lines.length) :
    (((lines.drop (first - 1)).take count).zipIdx.map fun (line, i) => ((first : Int) + i, line))
      = (List.range' first count).map fun number : Nat => ((number : Int), lines.getD (number - 1) []) := by
  apply List.ext_getElem
  . simp only [List.length_map, List.length_zipIdx, List.length_take, List.length_drop, List.length_range']
    omega
  . intro i hi hi'
    rw [List.length_map, List.length_range'] at hi'
    have hindex : first + i - 1 = first - 1 + i := by
      omega
    have hline : first - 1 + i < lines.length := by
      omega
    simp [hindex, hline]

/--
The source lines that are cut out are those with the numbers.
-/
theorem zipIdx_shown (hline : 1 ≤ l.line ∧ l.line ≤ lines.length) :
    let first := max 1 (l.line - contextLines)
    let last := min (lines.length : Int) (l.line + contextLines)
    let shown := (lines.drop (first - 1).toNat).take (last - first + 1).toNat
    (shown.zipIdx.map fun (line, i) => (first + i, line))
      = (numbers l lines).map fun number : Nat => ((number : Int), lines.getD (number - 1) []) := by
  have hcontext : contextLines = 2 := rfl
  obtain ⟨first, hfirst⟩ : ∃ first : Nat, max 1 (l.line - contextLines) = first :=
    ⟨_, (Int.toNat_of_nonneg (by omega)).symm⟩
  have hlast : min (lines.length : Int) (l.line + contextLines) ≤ lines.length := Int.min_le_left _ _
  unfold numbers
  generalize min (lines.length : Int) (l.line + contextLines) = last at hlast
  dsimp only
  have hstart : ((first : Int) - 1).toNat = first - 1 := by
    omega
  rw [hfirst, hstart, Int.toNat_natCast]
  apply zipIdx_slice
  . omega
  . omega

theorem plain_numbered (hcolumn : 1 ≤ l.column) (hlength : 1 ≤ l.length) (number : Nat) :
    plain (if number = l.line then markedLine l (lines.getD (number - 1) [])
        else contextLine number (lines.getD (number - 1) []))
      = (numbered l lines number).flatMap (· ++ [.char '\n']) := by
  unfold numbered
  split
  . next hnumber =>
    rw [plain_markedLine hnumber hcolumn hlength]
    simp
  . simp [plain_contextLine]

theorem plain_spans (h : l.Within source) :
    plain (spans message (some l) source)
      = heading message l ++ .char '\n' ::
        (frame :: (numbers l source.splitLines).flatMap (numbered l source.splitLines) ++ [frame]).flatMap
          (· ++ [.char '\n']) := by
  have hline := h.line
  unfold spans
  dsimp only
  rw [if_pos hline]
  unfold excerpt
  dsimp only
  rw [zipIdx_shown hline, plain_append, plain_append, plain_append, plain_heading, plain_rule, plain_flatMap,
    List.flatMap_map]
  simp only [plain_numbered h.column.1 h.length]
  simp [List.flatMap_assoc]

/-! Lines of a report. -/

theorem padLeft_length (width : Nat) (s : String) : (padLeft width s).length = max width s.length := by
  unfold padLeft
  rw [String.length_append, String.length_ofList, List.length_replicate]
  omega

theorem gutter_length (number : Nat) :
    (gutter number).length = 4 + max numberWidth (toString number).length := by
  have hspace : " ".length = 1 := rfl
  have hbar : " | ".length = 3 := rfl
  unfold gutter Text.ofString Text.ofChars
  rw [List.length_map, String.length_toList, String.length_append, String.length_append, padLeft_length,
    hspace, hbar]
  omega

theorem newline_not_mem_gutter (number : Nat) : .char '\n' ∉ gutter number := by
  have hdigits : '\n' ∉ Nat.toDigits 10 number := by
    intro hnewline
    exact absurd (Nat.isDigit_of_mem_toDigits (by decide) (by decide) hnewline) (by decide)
  unfold gutter padLeft Text.ofString Text.ofChars
  simpa using hdigits

theorem newline_not_mem_numbered {shown : Text} (h : shown ∈ numbered l source.splitLines number) :
    .char '\n' ∉ shown := by
  have hline : .char '\n' ∉ source.splitLines.getD (number - 1) [] := by
    rw [List.getD_eq_getElem?_getD]
    cases hget : source.splitLines[number - 1]? with
    | none => exact List.not_mem_nil
    | some line => exact notMem_of_mem_splitOn (List.mem_of_getElem? hget)
  have hcarets : .char '\n' ∉ caretLine l := by
    simp [caretLine]
  unfold numbered at h
  rw [List.mem_cons] at h
  obtain h | h := h
  . rw [h, List.mem_append, not_or]
    exact ⟨newline_not_mem_gutter number, hline⟩
  . split at h
    . rw [List.mem_singleton] at h
      rwa [h]
    . exact absurd h List.not_mem_nil

theorem newline_not_mem_frame : .char '\n' ∉ frame := by
  decide

theorem splitLines_plain_spans (h : l.Within source) :
    (plain (spans message (some l) source)).splitLines
      = (heading message l).splitLines ++
        (frame :: (numbers l source.splitLines).flatMap (numbered l source.splitLines) ++ [frame, []]) := by
  rw [plain_spans h, Text.splitLines, List.splitOn_append_cons_self]
  show _ ++ Text.splitLines _ = _
  rw [Text.splitLines_flatMap, List.append_assoc]
  . rfl
  . intro line hline
    rw [List.mem_append, List.mem_cons, List.mem_flatMap, List.mem_singleton] at hline
    obtain (hline | ⟨number, _, hline⟩) | hline := hline
    . rw [hline]
      exact newline_not_mem_frame
    . exact newline_not_mem_numbered hline
    . rw [hline]
      exact newline_not_mem_frame

/--
The gutter is wider than the carets take it for if the number of the line has more digits.
-/
theorem gutter_offset (hcolumn : 1 ≤ l.column) :
    (gutter l.line.toNat).length + (l.column.toNat - 1)
      = numberWidth + 3 + l.column.toNat + ((toString l.line.toNat).length - numberWidth) := by
  rw [gutter_length]
  omega

theorem digits_le_numberWidth_iff : (toString l.line.toNat).length ≤ numberWidth ↔ l.line < 1000 := by
  have hdigits : (toString l.line.toNat).length ≤ numberWidth ↔ l.line.toNat < 10 ^ 3 :=
    Nat.length_repr_le_iff (by decide)
  rw [hdigits]
  omega

end Report

/--
The report of a failure whose location lies in the source shows the source lines around the location, each
after its number, and the carets directly below the line of the location. They stand under its column as long
as the number of the line has at most three digits; otherwise, they are as far to the left as it has more.
-/
theorem Failure.spans_carets {f : Failure} {o : Origin} {l : Location} {source : Text}
    (hf : f.origin = some o) (hl : o.location = some l) (h : l.Within source) :
    let lines := source.splitLines
    let shown := Report.numbers l lines
    (Report.plain (f.spans source)).splitLines
        = (Report.heading f.message l).splitLines ++
          (Report.frame :: shown.flatMap (Report.numbered l lines) ++ [Report.frame, []]) ∧
      shown.Pairwise (· < ·) ∧
      (∀ number, number ∈ shown ↔
        max 1 (l.line - 2) ≤ number ∧ number ≤ min (lines.length : Int) (l.line + 2)) ∧
      ∃ padding,
        Report.caretLine l
            = List.replicate padding (.char ' ') ++ List.replicate l.length.toNat (.char '^') ∧
          (Report.gutter l.line.toNat).length + (l.column.toNat - 1)
            = padding + ((toString l.line.toNat).length - Report.numberWidth) ∧
          (padding = (Report.gutter l.line.toNat).length + (l.column.toNat - 1) ↔ l.line < 1000) := by
  intro lines shown
  have hoffset := Report.gutter_offset h.column.1
  have hdigits := @Report.digits_le_numberWidth_iff l
  refine ⟨?_, Report.numbers_pairwise l lines, fun number => Report.mem_numbers, _, rfl, hoffset, ?_⟩
  . unfold Failure.spans
    rw [hf]
    dsimp only
    rw [hl]
    exact Report.splitLines_plain_spans h
  . rw [hoffset, ← hdigits]
    omega

/--
On line 1000 the carets are moved to the left by one.
-/
theorem Failure.spans_carets_line_1000 :
    let source : Text := .ofChars (List.replicate 999 '\n' ++ "(/ 1 0)".toList)
    let l : Location := { file := "a", line := 1000, column := 1, length := 7 }
    let f : Failure := { fault := .quotientByZero 1, origin := some { location := some l, source } }
    l.Within source ∧ ∃ padding,
      Report.caretLine l = List.replicate padding (.char ' ') ++ List.replicate 7 (.char '^') ∧
      (Report.gutter 1000).length = padding + 1 ∧
      (Report.plain (f.spans source)).splitLines
        = (Report.heading f.message l).splitLines ++
          (Report.frame :: [998, 999, 1000].flatMap (Report.numbered l source.splitLines) ++
            [Report.frame, []]) := by
  intro source l f
  have hlines : source.splitLines = List.replicate 999 [] ++ [Text.ofString "(/ 1 0)"] := by
    decide +kernel
  have hwithin : l.Within source := by
    constructor
    . rw [hlines]
      decide +kernel
    . rw [Location.sourceLine, hlines]
      decide +kernel
    . decide
  have hnumbers : Report.numbers l source.splitLines = [998, 999, 1000] := by
    rw [hlines]
    decide +kernel
  have hline : l.line.toNat = 1000 := rfl
  have hcolumn : l.column.toNat - 1 = 0 := rfl
  have hdigits : (toString 1000).length - Report.numberWidth = 1 := by
    decide +kernel
  obtain ⟨hreport, _, _, padding, hcarets, hoffset, _⟩ :=
    @Failure.spans_carets f _ l source rfl rfl hwithin
  rw [hline, hcolumn, hdigits, Nat.add_zero] at hoffset
  rw [hnumbers] at hreport
  exact ⟨hwithin, padding, hcarets, hoffset, hreport⟩

end LispScript
