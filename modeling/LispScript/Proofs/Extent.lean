import LispScript.Proofs.Carets
import LispScript.Proofs.Wellformed

/-!
This module contains the proof that everything that is reported about a source text lies in it: nodes of trees
and errors are located on one of its lines, and in this line. They also end there, except for quoted literals
that go on after the end of the line.
-/

namespace LispScript

/-! Lines. -/

section

variable {α : Type} [BEq α] [LawfulBEq α] {a : α}

theorem length_takeWhile_append_le_iff (span rest : List α) :
    span.length ≤ ((span ++ rest).takeWhile (· != a)).length ↔ a ∉ span := by
  constructor
  . intro hlength ha
    obtain ⟨first, last, rfl, hfirst⟩ := List.eq_append_cons_of_mem ha
    rw [List.append_assoc, takeWhile_append_of_not_mem hfirst, List.cons_append,
      List.takeWhile_cons_of_neg (by simp), List.append_nil, List.length_append, List.length_cons] at hlength
    omega
  . intro ha
    rw [takeWhile_append_of_not_mem ha, List.length_append]
    omega

end

theorem Glyph.beq_newline (g : Glyph) : (g == .char '\n') = (g.toChar == '\n') := by
  rw [Bool.eq_iff_iff, beq_iff_eq, beq_iff_eq]
  cases g with
  | char c => simp [toChar]
  | stray b => simp [toChar]

theorem Text.map_chars_splitLines (t : Text) : t.splitLines.map Text.chars = t.chars.splitOn '\n' :=
  map_splitOn (fun g => g.beq_newline.symm) t

/-! Stretches. -/

namespace Location

/--
The location ends on the line that it begins on.
-/
def Fits (l : Location) (source : Text) : Prop :=
  l.column - 1 + l.length ≤ (l.sourceLine source).length

/--
The location is that of a stretch of the source text, which begins on one of its lines and inside of this
line. The stretch ends there if there is no end of a line in it; only a quoted literal can go on after one.
-/
structure Spans (l : Location) (file : String) (source : Text) : Prop where
  within : l.Within source
  extent : ∃ before span rest, source.chars = before ++ span ++ rest ∧ l = .after file before span.length ∧
    (l.Fits source ↔ '\n' ∉ span) ∧ ('\n' ∈ span → ∃ mark : QuoteMark, span.head? = some mark.char)
  carets : l.Fits source →
    (Report.caretLine l).length ≤ (Report.gutter l.line.toNat ++ l.sourceLine source).length

variable {file : String} {source : Text} {l : Location}

theorem after_sourceLine {before rest : List Char} (hsource : source.chars = before ++ rest) (length : Nat) :
    (after file before length).line ≤ source.splitLines.length ∧
      ((after file before length).sourceLine source).chars
        = (before.reverse.takeWhile (· != '\n')).reverse ++ rest.takeWhile (· != '\n') := by
  have hindex : ((after file before length).line - 1).toNat = before.count '\n' := by
    unfold after
    simp only
    omega
  have hline := splitOn_getElem?_count (a := '\n') before rest
  rw [← hsource, ← Text.map_chars_splitLines, List.getElem?_map, Option.map_eq_some_iff] at hline
  obtain ⟨line, hget, hline⟩ := hline
  obtain ⟨hlength, -⟩ := List.getElem?_eq_some_iff.1 hget
  constructor
  . unfold after
    simp only
    omega
  . unfold sourceLine
    rw [hindex, List.getD_eq_getElem?_getD, hget]
    exact hline

theorem Within.carets (h : l.Within source) (hfits : l.Fits source) :
    (Report.caretLine l).length ≤ (Report.gutter l.line.toNat ++ l.sourceLine source).length := by
  have hcolumn := h.column
  have hlength := h.length
  unfold Fits at hfits
  unfold Report.caretLine
  rw [List.length_append, List.length_append, List.length_replicate, List.length_replicate,
    Report.gutter_length]
  omega

/--
A stretch does not begin with the end of a line.
-/
theorem takeWhile_pos_of_quoted {span rest : List Char} (hspan : span ≠ [])
    (hquoted : '\n' ∈ span → ∃ mark : QuoteMark, span.head? = some mark.char) :
    0 < ((span ++ rest).takeWhile (· != '\n')).length := by
  obtain ⟨c, span, rfl⟩ := List.exists_cons_of_ne_nil hspan
  have hc : c ≠ '\n' := by
    rintro rfl
    obtain ⟨mark, hmark⟩ := hquoted List.mem_cons_self
    cases mark <;> simp [QuoteMark.char] at hmark
  simp [hc]

theorem IsStretch.spans (h : l.IsStretch file source.chars) : l.Spans file source := by
  obtain ⟨before, span, rest, hsource, hspan, rfl, hquoted⟩ := h
  have hsource' := hsource
  rw [List.append_assoc] at hsource'
  obtain ⟨hlines, hline⟩ := @after_sourceLine file source before (span ++ rest) hsource' span.length
  have hlength := congrArg List.length hline
  rw [Text.chars, List.length_map, List.length_append, List.length_reverse] at hlength
  have hfirst := @takeWhile_pos_of_quoted span rest hspan hquoted
  have hextent := @length_takeWhile_append_le_iff _ _ _ '\n' span rest
  have hpositive := List.length_pos_iff.2 hspan
  have hcolumn : (after file before span.length).column
      = 1 + (before.reverse.takeWhile (· != '\n')).length := rfl
  have hwithin : (after file before span.length).Within source := by
    refine ⟨⟨?_, hlines⟩, ⟨?_, ?_⟩, ?_⟩
    . unfold after
      simp only
      omega
    . omega
    . omega
    . unfold after
      simp only
      omega
  have hfits : (after file before span.length).Fits source ↔ '\n' ∉ span := by
    have hspan : (after file before span.length).length = span.length := rfl
    rw [← hextent, Fits]
    omega
  exact ⟨hwithin, ⟨before, span, rest, hsource, rfl, hfits, hquoted⟩, hwithin.carets⟩

end Location

/-! Data. -/

namespace Datum

theorem placesAll_append (ds es : List Datum) : placesAll (ds ++ es) = placesAll ds ++ placesAll es := by
  induction ds with
  | nil => rfl
  | cons d ds ih => rw [List.cons_append, placesAll, placesAll, ih, List.append_assoc]

/--
If a list is not on one line, its opening parenthesis is a stretch.
-/
theorem reach_isStretch {file : String} {before inner last span : List Char}
    (hspan : span = ['('] ++ inner ++ last ++ [')']) :
    (Location.after file before (reach span)).IsStretch file (before ++ span) := by
  unfold reach
  split
  . refine ⟨before, ['('], inner ++ last ++ [')'], ?_, by simp, rfl, by simp⟩
    rw [hspan]
    simp only [List.append_assoc]
  . next hline =>
    refine ⟨before, span, [], by rw [List.append_nil], ?_, rfl, fun hnewline => absurd hnewline hline⟩
    rw [hspan]
    simp

theorem Written.stretch {file : String} {before text : List Char} {ds : List Datum}
    (h : Written file before text ds) : ∀ l ∈ placesAll ds, l.IsStretch file (before ++ text) := by
  induction h with
  | nil => nofun
  | @atom before text gap span ds a _ _ hspan ih =>
    rw [placesAll_append, List.forall_mem_append, ← List.append_assoc]
    refine ⟨fun l hl => (ih l hl).append _, ?_⟩
    rw [placesAll, placesAll, places, List.append_nil, List.forall_mem_singleton]
    refine ⟨before ++ text ++ gap, span, [], ?_, hspan.ne_nil, rfl, hspan.quoted⟩
    simp only [List.append_assoc, List.append_nil]
  | @list before text gap inner last span ds items _ _ _ _ hspan ih ihitems =>
    rw [placesAll_append, List.forall_mem_append, ← List.append_assoc]
    refine ⟨fun l hl => (ih l hl).append _, ?_⟩
    rw [placesAll, placesAll, places, List.append_nil, List.forall_mem_cons,
      ← List.append_assoc (before ++ text)]
    refine ⟨reach_isStretch hspan, ?_⟩
    intro l hl
    rw [hspan]
    simpa only [List.append_assoc] using ((ihitems l hl).append last).append [')']

end Datum

theorem Datum.toExpr_reported {P : Location → Prop} (d : Datum) (hd : ∀ l ∈ d.places, P l) :
    Reported P (Expr.Solid P) d.toExpr := by
  have hsolid := d.toExpr_solid hd
  obtain ⟨_, e, he⟩ | ⟨_, e, l, he, _, _, hl, hplace⟩ := d.toExpr_grammatical
  . rw [he] at hsolid ⊢
    exact hsolid
  . rw [he]
    exact ⟨l, hl, hd l hplace⟩

theorem Expr.parse_reported (file : String) (source : List Char) :
    Reported (Location.IsStretch file source)
      (fun forms => ∀ e ∈ forms, e.Solid (Location.IsStretch file source)) (Expr.parse file source) := by
  unfold Expr.parse
  apply (Datum.readAll_reported file source).bind
  rintro data ⟨text, rest, rfl, _, _, hwritten⟩
  apply Reported.mapM
  intro d hd
  apply d.toExpr_reported
  intro l hl
  exact (hwritten.stretch l (Datum.mem_placesAll.2 ⟨d, hd, hl⟩)).append rest

/--
Every node of the trees that a source text is read as, and every error in it, is located in the text, from a
column of one of its lines on. It ends on this line unless it is a quoted literal with the end of a line in
it.
-/
theorem Expr.parse_spans (file : String) (source : Text) :
    (∀ forms, Expr.parse file source.chars = .ok forms →
      ∀ e ∈ forms, e.Every fun location _ => ∃ l, location = some l ∧ l.Spans file source) ∧
    ∀ e, Expr.parse file source.chars = .error e → ∃ l, e.location = some l ∧ l.Spans file source := by
  have hreported := Expr.parse_reported file source.chars
  constructor
  . intro forms hforms e he
    rw [hforms] at hreported
    apply (hreported e he).formed.mono
    rintro location form ⟨⟨l, hl, hstretch⟩, _⟩
    exact ⟨l, hl, hstretch.spans⟩
  . intro e he
    rw [he] at hreported
    obtain ⟨l, hl, hstretch⟩ := hreported
    exact ⟨l, hl, hstretch.spans⟩

/--
A string that consists of the end of a line: it is as long as three characters, and its line has one.
-/
theorem Expr.parse_spans_string :
    let source : Text := .ofChars ['"', '\n', '"']
    let l : Location := { file := "a", line := 1, column := 1, length := 3 }
    Expr.parse "a" source.chars = .ok [.node (some l) (.literal (.string "\n"))] ∧ l.Spans "a" source ∧
      (l.sourceLine source).length = 1 ∧ ¬ l.Fits source := by
  intro source l
  have hparse : Expr.parse "a" source.chars = .ok [.node (some l) (.literal (.string "\n"))] := rfl
  have hline : (l.sourceLine source).length = 1 := rfl
  have hfits : ¬ l.Fits source := by
    unfold Location.Fits
    rw [hline]
    decide
  have hspans := (Expr.parse_spans "a" source).1 _ hparse _ List.mem_cons_self
  cases hspans with
  | node here _ =>
    obtain ⟨_, ⟨⟩, hl⟩ := here
    exact ⟨hparse, hl, hline, hfits⟩

end LispScript
