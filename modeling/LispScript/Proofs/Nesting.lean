import LispScript.Proofs.Tiling

/-!
This module contains the proof that data are located where they are written. What has been read from a text
can be found in it again: an atom at the place of its token, and a list from its opening parenthesis to the
closing one that matches it, with its items in between.
-/

namespace LispScript

/-! Locations. -/

theorem takeWhile_append_of_not_mem {α : Type} [BEq α] [LawfulBEq α] {a : α} {xs : List α} (h : a ∉ xs)
    (rest : List α) : (xs ++ rest).takeWhile (· != a) = xs ++ rest.takeWhile (· != a) := by
  apply List.takeWhile_append_of_pos
  intro x hx
  rw [bne_iff_ne]
  rintro rfl
  exact h hx

namespace Location

variable (file : String) (before : List Char) {span : List Char} (length length' : Nat)

theorem after_append_line (span : List Char) :
    (after file (before ++ span) length').line = (after file before length).line + span.count '\n' := by
  unfold after
  rw [List.count_append]
  simp only
  omega

theorem after_append_column (h : '\n' ∉ span) :
    (after file (before ++ span) length').column = (after file before length).column + span.length := by
  have hspan : '\n' ∉ span.reverse := by
    rwa [List.mem_reverse]
  unfold after
  rw [List.reverse_append, takeWhile_append_of_not_mem hspan, List.length_append, List.length_reverse]
  simp only
  omega

end Location

/-! Data. -/

namespace Datum

/--
How much of a list is located: all of it if it is on one line, and else its opening parenthesis.
-/
def reach (span : List Char) : Nat :=
  if '\n' ∈ span then 1 else span.length

/--
The text holds the data, each after a gap, and ends with the last of them. It follows `before`, and the data
are located in the two together.
-/
inductive Written (file : String) : (before text : List Char) → List Datum → Prop where
  | nil {before : List Char} : Written file before [] []
  | atom {before text gap span : List Char} {ds : List Datum} {a : Atom} (h : Written file before text ds)
      (hgap : Gap gap) (hspan : (Lexeme.atom a).Written span) :
      Written file before (text ++ (gap ++ span))
        (ds ++ [.atom (.after file (before ++ text ++ gap) span.length) a])
  | list {before text gap inner last span : List Char} {ds items : List Datum}
      (h : Written file before text ds) (hgap : Gap gap)
      (hitems : Written file (before ++ text ++ gap ++ ['(']) inner items) (hlast : Gap last)
      (hspan : span = ['('] ++ inner ++ last ++ [')']) :
      Written file before (text ++ (gap ++ span))
        (ds ++ [.list (.after file (before ++ text ++ gap) (reach span)) items])

variable {file : String} {before text gap : List Char}

theorem Written.append {more : List Char} {ds es : List Datum} (h : Written file before text ds)
    (hmore : Written file (before ++ text) more es) : Written file before (text ++ more) (ds ++ es) := by
  generalize hplace : before ++ text = place at hmore
  induction hmore with
  | nil => rwa [List.append_nil, List.append_nil]
  | atom _ hgap hspan ih =>
    rw [← hplace, List.append_assoc before, ← List.append_assoc text, ← List.append_assoc ds]
    exact (ih hplace).atom hgap hspan
  | list _ hgap hitems hlast hspan ih _ =>
    rw [← hplace, List.append_assoc before] at hitems ⊢
    rw [← List.append_assoc text, ← List.append_assoc ds]
    exact (ih hplace).list hgap hitems hlast hspan

end Datum

/--
The length of a list is found out from the locations of its parentheses.
-/
theorem OpenList.close_after {file : String} {before inner last span : List Char} {o : OpenList}
    (ho : o.location = .after file before 1) (hspan : span = ['('] ++ inner ++ last ++ [')']) :
    o.close (.after file (before ++ (['('] ++ inner ++ last)) 1)
      = .list (.after file before (Datum.reach span)) o.items.reverse := by
  -- What comes before the closing parenthesis decides on which line that one is.
  generalize ['('] ++ inner ++ last = content at hspan
  have hline : '\n' ∈ span ↔ '\n' ∈ content := by
    rw [hspan, List.mem_append, or_iff_left (by decide)]
  have hlength : span.length = content.length + 1 := by
    rw [hspan, List.length_append, List.length_singleton]
  unfold OpenList.close Datum.reach
  rw [ho, Location.after_append_line file before 1]
  by_cases hnewline : '\n' ∈ content
  . have hcount := List.count_pos_iff.2 hnewline
    rw [if_pos (hline.2 hnewline), if_neg (by omega)]
  . have hcount := List.count_eq_zero.2 hnewline
    have hlast (column : Int) : column + content.length - column + 1 = span.length := by
      omega
    rw [if_neg (mt hline.1 hnewline), if_pos (by omega),
      Location.after_append_column file before 1 1 hnewline, hlast]
    rfl

/-! Tokens. -/

/--
The outcome of reading: `Q` holds of what was read, or `L` of the place where it cannot be read.
-/
def Reported {α : Type} (L : Location → Prop) (Q : α → Prop) : Except ReadError α → Prop
  | .ok a => Q a
  | .error e => ∃ l, e.location = some l ∧ L l

namespace Reported

variable {α β : Type} {L : Location → Prop} {Q : α → Prop} {R : β → Prop}

theorem bind {x : Except ReadError α} {f : α → Except ReadError β} (hx : Reported L Q x)
    (hf : ∀ a, Q a → Reported L R (f a)) : Reported L R (x >>= f) := by
  cases x with
  | ok a => exact hf a hx
  | error e => exact hx

theorem mono {L' : Location → Prop} {Q' : α → Prop} {x : Except ReadError α} (hx : Reported L Q x)
    (hl : ∀ l, L l → L' l) (hq : ∀ a, Q a → Q' a) : Reported L' Q' x := by
  cases x with
  | ok a => exact hq a hx
  | error e =>
    obtain ⟨l, hlocation, hplace⟩ := hx
    exact ⟨l, hlocation, hl l hplace⟩

theorem mapM {f : α → Except ReadError β} {xs : List α} (h : ∀ x ∈ xs, Reported L R (f x)) :
    Reported L (fun ys => ∀ y ∈ ys, R y) (xs.mapM f) := by
  induction xs with
  | nil => exact nofun
  | cons x xs ih =>
    obtain ⟨hx, hxs⟩ := List.forall_mem_cons.1 h
    rw [List.mapM_cons]
    apply bind hx
    intro y hy
    apply bind (ih hxs)
    intro ys hys
    exact List.forall_mem_cons.2 ⟨hy, hys⟩

end Reported

namespace Reader

/--
What a reader holds after a text: the finished data, and the open lists, each with its items so far. Both are
in reverse.
-/
inductive Holds (file : String) : List Char → Reader → Prop where
  | finished {text : List Char} {data : List Datum} (h : Datum.Written file [] text data.reverse) :
      Holds file text { data }
  | opened {text gap inner : List Char} {outer : List OpenList} {data : List Datum} {o : OpenList}
      (h : Holds file text { outer, data }) (hgap : Gap gap)
      (hlocation : o.location = .after file (text ++ gap) 1)
      (hitems : Datum.Written file (text ++ gap ++ ['(']) inner o.items.reverse) :
      Holds file (text ++ gap ++ ['('] ++ inner) { outer := o :: outer, data }

variable {file : String} {text gap span : List Char} {r : Reader}

theorem Holds.add (h : Holds file text r) {d : Datum} (hd : Datum.Written file text span [d]) :
    Holds file (text ++ span) (r.add d) := by
  unfold Reader.add
  cases h with
  | finished hdata =>
    apply Holds.finished
    rw [List.reverse_cons]
    exact hdata.append hd
  | opened h hgap hlocation hitems =>
    rw [List.append_assoc _ _ span]
    refine .opened h hgap hlocation ?_
    rw [List.reverse_cons]
    exact hitems.append hd

theorem Holds.step (h : Holds file text r) (hgap : Gap gap) {t : Token}
    (ht : t.Covers file (text ++ gap) span) :
    Reported (Location.IsStretch file (text ++ gap ++ span)) (Holds file (text ++ gap ++ span))
      (r.step t) := by
  obtain ⟨lexeme, location⟩ := t
  obtain ⟨rfl, hwritten, -⟩ := ht
  unfold Reader.step
  cases lexeme with
  | atom a =>
    rw [List.append_assoc]
    apply h.add
    have hatom := (@Datum.Written.nil file text).atom hgap hwritten
    rwa [List.append_nil] at hatom
  | opening =>
    cases hwritten
    have hopened := @Holds.opened file text gap [] r.outer r.data ⟨.after file (text ++ gap) 1, []⟩ h hgap
      rfl .nil
    rwa [List.append_nil] at hopened
  | closing =>
    cases hwritten
    cases h with
    | finished => exact ⟨_, rfl, text ++ gap, [')'], [], by rw [List.append_nil], by simp, rfl, by simp⟩
    | @opened text start inner outer data o h hstart hlocation hitems =>
      -- The list is written in all that has been read since its opening parenthesis, which is put back to
      -- where the list around it was left.
      have hlist := (@Datum.Written.nil file text).list hstart (by rwa [List.append_nil]) hgap rfl
      rw [List.append_nil, ← OpenList.close_after hlocation rfl] at hlist
      have hadded := h.add hlist
      simp only [List.append_assoc, List.nil_append] at hadded ⊢
      exact hadded

/--
The tokens of a text are read into what they are written for.
-/
theorem holds_of_tiles {ts : List Token} (h : Token.Tiles file text ts) :
    Reported (Location.IsStretch file text) (Holds file text) (ts.foldlM step {}) := by
  induction h with
  | nil => exact .finished .nil
  | @concat text gap span ts t _ hgap ht ih =>
    rw [List.foldlM_append]
    have hbefore := ih.mono (fun l hl => (hl.append gap).append span) fun r hr => hr
    apply hbefore.bind
    intro r hr
    rw [List.foldlM_cons]
    apply (hr.step hgap ht).bind
    intro r' hr'
    exact hr'

/--
At the end of a text, an open list is reported at its parenthesis.
-/
theorem Holds.finish (h : Holds file text r) :
    Reported (Location.IsStretch file text) (Datum.Written file [] text) r.finish := by
  cases h with
  | finished h => exact h
  | @opened text gap inner outer data o _ _ hlocation _ =>
    refine ⟨o.location, rfl, text ++ gap, ['('], inner, rfl, by simp, ?_, by simp⟩
    rw [hlocation]
    rfl

end Reader

/--
The data of a scan are written in its text, and whatever cannot be read is reported at a stretch of the
source.
-/
theorem Scan.Tiled.data {scan : Scan} {file : String} {source : List Char} (h : scan.Tiled file source) :
    Reported (Location.IsStretch file source)
      (fun data => ∃ text rest, source = text ++ rest ∧ Token.Tiles file text scan.tokens ∧
        Trailing rest ∧ Datum.Written file [] text data) scan.data := by
  obtain ⟨text, rest, rfl, htiles, htrailing⟩ := h.tiles
  unfold Scan.data
  have hholds := Reader.holds_of_tiles htiles
  apply (hholds.mono (fun l hl => hl.append rest) fun r hr => hr).bind
  intro r hr
  split
  . next e he => exact h.error e he
  . next hok =>
    apply hr.finish.mono (fun l hl => hl.append rest)
    intro data hdata
    exact ⟨text, rest, rfl, htiles, htrailing hok, hdata⟩

theorem Datum.readAll_reported (file : String) (source : List Char) :
    Reported (Location.IsStretch file source)
      (fun data => ∃ text rest, source = text ++ rest ∧
        Token.Tiles file text (Token.scan file source).tokens ∧ Trailing rest ∧
        Datum.Written file [] text data) (Datum.readAll file source) :=
  (Token.scan_tiled file source).data

/--
A text that can be read is made up of the spans of its tokens, with nothing but white space and comments
before each of them and after the last one. Every token is located at its span, and read from it alone. The
data are written in the same text: an atom is located at its token, and a list from its opening parenthesis up
to the closing one that matches it if both are on one line.
-/
theorem Datum.readAll_lossless {file : String} {source : List Char} {data : List Datum}
    (h : Datum.readAll file source = .ok data) :
    ∃ text trailing, source = text ++ trailing ∧ Trailing trailing ∧
      Token.Tiles file text (Token.scan file source).tokens ∧ Datum.Written file [] text data := by
  have hreported := Datum.readAll_reported file source
  rw [h] at hreported
  obtain ⟨text, trailing, hsource, htiles, htrailing, hwritten⟩ := hreported
  exact ⟨text, trailing, hsource, htrailing, htiles, hwritten⟩

/--
A list over two lines with a string that goes on after the end of the first one, a list in it, and a comment.
-/
theorem Datum.readAll_lossless_lists :
    let source := "(a \"b\n\" (7)) ; c\n'd'".toList
    let data : List Datum :=
      [.list ⟨"f", 1, 1, 1⟩ [.atom ⟨"f", 1, 2, 1⟩ (.symbol "a"), .atom ⟨"f", 1, 4, 4⟩ (.string "b\n"),
        .list ⟨"f", 2, 3, 3⟩ [.atom ⟨"f", 2, 4, 1⟩ (.integer "7")]],
      .atom ⟨"f", 3, 1, 3⟩ (.character 'd')]
    Datum.readAll "f" source = .ok data ∧
      ∃ text trailing, source = text ++ trailing ∧ Trailing trailing ∧
        Token.Tiles "f" text (Token.scan "f" source).tokens ∧ Datum.Written "f" [] text data :=
  have hread := by rfl
  ⟨hread, Datum.readAll_lossless hread⟩

end LispScript
