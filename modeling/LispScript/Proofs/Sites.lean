import LispScript.Proofs.Nesting

/-!
This module contains the proof that data are located where they stand: the line and the column of each are
those of the place in the text where its own characters begin.
-/

namespace LispScript

/--
The text begins with the lexeme. Of a quoted literal it is the quote that is looked at.
-/
def Lexeme.Starts : Lexeme → List Char → Prop
  | .opening, text => text.head? = some '('
  | .closing, text => text.head? = some ')'
  | .atom (.integer word), text | .atom (.real word), text | .atom (.symbol word), text =>
    word.toList <+: text
  | .atom (.character _), text => text.head? = some '\''
  | .atom (.string _), text => text.head? = some '"'

/--
The lexeme stands in the text, and the location says where: lines are counted from one, and so are the
characters of a line.
-/
def Lexeme.StandsAt (lexeme : Lexeme) (text : List Char) (l : Location) : Prop :=
  ∃ before rest, text = before ++ rest ∧ lexeme.Starts rest ∧
    l.line = 1 + before.count '\n' ∧
    l.column = 1 + (before.reverse.takeWhile (· != '\n')).length

theorem Lexeme.Starts.append {lexeme : Lexeme} {text : List Char} (h : lexeme.Starts text)
    (more : List Char) : lexeme.Starts (text ++ more) := by
  have hhead {c : Char} (hc : text.head? = some c) : (text ++ more).head? = some c := by
    rw [List.head?_append, hc]
    rfl
  have hword {word : List Char} (hstarts : word <+: text) : word <+: text ++ more :=
    hstarts.trans (List.prefix_append text more)
  unfold Starts at h ⊢
  split at h
  . exact hhead h
  . exact hhead h
  . exact hword h
  . exact hword h
  . exact hword h
  . exact hhead h
  . exact hhead h

theorem Lexeme.StandsAt.append {lexeme : Lexeme} {text : List Char} {l : Location}
    (h : lexeme.StandsAt text l) (more : List Char) : lexeme.StandsAt (text ++ more) l := by
  obtain ⟨before, rest, rfl, hstarts, hplace⟩ := h
  refine ⟨before, rest ++ more, ?_, hstarts.append more, hplace⟩
  rw [List.append_assoc]

theorem starts_of_classify {word : List Char} {a : Atom} (h : Word.classify word = .ok a) :
    (Lexeme.atom a).Starts word := by
  obtain rfl | rfl | ⟨rfl, _⟩ := Word.classify_cases h
  all_goals simp [Lexeme.Starts]

theorem Lexeme.Written.starts {lexeme : Lexeme} {text : List Char} (h : lexeme.Written text) :
    lexeme.Starts text := by
  cases h with
  | opening => rfl
  | closing => rfl
  | word h => exact starts_of_classify h.atom
  | string h =>
    rw [Lexeme.Starts, List.head?_append, h.head?]
    rfl
  | character h =>
    rw [Lexeme.Starts, List.head?_append, h.head?]
    rfl

/-! Data. -/

/--
The datum stands in the text where its location says, and so do those in it.
-/
inductive Datum.Sited (text : List Char) : Datum → Prop where
  | atom {location : Location} {a : Atom} (h : (Lexeme.atom a).StandsAt text location) :
      Sited text (.atom location a)
  | list {location : Location} {items : List Datum} (here : Lexeme.opening.StandsAt text location)
      (h : ∀ d ∈ items, Sited text d) : Sited text (.list location items)

theorem Datum.Sited.append {text : List Char} {d : Datum} (h : d.Sited text) (more : List Char) :
    d.Sited (text ++ more) := by
  induction h with
  | atom h => exact .atom (h.append more)
  | list here _ ih => exact .list (here.append more) ih

theorem Datum.Written.sited {file : String} {before text : List Char} {ds : List Datum}
    (h : Datum.Written file before text ds) : ∀ d ∈ ds, d.Sited (before ++ text) := by
  have hlast {before text gap span : List Char} {ds : List Datum} {d : Datum}
      (h : ∀ d ∈ ds, d.Sited (before ++ text)) (hd : d.Sited (before ++ text ++ gap ++ span)) :
      ∀ d' ∈ ds ++ [d], d'.Sited (before ++ (text ++ (gap ++ span))) := by
    intro d' hd'
    rw [List.mem_append, List.mem_singleton] at hd'
    simp only [← List.append_assoc]
    obtain hd' | rfl := hd'
    . exact ((h d' hd').append gap).append span
    . exact hd
  induction h with
  | nil => nofun
  | atom _ _ hspan ih => exact hlast ih (.atom ⟨_, _, rfl, hspan.starts, rfl, rfl⟩)
  | list _ _ _ _ hspan ih ihitems =>
    refine hlast ih (.list ⟨_, _, rfl, ?_, rfl, rfl⟩ ?_)
    . rw [hspan]
      rfl
    . intro d hd
      rw [hspan]
      simpa only [List.append_assoc] using ((ihitems d hd).append _).append _

theorem Datum.readAll_sited {file : String} {source : List Char} {data : List Datum}
    (h : Datum.readAll file source = .ok data) : ∀ d ∈ data, d.Sited source := by
  have hreported := Datum.readAll_reported file source
  rw [h] at hreported
  obtain ⟨text, rest, rfl, _, _, hwritten⟩ := hreported
  intro d hd
  exact (hwritten.sited d hd).append rest

end LispScript
