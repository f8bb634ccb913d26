import LispScript.Proofs.Continuation
import LispScript.Proofs.Layout
import LispScript.Proofs.Shift
import LispScript.Session.Dialogue
import Mathlib.Data.List.TakeWhile

/-!
This module contains the proof that a program can be typed into a dialogue line by line. An input goes
on as long as it ends too early, so that it ends where the lines before it can be read and all the lines
after it can be read on their own. The inputs together have the forms of the program.
-/

namespace LispScript

/-! The beginning of a text that can be read. -/

theorem Datum.mapM_toExpr_left {first second : List Datum} {forms : List (Expr Literal)}
    (h : (first ++ second).mapM toExpr = .ok forms) : ∃ forms', first.mapM toExpr = .ok forms' := by
  rw [List.mapM_append] at h
  cases hfirst : first.mapM toExpr with
  | ok forms' => exact ⟨forms', rfl⟩
  | error e =>
    rw [hfirst] at h
    cases h

namespace Expr

variable {file : String} {first second : List Char} {forms : List (Expr Literal)}

theorem parse_incomplete (h : parse file (first ++ '\n' :: second) = .ok forms) {e : ReadError}
    (he : parse file first = .error e) : e.isIncomplete := by
  obtain ⟨all, hall, hforms⟩ := parse_eq_ok h
  unfold parse at he
  cases hfirst : Datum.readAll file first with
  | error e' =>
    rw [hfirst] at he
    cases he
    cases hincomplete : e.isIncomplete with
    | true => rfl
    | false =>
      obtain ⟨-, -, -, e', herror, -⟩ := Datum.readAll_foundAt hfirst hincomplete ('\n' :: second)
      rw [herror] at hall
      contradiction
  | ok data =>
    rw [hfirst] at he
    have hwhole := Datum.readAll_append hfirst second
    rw [hall] at hwhole
    obtain ⟨rest, -, rfl⟩ := eq_ok_of_relocated hwhole.symm
    obtain ⟨forms', hforms'⟩ := Datum.mapM_toExpr_left hforms
    cases hforms'.symm.trans he

theorem parse_split (h : parse file (first ++ '\n' :: second) = .ok forms)
    {forms₁ : List (Expr Literal)} (hfirst : parse file first = .ok forms₁) :
    ∃ forms₂, parse file second = .ok forms₂ ∧
      forms = forms₁ ++ forms₂.map (relocate (Location.below (first.count '\n' + 1))) := by
  have hwhole := parse_past hfirst second
  rw [h] at hwhole
  apply eq_ok_of_relocated hwhole.symm

end Expr

/-! Blank texts. -/

theorem Gap.of_blank {text : List Char} (h : ∀ c ∈ text, isBlank c) : Gap text := by
  induction text with
  | nil => apply Gap.nil
  | cons c rest ih =>
    rw [List.forall_mem_cons] at h
    apply Gap.blank h.1 (ih h.2)

theorem Lexer.rests_of_blank (file : String) {text : List Char} (h : ∀ c ∈ text, isBlank c) :
    (text.foldl Lexer.step { file }).Rests [] := by
  have hstart : Lexer.Rests { file } [] := ⟨rfl, rfl, rfl⟩
  apply hstart.gap (Gap.of_blank h)

theorem Expr.parse_blank (file : String) {text : List Char} (h : ∀ c ∈ text, isBlank c) :
    Expr.parse file text = .ok [] := by
  obtain ⟨herror, htokens⟩ := Lexer.Shows.finish (.rests (Lexer.rests_of_blank file h))
  unfold Expr.parse
  rw [Datum.readAll_eq_data]
  unfold Scan.data Lexer.scan
  rw [herror, List.map_eq_nil_iff.1 htokens]
  rfl

namespace Text

variable {t : Text}

theorem blank_chars (h : ∀ g ∈ t, g.isBlank) : ∀ c ∈ t.chars, isBlank c := by
  intro c hc
  obtain ⟨g, hg, rfl⟩ := List.mem_map.1 hc
  cases g with
  | char c => apply h _ hg
  | stray b => cases h _ hg

theorem blank_of_trim (h : t.trim = []) : ∀ c ∈ t.chars, isBlank c := by
  apply blank_chars
  unfold trim at h
  rw [List.reverse_eq_nil_iff, List.dropWhile_eq_nil_iff] at h
  intro g hg
  rw [← List.takeWhile_append_dropWhile (p := Glyph.isBlank) (l := t), List.mem_append] at hg
  rcases hg with hbefore | hafter
  . apply List.mem_takeWhile_imp hbefore
  . apply h g (List.mem_reverse.2 hafter)

theorem dropWhile_eq_trim_append (t : Text) :
    ∃ after, t.dropWhile Glyph.isBlank = t.trim ++ after := by
  obtain ⟨before, hbefore⟩ :=
    List.dropWhile_suffix Glyph.isBlank (l := (t.dropWhile Glyph.isBlank).reverse)
  refine ⟨before.reverse, ?_⟩
  unfold trim
  rw [← List.reverse_append, hbefore, List.reverse_reverse]

theorem colon_of_trim {rest : Text} (h : t.trim = .char ':' :: rest) :
    ∃ before after, t.chars = before ++ ':' :: after ∧ ∀ c ∈ before, isBlank c := by
  obtain ⟨after, hafter⟩ := dropWhile_eq_trim_append t
  rw [h] at hafter
  refine ⟨chars (t.takeWhile Glyph.isBlank), chars (rest ++ after), ?_, ?_⟩
  . have ht : t.takeWhile Glyph.isBlank ++ (.char ':' :: rest ++ after) = t := by
      rw [← hafter, List.takeWhile_append_dropWhile]
    calc t.chars
        = chars (t.takeWhile Glyph.isBlank ++ (.char ':' :: rest ++ after)) := by rw [ht]
      _ = chars (t.takeWhile Glyph.isBlank) ++ ':' :: chars (rest ++ after) := by
        simp [chars, Glyph.toChar]
  . apply blank_chars
    intro g hg
    apply List.mem_takeWhile_imp hg

end Text

/-! Texts that start with a colon. -/

namespace Lexer

variable {l : Lexer} {found : List Lexeme}

theorem Shows.suffix_finish (h : l.Shows found) {rest : List Char}
    (hrest : ∀ c ∈ rest.head?, Word.isEnd c) :
    found <:+ (rest.foldl step l).finish.tokens.map Token.lexeme := by
  cases rest with
  | nil => simp only [List.foldl_nil, h.finish.2, List.suffix_rfl]
  | cons c rest =>
    obtain ⟨l', hl', hstep⟩ := h.step_end (hrest c rfl)
    rw [← hl'.tokens, List.foldl_cons]
    apply List.IsSuffix.map
    have hfirst : l'.tokens <:+ (l.step c).tokens := by
      rw [hstep]
      apply (takeBetween_extends l' c).tokens
    exact hfirst.trans ((foldl_step_extends _ rest).tokens.trans (tokens_suffix_finish _))

theorem Rests.suffix_finish_colon (h : l.Rests found) (after : List Char) :
    ∃ name : String, name.toList.head? = some ':' ∧
      .atom (.symbol name) :: found <:+
        ((':' :: after).foldl step l).finish.tokens.map Token.lexeme := by
  -- The symbol reaches to the next character that ends a word.
  let inner (c : Char) : Bool := !Word.isEnd c
  let word := ':' :: after.takeWhile inner
  have hword : Word.Spells word (.symbol (String.ofList word)) := by
    refine ⟨by simp [word], ?_, by simp [word], rfl⟩
    rw [List.forall_mem_cons]
    refine ⟨rfl, ?_⟩
    intro c hc
    simpa [inner] using List.mem_takeWhile_imp hc
  have hend : ∀ c ∈ (after.dropWhile inner).head?, Word.isEnd c := by
    intro c hc
    have hhead := List.head?_dropWhile_not inner after
    rw [Option.mem_def.1 hc] at hhead
    simpa [inner] using hhead
  have hsplit : ':' :: after = word ++ after.dropWhile inner := by
    rw [List.cons_append, List.takeWhile_append_dropWhile]
  refine ⟨String.ofList word, by simp [word], ?_⟩
  rw [hsplit, List.foldl_append]
  apply (h.word hword).suffix_finish hend

end Lexer

/--
The expression is a symbol that starts with a colon.
-/
def Expr.isColonSymbol : Expr Literal → Bool
  | .node _ (.symbol name) => name.toList.head? == some ':'
  | _ => false

theorem Expr.isColonSymbol_relocate (g : Location → Location) (e : Expr Literal) :
    (e.relocate g).isColonSymbol = e.isColonSymbol := by
  cases e with
  | absent => rfl
  | node location form =>
    cases form with
    | _ => rfl

theorem Expr.not_isColonSymbol_of_relocate {g : Location → Location} {forms : List (Expr Literal)}
    (h : ∀ e ∈ forms.map (relocate g), ¬ e.isColonSymbol) : ∀ e ∈ forms, ¬ e.isColonSymbol := by
  intro e he
  rw [← isColonSymbol_relocate g]
  apply h
  apply List.mem_map_of_mem he

theorem reserved?_colon {name : String} (h : name.toList.head? = some ':') : reserved? name = none := by
  unfold reserved?
  split
  . contradiction
  . contradiction
  . contradiction
  . rfl

theorem Datum.readAll_colon {file : String} {before after : List Char} {data : List Datum}
    (hbefore : ∀ c ∈ before, isBlank c)
    (h : Datum.readAll file (before ++ ':' :: after) = .ok data) :
    ∃ location name rest, data = .atom location (.symbol name) :: rest ∧
      name.toList.head? = some ':' := by
  obtain ⟨name, hname, hfound⟩ := (Lexer.rests_of_blank file hbefore).suffix_finish_colon after
  rw [Datum.readAll_eq_data, List.foldl_append] at h
  generalize (':' :: after).foldl Lexer.step (before.foldl Lexer.step { file }) = l at h hfound
  obtain ⟨-, hdata⟩ := Scan.data_eq_ok h
  unfold Lexer.scan at hdata
  obtain ⟨t, later, ht, htokens⟩ : ∃ t later, t.lexeme = .atom (.symbol name) ∧
      l.finish.tokens.reverse = t :: later := by
    obtain ⟨new, hnew⟩ := hfound
    obtain ⟨later, first, htokens, -, hfirst⟩ := List.map_eq_append_iff.1 hnew.symm
    obtain ⟨t, rest, rfl, ht, hnil⟩ := List.map_eq_cons_iff.1 hfirst
    rw [List.map_eq_nil_iff] at hnil
    refine ⟨t, later.reverse, ht, ?_⟩
    rw [htokens, hnil]
    simp
  rw [htokens, List.foldlM_cons] at hdata
  have hstep : Reader.step {} t = .ok { data := [.atom t.location (.symbol name)] } := by
    unfold Reader.step
    rw [ht]
    rfl
  rw [hstep] at hdata
  obtain ⟨rest, hrest⟩ := Reader.foldlM_step_data_suffix hdata
  dsimp only at hrest
  refine ⟨t.location, name, rest.reverse, ?_, hname⟩
  rw [← List.reverse_reverse data, ← hrest, List.reverse_append]
  rfl

theorem Expr.parse_colon {file : String} {before after : List Char} {forms : List (Expr Literal)}
    (hbefore : ∀ c ∈ before, isBlank c) (h : Expr.parse file (before ++ ':' :: after) = .ok forms) :
    ∃ e ∈ forms, e.isColonSymbol := by
  obtain ⟨data, hdata, hforms⟩ := Expr.parse_eq_ok h
  obtain ⟨location, name, rest, rfl, hname⟩ := Datum.readAll_colon hbefore hdata
  have hfirst : Datum.toExpr (.atom location (.symbol name))
      = .ok (.node (some location) (.symbol name)) := by
    simp only [Datum.toExpr, Atom.toForm, reserved?_colon hname]
    rfl
  rw [List.mapM_cons, hfirst] at hforms
  cases hrest : rest.mapM Datum.toExpr with
  | error e =>
    rw [hrest] at hforms
    cases hforms
  | ok forms' =>
    rw [hrest] at hforms
    cases hforms
    refine ⟨_, List.mem_cons_self, ?_⟩
    simp [isColonSymbol, hname]

/-! Lines. -/

namespace Text

/--
The text that has the given lines.
-/
def ofLines (lines : List Text) : Text :=
  [.char '\n'].intercalate lines

theorem ofLines_splitLines (t : Text) : ofLines t.splitLines = t := by
  apply List.intercalate_splitOn

@[simp]
theorem ofLines_singleton (line : Text) : ofLines [line] = line := by
  apply List.intercalate_singleton

theorem ofLines_cons (line : Text) {rest : List Text} (h : rest ≠ []) :
    ofLines (line :: rest) = line ++ .char '\n' :: ofLines rest := by
  cases rest with
  | nil => contradiction
  | cons next rest =>
    unfold ofLines
    rw [List.intercalate_cons_cons, List.append_assoc, List.singleton_append]

theorem ofLines_append {first second : List Text} (hfirst : first ≠ []) (hsecond : second ≠ []) :
    ofLines (first ++ second) = ofLines first ++ .char '\n' :: ofLines second := by
  induction first with
  | nil => contradiction
  | cons line rest ih =>
    cases rest with
    | nil => rw [List.singleton_append, ofLines_cons line hsecond, ofLines_singleton]
    | cons next rest =>
      rw [List.cons_append, ofLines_cons line (by simp), ih (by simp), ofLines_cons line (by simp),
        List.append_assoc, List.cons_append]

end Text

namespace Dialogue

variable {lines : List Text}

/--
The reading takes an input from the first lines, unless all the lines are not enough for one.
-/
inductive Reading.Covers (lines : List Text) (r : Reading) : Prop where
  | input {used : List Text} (hlines : lines = used ++ r.rest) (hused : used ≠ [])
      (hinput : r.input = some (Text.ofLines used))
      (hfinished : isUnfinished (Text.ofLines used) = false)
  | short (hinput : r.input = none) (hunfinished : isUnfinished (Text.ofLines lines))

theorem extend_ofLines {used : List Text} (h : used = [] ∨ isUnfinished (Text.ofLines used))
    (line : Text) : extend (Text.ofLines used) line = Text.ofLines (used ++ [line]) := by
  rcases h with rfl | h
  . simp [Text.ofLines, extend]
  . have hne : Text.ofLines used ≠ [] := by
      intro hnil
      rw [hnil] at h
      cases h
    have hused : used ≠ [] := by
      rintro rfl
      contradiction
    rw [Text.ofLines_append hused (by simp), extend, if_neg (by simpa using hne),
      Text.ofLines_singleton]

-- The induction is on the lines that are left, so that an input that goes on is the next one's start.
theorem read_covers {used : List Text} (h : used = [] ∨ isUnfinished (Text.ofLines used))
    (hlines : used ++ lines ≠ []) : (read (Text.ofLines used) lines).Covers (used ++ lines) := by
  induction lines generalizing used with
  | nil =>
    rw [List.append_nil] at hlines ⊢
    apply Reading.Covers.short rfl
    simpa [hlines] using h
  | cons line rest ih =>
    unfold read
    rw [extend_ofLines h]
    cases hnext : isUnfinished (Text.ofLines (used ++ [line])) with
    | false => exact .input (by simp [hnext]) (by simp) (by simp [hnext]) hnext
    | true =>
      have hcovers := ih (.inr hnext) (by simp)
      simp only [hnext, if_true]
      rw [List.append_assoc, List.singleton_append] at hcovers
      cases hcovers with
      | input hlines hused hinput hfinished => exact .input hlines hused hinput hfinished
      | short hinput hunfinished => exact .short hinput hunfinished

theorem not_unfinished {input : Text} {forms : List (Expr Literal)}
    (h : Expr.parse Session.fileName input.chars = .ok forms) : isUnfinished input = false := by
  unfold isUnfinished
  split
  . rw [h]
  . rfl

/--
The inputs that a dialogue reads from the lines, one after the other, until no line is left.
-/
inductive Inputs : List Text → List Text → Prop where
  | done : Inputs [] []
  | next {lines inputs : List Text} {input : Text} (hinput : (read [] lines).input = some input)
      (hrest : Inputs (read [] lines).rest inputs) : Inputs lines (input :: inputs)

/--
The forms of inputs that stand below each other.
-/
def stacked : List (Text × List (Expr Literal)) → List (Expr Literal)
  | [] => []
  | (input, forms) :: rest =>
    forms ++ (stacked rest).map (Expr.relocate (Location.below (input.chars.count '\n' + 1)))

theorem not_command {input : Text} {text : List Char} {forms : List (Expr Literal)}
    (hinput : input.chars <+: text) (h : Expr.parse Session.fileName text = .ok forms)
    (hcolon : ∀ e ∈ forms, ¬ e.isColonSymbol) (c : Session.Command) :
    Session.Input.ofText input ≠ .command c := by
  obtain ⟨more, rfl⟩ := hinput
  intro hcommand
  unfold Session.Input.ofText at hcommand
  split at hcommand
  . cases hcommand
  . next rest htrim =>
    obtain ⟨before, after, hchars, hbefore⟩ := Text.colon_of_trim htrim
    rw [hchars, List.append_assoc, List.cons_append] at h
    obtain ⟨e, he, hsymbol⟩ := Expr.parse_colon hbefore h
    apply hcolon e he hsymbol
  . cases hcommand

theorem parse_input {input : Text} {more : List Char} {forms : List (Expr Literal)}
    (h : Expr.parse Session.fileName (input.chars ++ '\n' :: more) = .ok forms)
    (hcommand : ∀ c, Session.Input.ofText input ≠ .command c)
    (hfinished : isUnfinished input = false) :
    ∃ forms', Expr.parse Session.fileName input.chars = .ok forms' := by
  cases hinput : Session.Input.ofText input with
  | command c => apply absurd hinput (hcommand c)
  | blank =>
    refine ⟨[], Expr.parse_blank _ (Text.blank_of_trim ?_)⟩
    unfold Session.Input.ofText at hinput
    split at hinput
    . assumption
    . cases hinput
    . cases hinput
  | source =>
    cases hparse : Expr.parse Session.fileName input.chars with
    | ok forms' => exact ⟨forms', rfl⟩
    | error e =>
      have hincomplete := Expr.parse_incomplete h hparse
      unfold isUnfinished at hfinished
      rw [hinput, hparse] at hfinished
      simp [hincomplete] at hfinished

/--
Each of the inputs is read as the forms next to it, and is no command.
-/
def Sources (parsed : List (Text × List (Expr Literal))) : Prop :=
  ∀ p ∈ parsed, Expr.parse Session.fileName p.1.chars = .ok p.2 ∧
    ∀ c, Session.Input.ofText p.1 ≠ .command c

theorem Sources.nil : Sources [] := by
  intro p hp
  contradiction

theorem Sources.cons {input : Text} {forms : List (Expr Literal)}
    {parsed : List (Text × List (Expr Literal))}
    (h : Expr.parse Session.fileName input.chars = .ok forms)
    (hcommand : ∀ c, Session.Input.ofText input ≠ .command c) (hparsed : Sources parsed) :
    Sources ((input, forms) :: parsed) := by
  unfold Sources
  rw [List.forall_mem_cons]
  exact ⟨⟨h, hcommand⟩, hparsed⟩

-- An input takes at least one line, and the lines after it are a text that can be read as well.
theorem inputs_of_lines {lines : List Text} {forms : List (Expr Literal)} (hne : lines ≠ [])
    (h : Expr.parse Session.fileName (Text.ofLines lines).chars = .ok forms)
    (hcolon : ∀ e ∈ forms, ¬ e.isColonSymbol) :
    ∃ parsed, Inputs lines (parsed.map Prod.fst) ∧ Sources parsed ∧ forms = stacked parsed := by
  induction hlength : lines.length using Nat.strong_induction_on generalizing lines forms with
  | _ n ih =>
    have hcovers : (read [] lines).Covers lines := @read_covers lines [] (.inl rfl) hne
    cases hcovers with
    | short hinput hunfinished =>
      rw [not_unfinished h] at hunfinished
      contradiction
    | @input used hlines hused hinput hfinished =>
      generalize hrest : (read [] lines).rest = rest at hlines
      by_cases hnil : rest = []
      . rw [hnil, List.append_nil] at hlines
        subst hlines
        have hcommand := not_command ⟨[], List.append_nil _⟩ h hcolon
        refine ⟨[(Text.ofLines lines, forms)], .next hinput ?_, .cons h hcommand .nil, ?_⟩
        . rw [hrest, hnil]
          apply Inputs.done
        . simp [stacked]
      . have hchars : (Text.ofLines lines).chars
            = (Text.ofLines used).chars ++ '\n' :: (Text.ofLines rest).chars := by
          rw [hlines, Text.ofLines_append hused hnil]
          simp [Text.chars, Glyph.toChar]
        rw [hchars] at h
        have hcommand := not_command ⟨_, rfl⟩ h hcolon
        obtain ⟨first, hfirst⟩ := parse_input h hcommand hfinished
        obtain ⟨others, hothers, rfl⟩ := Expr.parse_split h hfirst
        have hcolon' := Expr.not_isColonSymbol_of_relocate (List.forall_mem_append.1 hcolon).2
        have hlt : rest.length < n := by
          have hpos := List.length_pos_iff.2 hused
          rw [← hlength, hlines, List.length_append]
          omega
        obtain ⟨parsed, hinputs, hsources, rfl⟩ := ih _ hlt hnil hothers hcolon' rfl
        refine ⟨(Text.ofLines used, first) :: parsed, .next hinput ?_, ?_, rfl⟩
        . rw [hrest]
          apply hinputs
        . apply Sources.cons hfirst hcommand hsources

end Dialogue

theorem inputs_of_parse {file : String} {text : Text} {forms : List (Expr Literal)}
    (h : Expr.parse file text.chars = .ok forms) (hcolon : ∀ e ∈ forms, ¬ e.isColonSymbol) :
    ∃ parsed, Dialogue.Inputs text.splitLines (parsed.map Prod.fst) ∧ Dialogue.Sources parsed ∧
      forms = (Dialogue.stacked parsed).map (Expr.relocate (Location.inFile file)) := by
  have hparse := Expr.parse_inFile file Session.fileName text.chars
  rw [h] at hparse
  obtain ⟨forms', hforms, rfl⟩ := eq_ok_of_relocated hparse.symm
  have hne : text.splitLines ≠ [] := List.splitOn_ne_nil _ _
  rw [← Text.ofLines_splitLines text] at hforms
  obtain ⟨parsed, hinputs, hsources, rfl⟩ :=
    Dialogue.inputs_of_lines hne hforms (Expr.not_isColonSymbol_of_relocate hcolon)
  exact ⟨parsed, hinputs, hsources, rfl⟩

theorem inputs_of_parse_string :
    let text := Text.ofChars ['(', 'f', ' ', '"', '\n', ':', '"', ')', '\n', '\n', 'g']
    let forms : List (Expr Literal) :=
      [.node (some { file := "p", line := 1, column := 1, length := 1 })
        (.call "f" [.node (some { file := "p", line := 1, column := 4, length := 4 })
          (.literal (.string "\n:"))]),
       .node (some { file := "p", line := 4, column := 1, length := 1 }) (.symbol "g")]
    Expr.parse "p" text.chars = .ok forms ∧ (∀ e ∈ forms, ¬ e.isColonSymbol) ∧
      ∃ parsed, Dialogue.Inputs text.splitLines (parsed.map Prod.fst) ∧ Dialogue.Sources parsed ∧
        forms = (Dialogue.stacked parsed).map (Expr.relocate (Location.inFile "p")) := by
  intro text forms
  have h : Expr.parse "p" text.chars = .ok forms := by
    rfl
  have hcolon : ∀ e ∈ forms, ¬ e.isColonSymbol := by
    decide
  exact ⟨h, hcolon, inputs_of_parse h hcolon⟩

end LispScript
