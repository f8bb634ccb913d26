import Mathlib.Data.List.Induction
import LispScript.Proofs.Scanning
import LispScript.Proofs.Spelling

/-!
This module contains the proof that the tokens of a text lie in it one after the other like tiles. Each token
is located where its span begins and is as long as its span, and what is left between the spans is white space
and comments. This holds up to the place where a text cannot be read any more, and there the error is located
at a stretch of the text, too.
-/

namespace LispScript

/-! Marks. -/

/--
The place after a text.
-/
def Mark.following (text : List Char) : Mark :=
  text.foldl Mark.after {}

theorem Mark.following_concat (text : List Char) (c : Char) :
    following (text ++ [c]) = (following text).after c := by
  unfold following
  rw [List.foldl_append]
  rfl

theorem Mark.following_offset (text : List Char) : (following text).offset = text.length := by
  unfold following
  rw [foldl_after_offset, Nat.zero_add]

theorem Mark.following_line (text : List Char) : (following text).line = 1 + text.count '\n' :=
  foldl_after_line {} text

theorem Mark.following_column (text : List Char) :
    (following text).column = 1 + (text.reverse.takeWhile (· != '\n')).length := by
  induction text using List.reverseRecOn with
  | nil => rfl
  | append_singleton text c ih =>
    rw [following_concat, List.reverse_append]
    unfold after
    by_cases hc : c = '\n'
    . simp [hc]
    . simp [hc, ih]
      omega

/-! Locations. -/

namespace Location

/--
The location of `length` characters after the text `before`: lines are counted from one, and so are the
characters of a line.
-/
def after (file : String) (before : List Char) (length : Nat) : Location where
  file
  line := 1 + before.count '\n'
  column := 1 + (before.reverse.takeWhile (· != '\n')).length
  length

/--
The location is that of a stretch of the text. Only a quoted literal goes on after the end of a line.
-/
def IsStretch (file : String) (text : List Char) (l : Location) : Prop :=
  ∃ before span rest, text = before ++ span ++ rest ∧ span ≠ [] ∧ l = after file before span.length ∧
    ('\n' ∈ span → ∃ mark : QuoteMark, span.head? = some mark.char)

theorem IsStretch.append {file : String} {text : List Char} {l : Location} (h : l.IsStretch file text)
    (more : List Char) : l.IsStretch file (text ++ more) := by
  obtain ⟨before, span, rest, rfl, hspan⟩ := h
  exact ⟨before, span, rest ++ more, by simp only [List.append_assoc], hspan⟩

end Location

theorem Lexer.locate_following (l : Lexer) (before : List Char) (length : Nat) :
    l.locate (.following before) length = .after l.file before length := by
  unfold Lexer.locate Location.after
  rw [Mark.following_line, Mark.following_column]
  rfl

theorem Lexer.locate_between (l : Lexer) (before span : List Char) :
    l.locate (.following before) ((Mark.following (before ++ span)).offset - (Mark.following before).offset)
      = .after l.file before span.length := by
  rw [locate_following, Mark.following_offset, Mark.following_offset, List.length_append,
    Nat.add_sub_cancel_left]

/-! Tiles. -/

theorem Gap.append {text more : List Char} (h : Gap text) (hmore : Gap more) : Gap (text ++ more) := by
  induction h with
  | nil => exact hmore
  | blank hc _ ih => exact .blank hc ih
  | @comment body rest hbody _ ih =>
    have happend : ';' :: body ++ '\n' :: rest ++ more = ';' :: body ++ '\n' :: (rest ++ more) := by simp
    rw [happend]
    exact .comment hbody ih

/--
White space and comments at the end of a text. The last comment need not end.
-/
inductive Trailing : List Char → Prop where
  | gap {gap : List Char} (h : Gap gap) : Trailing gap
  | comment {gap body : List Char} (h : Gap gap) (hbody : '\n' ∉ body) : Trailing (gap ++ ';' :: body)

namespace Token

/--
The token stands in the span after the text `before`. There it is located, and it is what the span is read as.
-/
structure Covers (t : Token) (file : String) (before span : List Char) : Prop where
  location : t.location = .after file before span.length
  written : t.lexeme.Written span
  alone : t.lexeme.ReadFrom span

/--
The text ends with the last of the tokens, and is made up of their spans with gaps before them.
-/
inductive Tiles (file : String) : List Char → List Token → Prop where
  | nil : Tiles file [] []
  | concat {text gap span : List Char} {ts : List Token} {t : Token} (h : Tiles file text ts)
      (hgap : Gap gap) (ht : t.Covers file (text ++ gap) span) :
      Tiles file (text ++ gap ++ span) (ts ++ [t])

end Token

/-! Characters. -/

/--
What the lexer is in the middle of stands in the text `rest`, which follows the last token that has been
found. Here `text` ends with this token.
-/
inductive Mode.Follows (text : List Char) : (rest : List Char) → Mode → Prop where
  | between {gap : List Char} (h : Gap gap) : Follows text gap .between
  | comment {gap body : List Char} (h : Gap gap) (hbody : '\n' ∉ body) :
      Follows text (gap ++ ';' :: body) .comment
  | word {gap read : List Char} (h : Gap gap) (hread : Word.Begun read) :
      Follows text (gap ++ read.reverse) (.word (.following (text ++ gap)) read)
  | literal {gap span read : List Char} {mark : QuoteMark} {escaped : Bool} (h : Gap gap)
      (hspan : mark.Opens span read escaped) :
      Follows text (gap ++ span) (.literal mark (.following (text ++ gap)) read escaped)

theorem Word.Begun.newline_not_mem {read : List Char} (h : Begun read) : '\n' ∉ read :=
  fun hnewline => absurd (h.inner '\n' hnewline) (by decide)

namespace Lexer

/--
What a lexer that has taken the characters `done` has found in them.
-/
structure Finds (l : Lexer) (done : List Char) : Prop where
  tiles : ∃ text rest, done = text ++ rest ∧ Token.Tiles l.file text l.tokens.reverse ∧
    (l.error = none → l.mode.Follows text rest)
  error : ∀ e, l.error = some e → ∃ location, e.location = some location ∧ location.IsStretch l.file done

structure Tracks (l : Lexer) (done : List Char) : Prop extends l.Finds done where
  place : l.error = none → l.place = .following done

variable {l : Lexer} {text gap span : List Char}

theorem follows_finds (h : Token.Tiles l.file text l.tokens.reverse) (herror : l.error = none) (place : Mark)
    {mode : Mode} {rest : List Char} (hmode : mode.Follows text rest) :
    Finds { l with place, mode } (text ++ rest) where
  tiles := ⟨text, rest, rfl, h, fun _ => hmode⟩
  error := by
    rw [herror]
    nofun

theorem Finds.append {done : List Char} (h : l.Finds done) (herror : l.error.isSome) (more : List Char) :
    l.Finds (done ++ more) where
  tiles := by
    obtain ⟨text, rest, rfl, htiles, _⟩ := h.tiles
    refine ⟨text, rest ++ more, by rw [List.append_assoc], htiles, ?_⟩
    intro hok
    rw [hok] at herror
    contradiction
  error := by
    intro e he
    obtain ⟨location, hlocation, hstretch⟩ := h.error e he
    exact ⟨location, hlocation, hstretch.append more⟩

theorem emit_tiles (h : Token.Tiles l.file text l.tokens.reverse) (hgap : Gap gap) {lexeme : Lexeme}
    (hwritten : lexeme.Written span) :
    Token.Tiles l.file (text ++ gap ++ span)
      (l.emit (.following (text ++ gap)) (.following (text ++ gap ++ span)) lexeme).tokens.reverse := by
  unfold emit
  rw [List.reverse_cons]
  exact h.concat hgap ⟨l.locate_between _ _, hwritten, hwritten.readFrom⟩

theorem emit_finds (h : Token.Tiles l.file text l.tokens.reverse) (herror : l.error = none) (hgap : Gap gap)
    {lexeme : Lexeme} (hwritten : lexeme.Written span) :
    (l.emit (.following (text ++ gap)) (.following (text ++ gap ++ span)) lexeme).Finds
      (text ++ (gap ++ span)) where
  tiles := ⟨text ++ gap ++ span, [], by simp, emit_tiles h hgap hwritten, fun _ => .between .nil⟩
  error := by
    show ∀ e, l.error = some e → _
    rw [herror]
    nofun

theorem error_finds (h : Token.Tiles l.file text l.tokens.reverse) {e : ReadError} {location : Location}
    {rest : List Char} (hlocation : e.location = some location)
    (hstretch : location.IsStretch l.file (text ++ rest)) :
    Finds { l with error := some e } (text ++ rest) where
  tiles := ⟨text, rest, rfl, h, nofun⟩
  error := by
    rintro _ ⟨⟩
    exact ⟨location, hlocation, hstretch⟩

theorem fail_finds (h : Token.Tiles l.file text l.tokens.reverse) (hspan : span ≠ [])
    (hquoted : '\n' ∈ span → ∃ mark : QuoteMark, span.head? = some mark.char) (fault : ReadFault) :
    (l.fail (.following (text ++ gap)) (.following (text ++ gap ++ span)) fault).Finds
      (text ++ (gap ++ span)) := by
  apply error_finds h rfl
  rw [locate_between]
  exact ⟨text ++ gap, span, [], by simp only [List.append_assoc, List.append_nil], hspan, rfl, hquoted⟩

theorem failAtQuote_finds (h : Token.Tiles l.file text l.tokens.reverse) {mark : QuoteMark}
    (hspan : span.head? = some mark.char) (fault : ReadFault) :
    (l.failAtQuote (.following (text ++ gap)) fault).Finds (text ++ (gap ++ span)) := by
  apply error_finds h rfl
  rw [locate_following]
  obtain ⟨rest, rfl⟩ : ∃ rest, span = mark.char :: rest := by
    cases span with
    | nil => contradiction
    | cons c rest =>
      injection hspan with hc
      exact ⟨rest, by rw [hc]⟩
  refine ⟨text ++ gap, [mark.char], rest, by simp, by simp, rfl, ?_⟩
  exact fun _ => ⟨mark, rfl⟩

theorem endWord_place (start : Mark) (read : List Char) : (l.endWord start read).place = l.place := by
  unfold endWord
  split <;> rfl

theorem endWord_mode {start : Mark} {read : List Char} (hok : (l.endWord start read).error = none) :
    (l.endWord start read).mode = .between := by
  unfold endWord at hok ⊢
  split
  . rfl
  . next hfault =>
    rw [hfault] at hok
    contradiction

theorem endWord_finds (h : Token.Tiles l.file text l.tokens.reverse) (herror : l.error = none)
    (hgap : Gap gap) {read : List Char} (hread : Word.Begun read)
    (hplace : l.place = .following (text ++ (gap ++ read.reverse))) :
    (l.endWord (.following (text ++ gap)) read).Finds (text ++ (gap ++ read.reverse)) := by
  rw [← List.append_assoc] at hplace
  unfold endWord
  rw [hplace]
  split
  . next a ha => exact emit_finds h herror hgap (.word (hread.spells ha))
  . apply fail_finds h
    . simpa using hread.nonempty
    . intro hnewline
      exact absurd (List.mem_reverse.1 hnewline) hread.newline_not_mem

theorem endLiteral_finds (h : Token.Tiles l.file text l.tokens.reverse) (herror : l.error = none)
    (hgap : Gap gap) {mark : QuoteMark} {read : List Char} (hspan : mark.Opens span read false) :
    (l.endLiteral mark (.following (text ++ gap)) (.following (text ++ gap ++ (span ++ [mark.char])))
      read).Finds (text ++ (gap ++ (span ++ [mark.char]))) := by
  unfold endLiteral
  split
  . exact emit_finds h herror hgap (.string hspan)
  . exact emit_finds h herror hgap (.character hspan)
  . apply fail_finds h
    . simp
    . intro _
      exact ⟨.single, by rw [List.head?_append, hspan.head?, Option.some_or]⟩

theorem takeBetween_finds (h : Token.Tiles l.file text l.tokens.reverse) (herror : l.error = none)
    (hgap : Gap gap) (hmode : l.mode = .between) (hplace : l.place = .following (text ++ gap)) (c : Char) :
    (l.takeBetween c).Finds (text ++ (gap ++ [c])) := by
  unfold takeBetween
  rw [hplace, ← Mark.following_concat]
  split
  . next hc =>
    have hfollows : l.mode.Follows text (gap ++ [c]) := by
      rw [hmode]
      exact .between (hgap.append (.blank hc .nil))
    exact follows_finds h herror l.place hfollows
  . split
    . next hc =>
      rw [hc]
      exact follows_finds h herror _ (.comment hgap List.not_mem_nil)
    . split
      . next hc =>
        rw [hc]
        exact emit_finds h herror hgap .opening
      . split
        . next hc =>
          rw [hc]
          exact emit_finds h herror hgap .closing
        . split
          . next hc =>
            rw [hc]
            exact follows_finds h herror _ (.literal hgap (@QuoteMark.Opens.start .double))
          . split
            . next hc =>
              rw [hc]
              exact follows_finds h herror _ (.literal hgap (@QuoteMark.Opens.start .single))
            . have hread : Word.Begun [c] := by
                constructor <;> simp_all [Word.isEnd]
              exact follows_finds h herror _ (.word hgap hread)

theorem takeLiteral_finds (h : Token.Tiles l.file text l.tokens.reverse) (herror : l.error = none)
    (hgap : Gap gap) {mark : QuoteMark} {read : List Char} {escaped : Bool}
    (hspan : mark.Opens span read escaped) (hplace : l.place = .following (text ++ (gap ++ span)))
    (c : Char) :
    (l.takeLiteral mark (.following (text ++ gap)) read escaped c).Finds (text ++ (gap ++ (span ++ [c]))) := by
  unfold takeLiteral
  split
  . next hescaped =>
    rw [hescaped] at hspan
    split
    . next d hd => exact follows_finds h herror _ (.literal hgap (hspan.escape hd))
    . apply failAtQuote_finds h
      rw [List.head?_append, hspan.head?, Option.some_or]
  . next hescaped =>
    rw [Bool.not_eq_true] at hescaped
    rw [hescaped] at hspan
    split
    . next hc =>
      have hstop : l.place.after c = .following (text ++ gap ++ (span ++ [mark.char])) := by
        rw [hplace, ← Mark.following_concat, hc]
        simp only [List.append_assoc]
      rw [hstop, hc]
      exact endLiteral_finds h herror hgap hspan
    . next hmark =>
      split
      . next hc =>
        rw [hc]
        exact follows_finds h herror _ (.literal hgap hspan.backslash)
      . next hc => exact follows_finds h herror _ (.literal hgap (hspan.plain hmark hc))

theorem Tracks.take (h : l.Tracks text) (herror : l.error = none) (c : Char) :
    (l.take c).Finds (text ++ [c]) := by
  obtain ⟨done, rest, rfl, htiles, hmode⟩ := h.tiles
  have hplace := h.place herror
  have hfollows := hmode herror
  rw [List.append_assoc]
  generalize hm : l.mode = mode at hfollows
  unfold Lexer.take
  rw [hm]
  cases hfollows with
  | between hgap => exact takeBetween_finds htiles herror hgap hm hplace c
  | @comment gap body hgap hbody =>
    dsimp only
    split
    . next hc =>
      have hends : Gap (gap ++ ';' :: body ++ [c]) := by
        rw [hc, List.append_assoc]
        exact hgap.append (.comment hbody .nil)
      exact follows_finds htiles herror _ (.between hends)
    . next hc =>
      have hgoes : l.mode.Follows done (gap ++ ';' :: body ++ [c]) := by
        rw [hm, List.append_assoc]
        have hbody' : '\n' ∉ body ++ [c] := by simp [hbody, Ne.symm hc]
        exact .comment hgap hbody'
      exact follows_finds htiles herror l.place hgoes
  | @word gap read hgap hread =>
    dsimp only
    split
    . have hword := endWord_finds htiles herror hgap hread hplace
      split
      . next hfailed =>
        rw [← List.append_assoc]
        exact hword.append hfailed [c]
      . next hok =>
        -- The word has ended, and the character is taken as if there had been none.
        rw [Bool.not_eq_true, Option.isSome_eq_false_iff, Option.isNone_iff_eq_none] at hok
        obtain ⟨text', rest', heq, htiles', hfollows'⟩ := hword.tiles
        have hmode' := endWord_mode hok
        have hgap' := hfollows' hok
        rw [hmode'] at hgap'
        obtain ⟨hgap'⟩ := hgap'
        rw [← List.append_assoc, heq, List.append_assoc]
        apply takeBetween_finds htiles' hok hgap' hmode'
        rw [endWord_place, hplace, heq]
    . next hc =>
      rw [List.append_assoc, ← List.reverse_cons]
      exact follows_finds htiles herror _ (.word hgap (hread.cons (by simpa using hc)))
  | literal hgap hspan =>
    rw [List.append_assoc]
    exact takeLiteral_finds htiles herror hgap hspan hplace c

theorem Tracks.step (h : l.Tracks text) (c : Char) : (l.step c).Tracks (text ++ [c]) := by
  unfold Lexer.step
  split
  . next herror =>
    refine ⟨h.toFinds.append herror [c], ?_⟩
    intro hok
    rw [hok] at herror
    contradiction
  . next hok =>
    rw [Bool.not_eq_true, Option.isSome_eq_false_iff, Option.isNone_iff_eq_none] at hok
    have htaken := h.take hok c
    refine ⟨⟨htaken.tiles, htaken.error⟩, ?_⟩
    intro _
    rw [Mark.following_concat, ← h.place hok]

theorem Tracks.foldl {done : List Char} (h : l.Tracks done) (text : List Char) :
    (text.foldl Lexer.step l).Tracks (done ++ text) := by
  induction text generalizing l done with
  | nil => rwa [List.append_nil]
  | cons c rest ih =>
    have hrest := ih (h.step c)
    rwa [List.append_assoc] at hrest

theorem Tracks.finish (h : l.Tracks text) :
    l.finish.Finds text ∧ (l.finish.error = none → l.finish.mode = .between ∨ l.finish.mode = .comment) := by
  unfold Lexer.finish
  split
  . next herror =>
    refine ⟨h.toFinds, ?_⟩
    intro hok
    rw [hok] at herror
    contradiction
  . next hok =>
    rw [Bool.not_eq_true, Option.isSome_eq_false_iff, Option.isNone_iff_eq_none] at hok
    obtain ⟨done, rest, rfl, htiles, hmode⟩ := h.tiles
    have hplace := h.place hok
    have hfollows := hmode hok
    generalize hm : l.mode = mode at hfollows
    cases hfollows with
    | between hgap => exact ⟨h.toFinds, fun _ => .inl hm⟩
    | comment hgap hbody => exact ⟨h.toFinds, fun _ => .inr hm⟩
    | word hgap hread =>
      exact ⟨endWord_finds htiles hok hgap hread hplace, fun hok' => .inl (endWord_mode hok')⟩
    | literal hgap hspan => exact ⟨failAtQuote_finds htiles hspan.head? _, nofun⟩

end Lexer

theorem Mode.Follows.trailing {text rest : List Char} {mode : Mode} (h : mode.Follows text rest)
    (hmode : mode = .between ∨ mode = .comment) : Trailing rest := by
  cases h with
  | between hgap => exact .gap hgap
  | comment hgap hbody => exact .comment hgap hbody
  | word => simp at hmode
  | literal => simp at hmode

/--
The tokens make up the text, up to its end if there is no error. An error is located in the text.
-/
structure Scan.Tiled (scan : Scan) (file : String) (source : List Char) : Prop where
  tiles : ∃ text rest, source = text ++ rest ∧ Token.Tiles file text scan.tokens ∧
    (scan.error = none → Trailing rest)
  error : ∀ e, scan.error = some e → ∃ location, e.location = some location ∧ location.IsStretch file source

theorem Token.scan_tiled (file : String) (source : List Char) :
    (Token.scan file source).Tiled file source := by
  have hstart : Lexer.Tracks { file } [] := by
    refine ⟨⟨⟨[], [], rfl, .nil, fun _ => .between .nil⟩, nofun⟩, ?_⟩
    intro _
    rfl
  have hread := hstart.foldl source
  have hfile : (source.foldl Lexer.step { file }).finish.file = file := by
    rw [Lexer.finish_file, (Lexer.foldl_step_extends _ source).file]
  obtain ⟨hfinds, hmode⟩ := hread.finish
  constructor
  . obtain ⟨text, rest, hsource, htiles, hfollows⟩ := hfinds.tiles
    rw [hfile] at htiles
    exact ⟨text, rest, hsource, htiles, fun hok => (hfollows hok).trailing (hmode hok)⟩
  . intro e he
    obtain ⟨location, hlocation, hstretch⟩ := hfinds.error e he
    rw [hfile] at hstretch
    exact ⟨location, hlocation, hstretch⟩

end LispScript
