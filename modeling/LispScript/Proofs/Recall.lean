import LispScript.Proofs.LineBreaks
import LispScript.Session.History

/-!
This module contains the conditions under which a program is still the same program after it has been put
into the history, where it stands on one line. `Recallable` says what line breaks must not do: stand in a
literal, and end a comment after which there is more to read. This is all that is needed, and nothing less
will do, since a form cannot make up for a space in a literal or for tokens that are missing.
-/

namespace LispScript

/-! Locations do not matter to reading. -/

/--
A datum without its locations.
-/
def Datum.bare (d : Datum) : Datum :=
  d.relocate fun _ => default

/--
A tree without its locations.
-/
def Expr.bare {α : Type} (e : Expr α) : Expr α :=
  e.relocate fun _ => default

/--
The readers have read the same, but for locations.
-/
structure Reader.Same (r r' : Reader) : Prop where
  outer : r.outer.map (·.items.map Datum.bare) = r'.outer.map (·.items.map Datum.bare)
  data : r.data.map Datum.bare = r'.data.map Datum.bare

namespace Reader.Same

variable {r r' s : Reader}

theorem add (h : r.Same r') {d d' : Datum} (hd : d.bare = d'.bare) : (r.add d).Same (r'.add d') := by
  have houter := h.outer
  unfold Reader.add
  cases hr : r.outer with
  | nil =>
    rw [hr, List.map_nil, eq_comm, List.map_eq_nil_iff] at houter
    rw [houter]
    refine ⟨by simp, ?_⟩
    rw [List.map_cons, List.map_cons, hd, h.data]
  | cons o outer =>
    rw [hr, List.map_cons, eq_comm, List.map_eq_cons_iff] at houter
    obtain ⟨o', outer', hr', ho, houter⟩ := houter
    rw [hr']
    refine ⟨?_, h.data⟩
    dsimp only
    rw [List.map_cons, List.map_cons, List.map_cons, List.map_cons, hd, ho, houter]

theorem close {o o' : OpenList} (h : o.items.map Datum.bare = o'.items.map Datum.bare)
    (closing closing' : Location) : (o.close closing).bare = (o'.close closing').bare := by
  simp only [OpenList.close, Datum.bare, Datum.relocate, Datum.relocateAll_eq_map, List.map_reverse]
  congr 2

theorem step (h : r.Same r') {t t' : Token} (ht : t.lexeme = t'.lexeme) (hs : r.step t = .ok s) :
    ∃ s', r'.step t' = .ok s' ∧ s.Same s' := by
  have houter := h.outer
  unfold Reader.step at hs ⊢
  rw [← ht]
  split at hs
  . cases hs
    exact ⟨_, rfl, h.add rfl⟩
  . cases hs
    refine ⟨_, rfl, ?_, h.data⟩
    rw [List.map_cons, List.map_cons, houter]
  . split at hs
    . cases hs
    . next o outer hr =>
      cases hs
      rw [hr, List.map_cons, eq_comm, List.map_eq_cons_iff] at houter
      obtain ⟨o', outer', hr', ho, houter⟩ := houter
      rw [hr']
      have hrest : Same { r with outer } { r' with outer := outer' } := ⟨houter.symm, h.data⟩
      exact ⟨_, rfl, hrest.add (close ho.symm _ _)⟩

theorem foldlM {tokens tokens' : List Token} (h : r.Same r')
    (htokens : tokens.map Token.lexeme = tokens'.map Token.lexeme)
    (hs : tokens.foldlM Reader.step r = .ok s) :
    ∃ s', tokens'.foldlM Reader.step r' = .ok s' ∧ s.Same s' := by
  induction tokens generalizing tokens' r r' with
  | nil =>
    rw [List.map_nil, eq_comm, List.map_eq_nil_iff] at htokens
    cases hs
    exact ⟨r', by rw [htokens]; rfl, h⟩
  | cons t rest ih =>
    rw [List.map_cons, eq_comm, List.map_eq_cons_iff] at htokens
    obtain ⟨t', rest', rfl, ht, hrest⟩ := htokens
    rw [List.foldlM_cons] at hs
    cases hstep : r.step t with
    | error e =>
      rw [hstep] at hs
      cases hs
    | ok r₁ =>
      rw [hstep] at hs
      obtain ⟨r₁', hstep', hsame⟩ := h.step ht.symm hstep
      rw [List.foldlM_cons, hstep']
      apply ih hsame hrest.symm hs

end Reader.Same

/--
What the same lexemes stand for is the same, but for locations.
-/
theorem Scan.data_same {scan scan' : Scan} {data : List Datum} (h : scan.data = .ok data)
    (hlexemes : scan.tokens.map Token.lexeme = scan'.tokens.map Token.lexeme)
    (herror : scan'.error = none) :
    ∃ data', scan'.data = .ok data' ∧ data.map Datum.bare = data'.map Datum.bare := by
  obtain ⟨_, hread⟩ := data_eq_ok h
  obtain ⟨r', hread', hsame⟩ := Reader.Same.foldlM ⟨rfl, rfl⟩ hlexemes hread
  have houter : r'.outer = [] := by
    simpa using hsame.outer.symm
  refine ⟨r'.data.reverse, ?_, ?_⟩
  . unfold Scan.data
    rw [hread', herror]
    simp [bind, Except.bind, Reader.finish, houter]
  . rw [List.map_reverse, ← hsame.data, List.map_reverse, List.reverse_reverse]

theorem Datum.forms_same {data data' : List Datum} {forms : List (Expr Literal)}
    (h : data.mapM toExpr = .ok forms) (hsame : data.map bare = data'.map bare) :
    ∃ forms', data'.mapM toExpr = .ok forms' ∧ forms'.map Expr.bare = forms.map Expr.bare := by
  have hbare : ∀ ds : List Datum, (ds.map bare).mapM toExpr
      = relocated (fun _ => default) (List.map Expr.bare) (ds.mapM toExpr) :=
    fun ds => mapM_relocated fun d _ => toExpr_relocate d
  have hforms := hbare data
  rw [hsame, hbare data', h] at hforms
  obtain ⟨forms', hforms', hsame'⟩ := eq_ok_of_relocated hforms
  exact ⟨forms', hforms', hsame'.symm⟩

theorem Datum.readAll_same {file : String} {text text' : List Char} {data : List Datum}
    (h : readAll file text = .ok data)
    (hlexemes : (text.foldl Lexer.step { file }).finish.tokens.map Token.lexeme
      = (text'.foldl Lexer.step { file }).finish.tokens.map Token.lexeme)
    (herror : (text'.foldl Lexer.step { file }).finish.error = none) :
    ∃ data', readAll file text' = .ok data' ∧ data.map bare = data'.map bare := by
  rw [readAll_eq_data] at h ⊢
  apply Scan.data_same h _ herror
  unfold Lexer.scan
  rw [List.map_reverse, List.map_reverse, hlexemes]

theorem Expr.parse_same {file : String} {text text' : List Char} {forms : List (Expr Literal)}
    (h : parse file text = .ok forms)
    (hlexemes : (text.foldl Lexer.step { file }).finish.tokens.map Token.lexeme
      = (text'.foldl Lexer.step { file }).finish.tokens.map Token.lexeme)
    (herror : (text'.foldl Lexer.step { file }).finish.error = none) :
    ∃ forms', parse file text' = .ok forms' ∧ forms'.map bare = forms.map bare := by
  obtain ⟨data, hdata, hforms⟩ := parse_eq_ok h
  obtain ⟨data', hdata', hsame⟩ := Datum.readAll_same hdata hlexemes herror
  obtain ⟨forms', hforms', hsame'⟩ := Datum.forms_same hforms hsame
  refine ⟨forms', ?_, hsame'⟩
  rw [Expr.parse, hdata']
  apply hforms'

/-! What is read once there are tokens. -/

theorem Reader.step_ne {r r' : Reader} {t : Token} (h : r.step t = .ok r') :
    r'.outer ≠ [] ∨ r'.data ≠ [] := by
  have hadd : ∀ (r : Reader) (d : Datum), (r.add d).outer ≠ [] ∨ (r.add d).data ≠ [] := by
    intro r d
    unfold Reader.add
    split <;> simp
  unfold Reader.step at h
  split at h
  . cases h
    apply hadd
  . cases h
    simp
  . split at h
    . cases h
    . cases h
      apply hadd

theorem Scan.tokens_of_data_nil {scan : Scan} (h : scan.data = .ok []) : scan.tokens = [] := by
  obtain ⟨_, hread⟩ := data_eq_ok h
  rcases List.eq_nil_or_concat scan.tokens with hnil | ⟨before, t, htokens⟩
  . apply hnil
  . rw [htokens, List.concat_eq_append, List.foldlM_append] at hread
    cases hbefore : before.foldlM Reader.step {} with
    | error e =>
      rw [hbefore] at hread
      cases hread
    | ok r =>
      rw [hbefore] at hread
      cases hstep : r.step t with
      | error e => simp [hstep, bind, Except.bind] at hread
      | ok r' =>
        have hlast : r' = {} := by
          simpa [hstep, bind, Except.bind, pure, Except.pure] using hread
        subst hlast
        rcases Reader.step_ne hstep with h | h
        . contradiction
        . contradiction

namespace Lexer

variable {l : Lexer}

theorem step_literal {c : Char} (h : l.mode.isLiteral) (hok : (l.step c).error = none) :
    ((l.step c).mode.isLiteral ∧ (l.step c).tokens = l.tokens) ∨
      ∃ t, (l.step c).tokens = t :: l.tokens := by
  have hok' : ([c].foldl step l).error = none := hok
  have herror : l.error = none := error_of_foldl_step hok'
  rw [step_of_ok herror] at hok ⊢
  unfold take at hok ⊢
  cases hmode : l.mode with
  | literal mark start read escaped =>
    rw [hmode] at hok
    dsimp only at hok ⊢
    unfold takeLiteral at hok ⊢
    split
    . split
      . exact .inl ⟨rfl, rfl⟩
      . simp_all [failAtQuote]
    . split
      . unfold endLiteral
        split
        . exact .inr ⟨_, rfl⟩
        . exact .inr ⟨_, rfl⟩
        . simp_all [endLiteral, fail]
      . split
        . exact .inl ⟨rfl, rfl⟩
        . exact .inl ⟨rfl, rfl⟩
  | _ =>
    rw [hmode] at h
    cases h

/--
A literal that has been begun becomes a token in the end.
-/
theorem tokens_lt_of_literal {text : List Char} (h : l.mode.isLiteral)
    (hok : (text.foldl step l).finish.error = none) :
    l.tokens.length < (text.foldl step l).finish.tokens.length := by
  induction text generalizing l with
  | nil =>
    have herror : l.error = none := error_of_finish hok
    rw [List.foldl_nil] at hok
    unfold finish at hok
    rw [herror] at hok
    cases hmode : l.mode with
    | literal =>
      rw [hmode] at hok
      cases hok
    | _ =>
      rw [hmode] at h
      cases h
  | cons c rest ih =>
    have hfirst : (l.step c).error = none := error_of_foldl_step (error_of_finish hok)
    rcases step_literal h hfirst with ⟨hmode, htokens⟩ | ⟨t, htokens⟩
    . rw [← htokens]
      apply ih hmode hok
    . have hkept := ((l.step c).foldl_step_extends rest).tokens.trans (tokens_suffix_finish _)
      have hlength := hkept.length_le
      rw [htokens, List.length_cons] at hlength
      apply hlength

end Lexer

/-! Texts. -/

/--
Of the text on one line, `heard` is read, but for `n` line breaks in its literals. What comes after it is
part of a comment now.
-/
structure Heard (file : String) (text heard : List Char) (n : Nat) : Prop where
  error : ((onOneLine text).foldl Lexer.step { file }).finish.error = none
  lexemes : LexemesBlur n ((heard.foldl Lexer.step { file }).finish.tokens.map Token.lexeme)
    (((onOneLine text).foldl Lexer.step { file }).finish.tokens.map Token.lexeme)
  literals : n = 0 ↔ ¬ Lexer.BreaksIn (·.isLiteral) { file } heard
  comments : ¬ Lexer.BreaksIn (· = .comment) { file } heard

/--
No line break of the text stands in a literal, and after one that ends a comment nothing is left to read.
-/
structure Recallable (file : String) (text : List Char) : Prop where
  literals : ∀ before after, text = before ++ '\n' :: after →
    ¬ (before.foldl Lexer.step { file }).mode.isLiteral
  comments : ∀ before after, text = before ++ '\n' :: after →
    (before.foldl Lexer.step { file }).mode = .comment → (Token.scan file after).tokens = []

theorem History.chars_entry (input : Text) : (History.entry input).chars = onOneLine input.chars := by
  unfold History.entry Text.chars onOneLine
  rw [List.map_map, List.map_map]
  apply List.map_congr_left
  intro g _
  cases g with
  | char c =>
    by_cases hc : c = '\n'
    . subst hc
      rfl
    . simp [hc, spaced_of_ne hc, Glyph.toChar]
  | stray b => rfl

section

variable {file : String} {text heard unheard : List Char} {n : Nat}

theorem Lexer.finish_of_comment {l : Lexer} (herror : l.error = none) (hmode : l.mode = .comment) :
    l.finish = l := by
  unfold finish
  rw [herror, hmode]
  rfl

theorem Heard.whole (h : (text.foldl Lexer.step { file }).finish.error = none)
    (hcomment : ¬ Lexer.BreaksIn (· = .comment) { file } text) : ∃ n, Heard file text text n := by
  obtain ⟨k, n, hstep, _, hliteral⟩ := (Lexer.Blurs.start file).foldl (Lexer.error_of_finish h) hcomment
  obtain ⟨herror, hlexemes⟩ := hstep.finish h
  exact ⟨k + n, herror, hlexemes, hliteral, hcomment⟩

theorem Heard.upTo (herror : (heard.foldl Lexer.step { file }).error = none)
    (hmode : (heard.foldl Lexer.step { file }).mode = .comment)
    (hcomment : ¬ Lexer.BreaksIn (· = .comment) { file } heard) (unheard : List Char) :
    ∃ n, Heard file (heard ++ '\n' :: unheard) heard n := by
  obtain ⟨k, n, hstep, _, hliteral⟩ := (Lexer.Blurs.start file).foldl herror hcomment
  have hfinish := Lexer.finish_of_comment herror hmode
  obtain ⟨herror', hlexemes⟩ := hstep.finish (by rw [hfinish, herror])
  have hmode' := hstep.mode
  rw [hmode] at hmode'
  generalize hl' : (onOneLine heard).foldl Lexer.step { file } = l' at hstep hlexemes hmode'
  have hcomments : l'.Comments (l'.tokens.map Token.lexeme) := by
    refine ⟨hstep.error', ?_, rfl⟩
    generalize l'.mode = mode at hmode' ⊢
    cases hmode'
    rfl
  -- On one line the comment goes on to the end of the text.
  have hend := hcomments.foldl_step (newline_not_mem_onOneLine ('\n' :: unheard))
  have htext : (onOneLine (heard ++ '\n' :: unheard)).foldl Lexer.step { file }
      = (onOneLine ('\n' :: unheard)).foldl Lexer.step l' := by
    rw [onOneLine, List.map_append, List.foldl_append, ← hl']
    rfl
  rw [Lexer.finish_of_comment hcomments.error hcomments.mode, ← hend.tokens,
    ← Lexer.finish_of_comment hend.error hend.mode, ← htext] at hlexemes
  refine ⟨k + n, ?_, hlexemes, hliteral, hcomment⟩
  rw [htext, Lexer.finish_of_comment hend.error hend.mode, hend.error]

theorem heard_cases (h : (text.foldl Lexer.step { file }).finish.error = none) :
    (∃ n, Heard file text text n) ∨ ∃ heard unheard n, text = heard ++ '\n' :: unheard ∧
      (heard.foldl Lexer.step { file }).error = none ∧
      (heard.foldl Lexer.step { file }).mode = .comment ∧ Heard file text heard n := by
  by_cases hcomment : Lexer.BreaksIn (· = .comment) { file } text
  . right
    obtain ⟨heard, unheard, rfl, hmode, hfirst⟩ := hcomment.first
    have herror := Lexer.error_of_finish h
    rw [List.foldl_append] at herror
    have herror := Lexer.error_of_foldl_step herror
    obtain ⟨n, hheard⟩ := Heard.upTo herror hmode hfirst unheard
    exact ⟨heard, unheard, n, rfl, herror, hmode, hheard⟩
  . left
    exact Heard.whole h hcomment

theorem Lexer.length_tokens_append {first : List Char}
    (h : (first.foldl Lexer.step { file }).finish.error = none) (second : List Char) :
    ((first ++ '\n' :: second).foldl Lexer.step { file }).finish.tokens.length
      = (first.foldl Lexer.step { file }).finish.tokens.length
        + (Token.scan file second).tokens.length := by
  have htokens := congrArg (fun scan => scan.tokens.length) (scan_append h second)
  simpa [Lexer.scan, Shift.scan, Token.scan] using htokens

theorem Lexer.tokens_append_of_nil {first second : List Char}
    (h : (first.foldl Lexer.step { file }).finish.error = none)
    (hsecond : (Token.scan file second).tokens = []) :
    ((first ++ '\n' :: second).foldl Lexer.step { file }).finish.tokens
      = (first.foldl Lexer.step { file }).finish.tokens := by
  have hsecond : (second.foldl Lexer.step { file }).scan.tokens = [] := hsecond
  have htokens := congrArg Scan.tokens (scan_append h second)
  rw [Shift.scan, hsecond, List.map_nil, List.append_nil] at htokens
  apply List.reverse_injective htokens

theorem Heard.recallable (h : Heard file text text 0) : Recallable file text where
  literals before after htext hliteral := h.literals.1 rfl ⟨before, after, htext, hliteral⟩
  comments before after htext hmode := absurd ⟨before, after, htext, hmode⟩ h.comments

/--
A line break is one of what is heard, or there are as many tokens before it as in all of what is heard.
-/
theorem breaks_cases (file : String) {before after : List Char}
    (h : heard ++ '\n' :: unheard = before ++ '\n' :: after) :
    (∃ after', heard = before ++ '\n' :: after') ∨ (heard.foldl Lexer.step { file }).tokens.length
      ≤ (before.foldl Lexer.step { file }).tokens.length := by
  rcases List.append_eq_append_iff.1 h with ⟨more, rfl, _⟩ | ⟨more, rfl, hmore⟩
  . right
    rw [List.foldl_append]
    exact (Lexer.foldl_step_extends _ more).tokens.length_le
  . cases more with
    | nil =>
      right
      simp
    | cons c more =>
      cases hmore
      exact .inl ⟨more, rfl⟩

theorem Heard.recallable_upTo (h : Heard file (heard ++ '\n' :: unheard) heard 0)
    (hok : ((heard ++ '\n' :: unheard).foldl Lexer.step { file }).finish.error = none)
    (herror : (heard.foldl Lexer.step { file }).error = none)
    (hmode : (heard.foldl Lexer.step { file }).mode = .comment)
    (hunheard : (Token.scan file unheard).tokens = []) :
    Recallable file (heard ++ '\n' :: unheard) := by
  have hfinish := Lexer.finish_of_comment herror hmode
  have hheard : (heard.foldl Lexer.step { file }).finish.error = none := by
    rw [hfinish, herror]
  have hcount := Lexer.length_tokens_append hheard unheard
  rw [hfinish, hunheard, List.length_nil, Nat.add_zero] at hcount
  constructor
  . intro before after htext hliteral
    rcases breaks_cases file htext with ⟨after', hheard⟩ | hle
    . exact h.literals.1 rfl ⟨before, after', hheard, hliteral⟩
    . rw [htext, List.foldl_append] at hok hcount
      have hlt := Lexer.tokens_lt_of_literal hliteral hok
      omega
  . intro before after htext hcomment
    rcases breaks_cases file htext with ⟨after', hheard⟩ | hle
    . exact absurd ⟨before, after', hheard, hcomment⟩ h.comments
    . have hbefore : (before.foldl Lexer.step { file }).error = none := by
        have herror' := Lexer.error_of_finish hok
        rw [htext, List.foldl_append] at herror'
        exact Lexer.error_of_foldl_step herror'
      have hfinish' := Lexer.finish_of_comment hbefore hcomment
      rw [← hfinish'] at hbefore
      have hcount' := Lexer.length_tokens_append hbefore after
      rw [htext, hcount', hfinish'] at hcount
      apply List.eq_nil_of_length_eq_zero
      omega

/-! Line breaks that went missing. -/

theorem Heard.lineBreaks (h : Heard file text heard n) :
    ((heard.foldl Lexer.step { file }).finish.tokens.map (·.lexeme.lineBreaks)).sum
      = (((onOneLine text).foldl Lexer.step { file }).finish.tokens.map (·.lexeme.lineBreaks)).sum
        + n := by
  have hsum := h.lexemes.lineBreaks
  rw [List.map_map, List.map_map] at hsum
  apply hsum

theorem Expr.lineBreaks_of_bare {forms forms' : List (Expr Literal)}
    (h : forms'.map bare = forms.map bare) : forms'.map lineBreaks = forms.map lineBreaks := by
  have hbare := congrArg (List.map lineBreaks) h
  rw [List.map_map, List.map_map] at hbare
  have hkept : lineBreaks ∘ bare = lineBreaks := funext fun e => e.lineBreaks_relocate _
  rwa [hkept] at hbare

end

theorem onOneLine_same {file : String} {text : List Char} {forms : List (Expr Literal)}
    (h : Expr.parse file text = .ok forms) (hrecallable : Recallable file text) :
    ∃ forms', Expr.parse file (onOneLine text) = .ok forms' ∧
      forms'.map Expr.bare = forms.map Expr.bare := by
  obtain ⟨data, hdata, -⟩ := Expr.parse_eq_ok h
  rw [Datum.readAll_eq_data] at hdata
  have hok := (Scan.data_eq_ok hdata).1
  rcases heard_cases hok with ⟨n, hheard⟩ | ⟨heard, unheard, n, rfl, herror, hmode, hheard⟩
  . have hn : n = 0 := by
      rw [hheard.literals]
      rintro ⟨before, after, htext, hliteral⟩
      exact hrecallable.literals before after htext hliteral
    exact Expr.parse_same h (hheard.lexemes.eq hn) hheard.error
  . have hn : n = 0 := by
      rw [hheard.literals]
      rintro ⟨before, after, rfl, hliteral⟩
      exact hrecallable.literals before (after ++ '\n' :: unheard) (by simp) hliteral
    have hfinish : (heard.foldl Lexer.step { file }).finish.error = none := by
      rw [Lexer.finish_of_comment herror hmode, herror]
    have hunheard := hrecallable.comments heard unheard rfl hmode
    have hlexemes := hheard.lexemes.eq hn
    rw [← Lexer.tokens_append_of_nil hfinish hunheard] at hlexemes
    exact Expr.parse_same h hlexemes hheard.error

theorem recallable_of_same {file : String} {text : List Char} {forms forms' : List (Expr Literal)}
    (h : Expr.parse file text = .ok forms) (h' : Expr.parse file (onOneLine text) = .ok forms')
    (hsame : forms'.map Expr.bare = forms.map Expr.bare) : Recallable file text := by
  obtain ⟨data, hdata, hforms⟩ := Expr.parse_eq_ok h
  have hok := (Scan.data_eq_ok hdata).1
  have hbreaks := Expr.lineBreaks_of_bare hsame
  have htotal := congrArg List.sum hbreaks
  rw [Expr.parse_lineBreaks h', Expr.parse_lineBreaks h] at htotal
  rcases heard_cases hok with ⟨n, hheard⟩ | ⟨heard, unheard, n, rfl, herror, hmode, hheard⟩
  . have hn : n = 0 := by
      have hlineBreaks := hheard.lineBreaks
      omega
    subst hn
    exact hheard.recallable
  . have hfinish := Lexer.finish_of_comment herror hmode
    have hn : n = 0 := by
      have hlineBreaks := hheard.lineBreaks
      have hkept := ((heard.foldl Lexer.step { file }).foldl_step_extends ('\n' :: unheard)).tokens.trans
        (Lexer.tokens_suffix_finish _)
      rw [← List.foldl_append] at hkept
      obtain ⟨new, hnew⟩ := hkept
      rw [← hnew, List.map_append, List.sum_append] at htotal
      rw [hfinish] at hlineBreaks
      omega
    subst hn
    -- What is heard has as many forms as the text on one line, so nothing can be left for what is not.
    obtain ⟨data', hdata', hforms'⟩ := Expr.parse_eq_ok h'
    obtain ⟨dataHeard, hdataHeard, hsameHeard⟩ := Datum.readAll_same hdata'
      (hheard.lexemes.eq rfl).symm (by rw [hfinish, herror])
    have happend := Datum.readAll_append hdataHeard unheard
    rw [hdata] at happend
    obtain ⟨dataUnheard, hdataUnheard, rfl⟩ := eq_ok_of_relocated happend.symm
    have hlength := congrArg List.length hbreaks
    have hlengthHeard := congrArg List.length hsameHeard
    rw [Datum.forms_lineBreaks hforms, Datum.forms_lineBreaks hforms'] at hlength
    simp only [List.length_map, List.length_append] at hlength hlengthHeard
    have hunheard : dataUnheard = [] := List.eq_nil_of_length_eq_zero (by omega)
    subst hunheard
    exact hheard.recallable_upTo hok herror hmode (Scan.tokens_of_data_nil hdataUnheard)

/--
The entry of an input in the history is the same program as the input exactly if the input is recallable.
-/
theorem History.entry_recalls {file : String} {input : Text} {forms : List (Expr Literal)}
    (h : Expr.parse file input.chars = .ok forms) :
    (∃ forms', Expr.parse file (History.entry input).chars = .ok forms' ∧
      forms'.map Expr.bare = forms.map Expr.bare) ↔ Recallable file input.chars := by
  rw [History.chars_entry]
  constructor
  . rintro ⟨forms', h', hsame⟩
    apply recallable_of_same h h' hsame
  . apply onOneLine_same h

theorem History.entry_recalls_comment :
    let between := Text.ofChars ['(', 'f', '\n', 'x', ')']
    let comment := Text.ofChars ['(', 'f', ';', 'o', '\n', 'x', ')']
    (∃ forms forms', Expr.parse "a" between.chars = .ok forms ∧
      Expr.parse "a" (entry between).chars = .ok forms' ∧ forms'.map Expr.bare = forms.map Expr.bare) ∧
    ∃ forms, Expr.parse "a" comment.chars = .ok forms ∧
      ¬ ∃ forms', Expr.parse "a" (entry comment).chars = .ok forms' ∧
        forms'.map Expr.bare = forms.map Expr.bare := by
  intro between comment
  obtain ⟨forms, h⟩ : ∃ forms, Expr.parse "a" between.chars = .ok forms := ⟨_, rfl⟩
  obtain ⟨formsComment, hcomment⟩ : ∃ forms, Expr.parse "a" comment.chars = .ok forms := ⟨_, rfl⟩
  constructor
  . have hbreak : ∀ before after, between.chars = before ++ '\n' :: after → before = ['(', 'f'] := by
      intro before after hsplit
      simp [between, Text.chars, Text.ofChars, Glyph.toChar, List.cons_eq_append_iff] at hsplit
      exact hsplit.1
    obtain ⟨forms', h', hsame⟩ := (entry_recalls h).2 {
      literals := fun before after hsplit => by
        rw [hbreak before after hsplit]
        decide
      comments := fun before after hsplit hmode => by
        rw [hbreak before after hsplit] at hmode
        cases hmode }
    exact ⟨forms, forms', h, h', hsame⟩
  . refine ⟨formsComment, hcomment, ?_⟩
    rw [entry_recalls hcomment]
    intro hrecallable
    have htokens := hrecallable.comments ['(', 'f', ';', 'o'] ['x', ')'] rfl rfl
    contradiction

end LispScript
