import LispScript.Proofs.Layout

/-!
This module contains the proof that S-expressions are read back from every text that they are laid out
as. The reader is a stack of open lists; the tokens of an S-expression leave the stack as it was, with
one more form in its innermost list.
-/

namespace LispScript

inductive Sexp where
  | atom (a : Atom)
  | list (items : List Sexp)

mutual

def Datum.sexp : Datum → Sexp
  | .atom _ a => .atom a
  | .list _ items => .list (Datum.sexps items)

def Datum.sexps : List Datum → List Sexp
  | [] => []
  | d :: rest => d.sexp :: Datum.sexps rest

end

mutual

def Sexp.lexemes : Sexp → List Lexeme
  | .atom a => [.atom a]
  | .list items => .opening :: Sexp.lexemesAll items ++ [.closing]

def Sexp.lexemesAll : List Sexp → List Lexeme
  | [] => []
  | s :: rest => s.lexemes ++ Sexp.lexemesAll rest

end

namespace Reader

/--
The tokens are read as the S-expressions: forms that stand for these are added, whatever the reader is.
-/
def Reads (tokens : List Token) (items : List Sexp) : Prop :=
  ∃ data, Datum.sexps data = items ∧
    ∀ r : Reader, tokens.foldlM step r = .ok (data.foldl add r)

theorem foldl_add_open (data : List Datum) (o : OpenList) (outer : List OpenList)
    (done : List Datum) :
    data.foldl add { outer := o :: outer, data := done }
      = { outer := { o with items := data.reverse ++ o.items } :: outer, data := done } := by
  induction data generalizing o with
  | nil => rfl
  | cons d rest ih =>
    rw [List.foldl_cons, add, ih]
    simp

theorem foldl_add_top (data done : List Datum) :
    data.foldl add { outer := [], data := done } = { outer := [], data := data.reverse ++ done } := by
  induction data generalizing done with
  | nil => rfl
  | cons d rest ih =>
    rw [List.foldl_cons, add, ih]
    simp

theorem sexps_append (data data' : List Datum) :
    Datum.sexps (data ++ data') = Datum.sexps data ++ Datum.sexps data' := by
  induction data with
  | nil => rfl
  | cons d rest ih =>
    rw [List.cons_append, Datum.sexps, Datum.sexps, ih]
    rfl

theorem Reads.append {first second : List Token} {items items' : List Sexp}
    (h : Reads first items) (h' : Reads second items') :
    Reads (first ++ second) (items ++ items') := by
  obtain ⟨data, hdata, hfirst⟩ := h
  obtain ⟨data', hdata', hsecond⟩ := h'
  refine ⟨data ++ data', ?_, ?_⟩
  . rw [sexps_append, hdata, hdata']
  . intro r
    rw [List.foldlM_append, hfirst, List.foldl_append]
    apply hsecond

theorem Reads.list {opening closing : Token} {inner : List Token} {items : List Sexp}
    (hopening : opening.lexeme = .opening) (hclosing : closing.lexeme = .closing)
    (h : Reads inner items) : Reads (opening :: inner ++ [closing]) [.list items] := by
  obtain ⟨data, hdata, hinner⟩ := h
  let o : OpenList := { location := opening.location, items := data.reverse }
  refine ⟨[o.close closing.location], ?_, ?_⟩
  . simp [Datum.sexps, Datum.sexp, OpenList.close, o, hdata]
  . intro r
    -- The inner forms go to the list that the opening parenthesis has put on the stack.
    have hstart : r.step opening
        = .ok { outer := { location := opening.location } :: r.outer, data := r.data } := by
      unfold step
      rw [hopening]
    have hend : step { outer := o :: r.outer, data := r.data } closing
        = .ok (r.add (o.close closing.location)) := by
      unfold step
      rw [hclosing]
    rw [List.foldlM_append, List.foldlM_cons, hstart]
    show (inner.foldlM step _ >>= fun r => [closing].foldlM step r) = _
    rw [hinner, foldl_add_open, List.append_nil]
    show (step { outer := o :: r.outer, data := r.data } closing >>= fun r => pure r) = _
    rw [hend]
    rfl

mutual

theorem reads_sexp (s : Sexp) {tokens : List Token} (h : tokens.map Token.lexeme = s.lexemes) :
    Reads tokens [s] := by
  cases s with
  | atom a =>
    rw [Sexp.lexemes] at h
    obtain ⟨t, rest, rfl, ht, hrest⟩ := List.map_eq_cons_iff.1 h
    rw [List.map_eq_nil_iff.1 hrest]
    refine ⟨[.atom t.location a], rfl, ?_⟩
    intro r
    rw [List.foldlM_cons, step, ht]
    rfl
  | list items =>
    rw [Sexp.lexemes] at h
    obtain ⟨front, back, rfl, hfront, hback⟩ := List.map_eq_append_iff.1 h
    obtain ⟨opening, inner, rfl, hopening, hinner⟩ := List.map_eq_cons_iff.1 hfront
    obtain ⟨closing, rest, rfl, hclosing, hrest⟩ := List.map_eq_cons_iff.1 hback
    rw [List.map_eq_nil_iff.1 hrest]
    apply Reads.list hopening hclosing
    apply reads_all items hinner

theorem reads_all (items : List Sexp) {tokens : List Token}
    (h : tokens.map Token.lexeme = Sexp.lexemesAll items) : Reads tokens items := by
  cases items with
  | nil =>
    rw [Sexp.lexemesAll] at h
    rw [List.map_eq_nil_iff.1 h]
    exact ⟨[], rfl, fun _ => rfl⟩
  | cons s rest =>
    rw [Sexp.lexemesAll] at h
    obtain ⟨first, second, rfl, hfirst, hsecond⟩ := List.map_eq_append_iff.1 h
    apply Reads.append (reads_sexp s hfirst) (reads_all rest hsecond)

end

end Reader

theorem readAll_layout (file : String) (data : List Sexp) {gap text : List Char} (hgap : Gap gap)
    (hlayout : Layout (Sexp.lexemesAll data) text)
    (hproper : ∀ a, .atom a ∈ Sexp.lexemesAll data → a.Proper) :
    ∃ read, Datum.readAll file (gap ++ text) = .ok read ∧ Datum.sexps read = data := by
  obtain ⟨herror, htokens⟩ := Token.scan_layout file hgap hlayout hproper
  obtain ⟨read, hread, htokens⟩ := Reader.reads_all data htokens
  refine ⟨read, ?_, hread⟩
  unfold Datum.readAll
  dsimp only
  rw [htokens, herror, Reader.foldl_add_top]
  simp [bind, Except.bind, Reader.finish]

theorem readAll_layout_list :
    let data : List Sexp := [.list [.atom (.symbol "f"), .atom (.character '\n'), .list []]]
    let text := ['(', 'f', ';', '\n', '\'', '\\', 'n', '\'', '(', ')', ')']
    Layout (Sexp.lexemesAll data) text ∧ (∀ a, .atom a ∈ Sexp.lexemesAll data → a.Proper) ∧
      ∃ read, Datum.readAll "f" text = .ok read ∧ Datum.sexps read = data := by
  intro data text
  have hcomment : Gap [';', '\n'] := .comment (List.not_mem_nil) .nil
  have hlayout : Layout (Sexp.lexemesAll data) text := by
    have hlists : Layout [.opening, .closing, .closing] ['(', ')', ')'] :=
      .cons .nil (by decide) (.cons .nil (by decide) (.cons .nil (by decide) .nil))
    have hatoms : Layout [.atom (.symbol "f"), .atom (.character '\n'), .opening, .closing, .closing]
        _ := .cons hcomment (by decide) (.cons .nil (by decide) hlists)
    have hall : Layout (.opening :: _) _ := .cons .nil (by decide) hatoms
    simp [Lexeme.text, Atom.text, Value.quotedText, Value.charText] at hall
    apply hall
  have hproper : ∀ a, .atom a ∈ Sexp.lexemesAll data → a.Proper := by
    intro a ha
    simp only [data, Sexp.lexemesAll, Sexp.lexemes] at ha
    simp at ha
    rcases ha with rfl | rfl
    . refine ⟨by simp, ?_, by simp, rfl⟩
      intro c hc
      have hf : c = 'f' := by simpa using hc
      rw [hf]
      rfl
    . trivial
  have hread := readAll_layout "f" data Gap.nil hlayout hproper
  rw [List.nil_append] at hread
  exact ⟨hlayout, hproper, hread⟩

end LispScript
