import LispScript.Proofs.Literal
import LispScript.Proofs.Reading
import LispScript.Proofs.TwinSources

/-!
This module contains the proof that every name in a tree that was read from source text is one that can
be written down again. The lexer finds nothing but proper atoms, the reader only puts them in lists, and
each form takes its names from symbols that are not reserved.
-/

namespace LispScript

/--
The name is not reserved, and its text is that of a symbol.
-/
structure Nameable (name : String) : Prop where
  proper : (Atom.symbol name).Proper
  free : (reserved? name).isNone

theorem Word.classify_cases {word : List Char} {a : Atom} (h : classify word = .ok a) :
    a = .integer (String.ofList word) ∨ a = .real (String.ofList word) ∨
      (a = .symbol (String.ofList word) ∧ startsNumber (unsigned word) = false) := by
  unfold classify at h
  dsimp only at h
  split at h
  . next hstarts =>
    cases h
    simpa using hstarts
  . split at h
    . contradiction
    . split at h
      . cases h
        simp
      . cases h
        simp
      . contradiction

theorem Word.startsNumber_of_symbol {word : List Char} {name : String}
    (h : classify word = .ok (.symbol name)) : startsNumber (unsigned word) = false := by
  obtain hinteger | hreal | hsymbol := classify_cases h
  . contradiction
  . contradiction
  . exact hsymbol.2

instance (name : String) : Decidable (Nameable name) :=
  haveI := List.decidableBAll (Word.isEnd · = false) name.toList
  decidable_of_iff
    ((name.toList ≠ [] ∧ (∀ c ∈ name.toList, Word.isEnd c = false) ∧ name.toList.head? ≠ some '\'' ∧
      Word.startsNumber (Word.unsigned name.toList) = false) ∧ (reserved? name).isNone)
    ⟨fun ⟨⟨hne, hinner, hstart, hnumber⟩, hfree⟩ =>
      ⟨Atom.symbol_proper hne hinner hstart hnumber, hfree⟩,
    fun h => ⟨⟨h.proper.nonempty, h.proper.inner, h.proper.start,
      Word.startsNumber_of_symbol h.proper.atom⟩, h.free⟩⟩

/-! Atoms. -/

namespace Word

/--
The characters of a word that has not ended yet, in reverse.
-/
structure Begun (read : List Char) : Prop where
  nonempty : read ≠ []
  inner : ∀ c ∈ read, isEnd c = false
  start : read.getLast? ≠ some '\''

theorem Begun.cons {read : List Char} (h : Begun read) {c : Char} (hc : isEnd c = false) :
    Begun (c :: read) where
  nonempty := by simp
  inner := List.forall_mem_cons.2 ⟨hc, h.inner⟩
  start := by
    rw [List.getLast?_cons_of_ne_nil h.nonempty]
    exact h.start

theorem Begun.spells {read : List Char} (h : Begun read) {a : Atom}
    (ha : classify read.reverse = .ok a) : Spells read.reverse a where
  nonempty := by simpa using h.nonempty
  inner := by
    intro c hc
    apply h.inner c (List.mem_reverse.1 hc)
  start := by
    rw [List.head?_reverse]
    apply h.start
  atom := ha

theorem Begun.proper {read : List Char} (h : Begun read) {a : Atom}
    (ha : classify read.reverse = .ok a) : a.Proper := by
  have hspells : Spells (String.ofList read.reverse).toList a := by
    rw [String.toList_ofList]
    exact h.spells ha
  obtain rfl | rfl | ⟨rfl, _⟩ := classify_cases ha
  all_goals apply hspells

end Word

namespace Lexer

structure Proper (l : Lexer) : Prop where
  tokens : ∀ t ∈ l.tokens, ∀ a, t.lexeme = .atom a → a.Proper
  word : ∀ start read, l.mode = .word start read → Word.Begun read

variable {l : Lexer}

theorem Proper.emit (h : l.Proper) (start stop : Mark) {lexeme : Lexeme}
    (hlexeme : ∀ a, lexeme = .atom a → a.Proper) : (l.emit start stop lexeme).Proper where
  tokens := List.forall_mem_cons.2 ⟨hlexeme, h.tokens⟩
  word := by
    intro start read hmode
    contradiction

theorem Proper.endWord (h : l.Proper) {start : Mark} {read : List Char}
    (hmode : l.mode = .word start read) : (l.endWord start read).Proper := by
  unfold Lexer.endWord
  split
  . next a ha =>
    apply h.emit
    rintro _ ⟨⟩
    apply (h.word start read hmode).proper ha
  . exact ⟨h.tokens, h.word⟩

theorem Proper.endLiteral (h : l.Proper) (mark : QuoteMark) (start stop : Mark) (read : List Char) :
    (l.endLiteral mark start stop read).Proper := by
  unfold Lexer.endLiteral
  split
  . apply h.emit
    rintro _ ⟨⟩
    trivial
  . apply h.emit
    rintro _ ⟨⟩
    trivial
  . exact ⟨h.tokens, h.word⟩

theorem Proper.takeBetween (h : l.Proper) (c : Char) : (l.takeBetween c).Proper := by
  unfold Lexer.takeBetween
  split
  . apply h
  . split
    . exact ⟨h.tokens, nofun⟩
    . split
      . apply h.emit
        nofun
      . split
        . apply h.emit
          nofun
        . split
          . exact ⟨h.tokens, nofun⟩
          . split
            . exact ⟨h.tokens, nofun⟩
            . refine ⟨h.tokens, ?_⟩
              rintro _ _ ⟨⟩
              constructor <;> simp_all [Word.isEnd]

theorem Proper.takeLiteral (h : l.Proper) (mark : QuoteMark) (start : Mark) (read : List Char)
    (escaped : Bool) (c : Char) : (l.takeLiteral mark start read escaped c).Proper := by
  unfold Lexer.takeLiteral
  split
  . split
    . exact ⟨h.tokens, nofun⟩
    . exact ⟨h.tokens, h.word⟩
  . split
    . apply h.endLiteral
    . split
      . exact ⟨h.tokens, nofun⟩
      . exact ⟨h.tokens, nofun⟩

theorem Proper.take (h : l.Proper) (c : Char) : (l.take c).Proper := by
  unfold Lexer.take
  split
  . apply h.takeBetween
  . split
    . exact ⟨h.tokens, nofun⟩
    . apply h
  . next start read hmode =>
    split
    . dsimp only
      split
      . apply h.endWord hmode
      . apply (h.endWord hmode).takeBetween
    . next hc =>
      have hbegun := h.word start read hmode
      refine ⟨h.tokens, ?_⟩
      rintro _ _ ⟨⟩
      exact hbegun.cons (by simpa using hc)
  . apply h.takeLiteral

theorem Proper.step (h : l.Proper) (c : Char) : (l.step c).Proper := by
  unfold Lexer.step
  split
  . apply h
  . exact ⟨(h.take c).tokens, (h.take c).word⟩

theorem Proper.foldl (h : l.Proper) (source : List Char) : (source.foldl Lexer.step l).Proper := by
  induction source generalizing l with
  | nil => apply h
  | cons c rest ih => apply ih (h.step c)

theorem Proper.finish (h : l.Proper) : l.finish.Proper := by
  unfold Lexer.finish
  split
  . apply h
  . split
    . apply h
    . apply h
    . next hmode => apply h.endWord hmode
    . exact ⟨h.tokens, h.word⟩

end Lexer

theorem Token.scan_proper (file : String) (source : List Char) :
    ∀ t ∈ (Token.scan file source).tokens, ∀ a, t.lexeme = .atom a → a.Proper := by
  have hstart : Lexer.Proper { file } := ⟨by simp, nofun⟩
  intro t ht
  apply (hstart.foldl source).finish.tokens t (List.mem_reverse.1 ht)

/-! S-expressions. -/

inductive Datum.Proper : Datum → Prop where
  | atom {location : Location} {a : Atom} (h : a.Proper) : Proper (.atom location a)
  | list {location : Location} {items : List Datum} (h : ∀ d ∈ items, Proper d) :
      Proper (.list location items)

structure Reader.Proper (r : Reader) : Prop where
  outer : ∀ o ∈ r.outer, ∀ d ∈ o.items, d.Proper
  data : ∀ d ∈ r.data, d.Proper

theorem Reader.Proper.add {r : Reader} (h : r.Proper) {d : Datum} (hd : d.Proper) :
    (r.add d).Proper := by
  unfold Reader.add
  split
  . next houter =>
    refine ⟨?_, List.forall_mem_cons.2 ⟨hd, h.data⟩⟩
    simp [houter]
  . next o outer houter =>
    have hopen := h.outer
    rw [houter, List.forall_mem_cons] at hopen
    refine ⟨?_, h.data⟩
    rw [List.forall_mem_cons]
    exact ⟨List.forall_mem_cons.2 ⟨hd, hopen.1⟩, hopen.2⟩

theorem Reader.Proper.step {r : Reader} (h : r.Proper) {t : Token}
    (ht : ∀ a, t.lexeme = .atom a → a.Proper) : Parsed Reader.Proper (r.step t) := by
  unfold Reader.step
  split
  . next a ha => exact h.add (.atom (ht a ha))
  . refine ⟨?_, h.data⟩
    rw [List.forall_mem_cons]
    exact ⟨by simp, h.outer⟩
  . split
    . rfl
    . next o outer houter =>
      have hopen := h.outer
      rw [houter, List.forall_mem_cons] at hopen
      have hrest : Reader.Proper { r with outer } := ⟨hopen.2, h.data⟩
      have hclosed : (o.close t.location).Proper := by
        apply Datum.Proper.list
        intro d hd
        apply hopen.1 d (List.mem_reverse.1 hd)
      exact hrest.add hclosed

theorem Reader.Proper.finish {r : Reader} (h : r.Proper) :
    Parsed (fun data => ∀ d ∈ data, d.Proper) r.finish := by
  unfold Reader.finish
  split
  . intro d hd
    apply h.data d (List.mem_reverse.1 hd)
  . rfl

theorem Parsed.foldlM_keeps {α β : Type} {Q : α → Prop} {f : α → β → Except ReadError α} {bs : List β}
    (h : ∀ a, ∀ b ∈ bs, Q a → Parsed Q (f a b)) {a : α} (ha : Q a) : Parsed Q (bs.foldlM f a) := by
  induction bs generalizing a with
  | nil => apply ha
  | cons b bs ih =>
    rw [List.foldlM_cons]
    apply Parsed.bind (h a b List.mem_cons_self ha)
    intro a' ha'
    apply ih _ ha'
    intro a'' b' hb'
    apply h a'' b' (List.mem_cons_of_mem b hb')

theorem Datum.readAll_proper (file : String) (source : List Char) :
    Parsed (fun data => ∀ d ∈ data, d.Proper) (Datum.readAll file source) := by
  have hstart : Reader.Proper {} := ⟨by simp, by simp⟩
  apply Parsed.bind (Q := Reader.Proper)
  . apply Parsed.foldlM_keeps _ hstart
    intro r t ht hr
    apply hr.step (Token.scan_proper file source t ht)
  . intro r hr
    split
    . next e he => apply Token.scan_located file source e he
    . apply hr.finish

/-! Forms. -/

/--
Every name that a tree mentions can be written down.
-/
def Expr.Named {α : Type} (e : Expr α) : Prop :=
  e.Every fun _ form => ∀ name ∈ form.names, Nameable name

structure Form.Named {α : Type} (form : Form α) : Prop where
  names : ∀ name ∈ form.names, Nameable name
  parts : ∀ e ∈ form.parts, e.Named

theorem Form.Named.node {α : Type} {form : Form α} (h : form.Named) (l : Option Location) :
    (Expr.node l form).Named :=
  .node h.names h.parts

theorem Expr.Named.absent {α : Type} : (Expr.absent : Expr α).Named :=
  Expr.Every.absent

theorem Expr.Named.node_iff {α : Type} {l : Option Location} {form : Form α} :
    (Expr.node l form).Named ↔ (∀ name ∈ form.names, Nameable name) ∧ ∀ e ∈ form.parts, e.Named :=
  Expr.Every.node_iff

theorem Atom.toForm_named {a : Atom} (h : a.Proper) (location : Location) :
    Parsed Form.Named (a.toForm location) := by
  unfold toForm
  split
  . dsimp only
    split
    . exact ⟨nofun, nofun⟩
    . apply refuse_parsed
  . dsimp only
    split
    . apply refuse_parsed
    . exact ⟨nofun, nofun⟩
  . exact ⟨nofun, nofun⟩
  . exact ⟨nofun, nofun⟩
  . split
    . exact ⟨nofun, nofun⟩
    . next hfree =>
      refine ⟨?_, nofun⟩
      intro name hname
      rw [List.mem_singleton.1 hname]
      exact ⟨h, by simp [hfree]⟩

namespace Datum

theorem Proper.bindable {d : Datum} (h : d.Proper) (role : String) :
    Parsed Nameable (d.bindable role) := by
  unfold Datum.bindable
  split
  . next name hname =>
    split
    . apply refuse_parsed
    . next hfree =>
      refine ⟨?_, by simpa using hfree⟩
      cases h with
      | @atom location a ha =>
        cases a <;> cases hname
        apply ha
      | list => contradiction
  . apply refuse_parsed

theorem Proper.parameters {d : Datum} (h : d.Proper) :
    Parsed (fun names => ∀ name ∈ names, Nameable name) d.parameters := by
  unfold Datum.parameters
  split
  . cases h with
    | list hitems =>
      apply Parsed.mapM
      intro d hd
      apply (hitems d hd).bindable
  . apply refuse_parsed

end Datum

namespace Argument

structure Named (a : Argument) : Prop where
  datum : a.datum.Proper
  expr : Parsed Expr.Named a.expr

theorem exprs_named {args : List Argument} (h : ∀ a ∈ args, a.Named) :
    Parsed (fun es => ∀ e ∈ es, e.Named) (exprs args) := by
  apply Parsed.mapM
  intro a ha
  apply (h a ha).expr

theorem body_named {args : List Argument} (h : ∀ a ∈ args, a.Named) :
    Parsed Expr.Named (body args) := by
  unfold body
  split
  . apply Expr.Named.absent
  . apply (h _ (by simp)).expr
  . apply Parsed.bind (exprs_named h)
    intro es hes
    apply Expr.Every.node nofun hes

end Argument

-- As in the proof that the parts are located, one walk from left to right fits every form.
theorem SpecialForm.assemble_named (form : SpecialForm) (location : Location)
    {args : List Argument} (h : ∀ a ∈ args, a.Named) :
    Parsed Form.Named (form.assemble location args) := by
  unfold assemble
  split
  all_goals
    repeat
      first
      | refine Parsed.bind (h _ (by simp)).expr ?_; intro e he
      | apply refuse_parsed
      | refine Parsed.bind ((h _ (by simp)).datum.bindable _) ?_; intro name hname
      | refine Parsed.bind (Datum.bindableAll_parsed _ Argument.datum _) ?_; intro names _
      | refine Parsed.bind (h _ (by simp)).datum.parameters ?_; intro params hparams
      | refine Parsed.bind (Datum.typeName_parsed _) ?_; intro type _
      | refine Parsed.bind (Argument.exprs_named h) ?_; intro es hes
      | refine Parsed.bind (Argument.body_named fun a ha => h a (by simp [ha])) ?_; intro e he
  all_goals
    constructor
    all_goals simp_all [Form.names, Form.parts, Expr.Named.absent, Expr.Named.node_iff]

namespace Datum

mutual

theorem toExpr_named (d : Datum) (h : d.Proper) : Parsed Expr.Named d.toExpr := by
  cases h with
  | @atom location a ha =>
    rw [toExpr]
    apply Parsed.bind (Atom.toForm_named ha location)
    intro form hform
    apply hform.node
  | @list location items hitems =>
    cases items with
    | nil =>
      rw [toExpr]
      apply refuse_parsed
    | cons head args =>
      obtain ⟨hhead, hargs⟩ := List.forall_mem_cons.1 hitems
      have hnamed := toArguments_named args hargs
      have hexprs := Argument.exprs_named hnamed
      rw [toExpr.eq_def]
      dsimp only
      split
      . apply Parsed.bind (toExpr_named _ hhead)
        intro callee hcallee
        apply Parsed.bind hexprs
        intro es hes
        apply Expr.Every.node nofun
        apply List.forall_mem_cons.2 ⟨hcallee, hes⟩
      . next name =>
        split
        . apply refuse_parsed
        . next hfree =>
          split
          . apply Parsed.bind (toCases_named args hargs)
            intro cases hcases
            apply hcases.node
          . split
            . apply Parsed.bind (SpecialForm.assemble_named _ location hnamed)
              intro form hform
              apply hform.node
            . apply refuse_parsed
          . apply Parsed.bind hexprs
            intro es hes
            apply Form.Named.node
            refine ⟨?_, hes⟩
            intro n hn
            rw [List.mem_singleton.1 hn]
            cases hhead with
            | atom ha => exact ⟨ha, by simpa using hfree⟩
      . apply refuse_parsed

theorem toArguments_named (ds : List Datum) (h : ∀ d ∈ ds, d.Proper) :
    ∀ a ∈ toArguments ds, a.Named := by
  cases ds with
  | nil => simp [toArguments]
  | cons d rest =>
    rw [List.forall_mem_cons] at h
    rw [toArguments, List.forall_mem_cons]
    constructor
    . exact ⟨h.1, toExpr_named d h.1⟩
    . apply toArguments_named rest h.2

theorem toCases_named (ds : List Datum) (h : ∀ d ∈ ds, d.Proper) :
    Parsed (fun cases => (Form.cond cases).Named) (toCases ds) := by
  cases ds with
  | nil =>
    rw [toCases]
    exact ⟨nofun, nofun⟩
  | cons d rest =>
    rw [List.forall_mem_cons] at h
    cases d with
    | atom location a =>
      rw [toCases]
      apply refuse_parsed
    | list location items =>
      rw [toCases]
      split
      . apply refuse_parsed
      . have hitems : ∀ d ∈ items, d.Proper := by
          cases h.1 with
          | list hitems => exact hitems
        apply Parsed.bind (Argument.exprs_named (toArguments_named items hitems))
        intro parts hparts
        apply Parsed.bind (toCases_named rest h.2)
        intro cases hcases
        have hpart : ∀ i : Nat, (parts[i]?.getD .absent).Named := by
          intro i
          cases hi : parts[i]? with
          | none => apply Expr.Named.absent
          | some e => apply hparts e (List.mem_of_getElem? hi)
        refine ⟨nofun, ?_⟩
        simp only [Form.parts, List.flatMap_cons, List.forall_mem_append, List.forall_mem_cons]
        exact ⟨⟨hpart 0, hpart 1, by simp⟩, hcases.parts⟩

end

end Datum

theorem Expr.parse_named (file : String) (source : List Char) :
    Parsed (fun forms => ∀ e ∈ forms, e.Named) (Expr.parse file source) := by
  apply Parsed.bind (Datum.readAll_proper file source)
  intro data hdata
  apply Parsed.mapM
  intro d hd
  apply Datum.toExpr_named d (hdata d hd)

/--
A text that is nothing but such a name is read as the symbol.
-/
theorem Nameable.parse {name : String} (h : Nameable name) (file : String) :
    ∃ l, Expr.parse file name.toList = .ok [.node (some l) (.symbol name)] := by
  obtain ⟨location, hread⟩ := Datum.readAll_atom file h.proper
  refine ⟨location, ?_⟩
  have hread : Datum.readAll file name.toList = .ok [.atom location (.symbol name)] := hread
  have hfree := Option.isNone_iff_eq_none.1 h.free
  unfold Expr.parse
  rw [hread]
  simp only [bind, Except.bind, List.mapM_cons, List.mapM_nil, Datum.toExpr, Atom.toForm, hfree]
  rfl

theorem Nameable.ne_reserved {name : String} (h : Nameable name) :
    name ∉ ["true", "false", "null"] := by
  intro hname
  have hfree := h.free
  simp only [List.mem_cons, List.not_mem_nil, or_false] at hname
  obtain rfl | rfl | rfl := hname
  all_goals simp [reserved?] at hfree

end LispScript
