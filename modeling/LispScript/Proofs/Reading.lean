import LispScript.Grammar
import LispScript.Proofs.Tree

/-!
This module contains the proof that source text is read as trees in which every node has a location,
and that every error in source text has one.
-/

namespace LispScript

def Form.Located {α : Type} (form : Form α) : Prop :=
  ∀ e ∈ form.parts, e.Located

/--
The outcome of reading: `Q` holds of what was read, or an error has a location.
-/
def Parsed {α : Type} (Q : α → Prop) : Except ReadError α → Prop
  | .ok a => Q a
  | .error e => e.location.isSome

namespace Parsed

variable {α β : Type} {Q : α → Prop} {R : β → Prop}

theorem bind {x : Except ReadError α} {f : α → Except ReadError β} (hx : Parsed Q x)
    (hf : ∀ a, Q a → Parsed R (f a)) : Parsed R (x >>= f) := by
  cases x with
  | ok a => apply hf a hx
  | error e => apply hx

theorem mono {Q' : α → Prop} {x : Except ReadError α} (hx : Parsed Q x) (h : ∀ a, Q a → Q' a) :
    Parsed Q' x := by
  cases x with
  | ok a => apply h a hx
  | error e => apply hx

theorem mapM {f : α → Except ReadError β} {xs : List α} (h : ∀ x ∈ xs, Parsed R (f x)) :
    Parsed (fun ys => ∀ y ∈ ys, R y) (xs.mapM f) := by
  induction xs with
  | nil =>
    rw [List.mapM_nil]
    intro y hy
    contradiction
  | cons x xs ih =>
    rw [List.mapM_cons]
    apply Parsed.bind
    . apply h x List.mem_cons_self
    . intro y hy
      apply Parsed.bind
      . apply ih
        intro x' hx'
        apply h x' (List.mem_cons_of_mem x hx')
      . intro ys hys
        apply List.forall_mem_cons.2 ⟨hy, hys⟩

theorem foldlM {f : α → β → Except ReadError α} {bs : List β}
    (h : ∀ a b, Parsed (fun _ => True) (f a b)) (a : α) :
    Parsed (fun _ => True) (bs.foldlM f a) := by
  induction bs generalizing a with
  | nil => trivial
  | cons b bs ih =>
    rw [List.foldlM_cons]
    apply Parsed.bind (h a b)
    intro a' _
    apply ih

end Parsed

/-! Characters and tokens. -/

namespace Lexer

def LocatedError (l : Lexer) : Prop :=
  ∀ e, l.error = some e → e.location.isSome

variable {l : Lexer}

theorem endWord_located (h : l.LocatedError) (start : Mark) (read : List Char) :
    (l.endWord start read).LocatedError := by
  unfold endWord
  split
  . apply h
  . intro e he
    cases he
    rfl

theorem endLiteral_located (h : l.LocatedError) (mark : QuoteMark) (start stop : Mark)
    (read : List Char) : (l.endLiteral mark start stop read).LocatedError := by
  unfold endLiteral
  split
  . apply h
  . apply h
  . intro e he
    cases he
    rfl

theorem takeBetween_located (h : l.LocatedError) (c : Char) :
    (l.takeBetween c).LocatedError := by
  unfold takeBetween
  repeat' split
  all_goals apply h

theorem takeLiteral_located (h : l.LocatedError) (mark : QuoteMark) (start : Mark)
    (read : List Char) (escaped : Bool) (c : Char) :
    (l.takeLiteral mark start read escaped c).LocatedError := by
  unfold takeLiteral
  split
  . split
    . apply h
    . intro e he
      cases he
      rfl
  . split
    . apply endLiteral_located h
    . split
      . apply h
      . apply h

theorem take_located (h : l.LocatedError) (c : Char) : (l.take c).LocatedError := by
  unfold take
  split
  . apply takeBetween_located h
  . split
    . apply h
    . apply h
  . split
    . dsimp only
      split
      . apply endWord_located h
      . apply takeBetween_located
        apply endWord_located h
    . apply h
  . apply takeLiteral_located h

theorem step_located (h : l.LocatedError) (c : Char) : (l.step c).LocatedError := by
  unfold step
  split
  . apply h
  . apply take_located h

theorem finish_located (h : l.LocatedError) : l.finish.LocatedError := by
  unfold finish
  split
  . apply h
  . split
    . apply h
    . apply h
    . apply endWord_located h
    . intro e he
      cases he
      rfl

theorem foldl_step_located (source : List Char) (h : l.LocatedError) :
    (source.foldl step l).LocatedError := by
  induction source generalizing l with
  | nil => apply h
  | cons c rest ih =>
    apply ih
    apply step_located h

end Lexer

theorem Token.scan_located (file : String) (source : List Char) (e : ReadError)
    (h : (Token.scan file source).error = some e) : e.location.isSome := by
  have hstart : Lexer.LocatedError { file } := by
    intro e he
    contradiction
  apply Lexer.finish_located (Lexer.foldl_step_located source hstart) e h

theorem Reader.step_parsed (r : Reader) (t : Token) : Parsed (fun _ => True) (r.step t) := by
  unfold step
  split
  . trivial
  . trivial
  . split
    . rfl
    . trivial

theorem Reader.finish_parsed (r : Reader) : Parsed (fun _ => True) r.finish := by
  unfold finish
  split
  . trivial
  . rfl

theorem Datum.readAll_parsed (file : String) (source : List Char) :
    Parsed (fun _ => True) (Datum.readAll file source) := by
  apply Parsed.bind (Parsed.foldlM Reader.step_parsed {})
  intro r _
  split
  . next e he => apply Token.scan_located file source e he
  . apply Reader.finish_parsed

/-! Forms. -/

theorem refuse_parsed {α : Type} {Q : α → Prop} (location : Location) (fault : ReadFault) :
    Parsed Q (refuse location fault) := by
  rfl

theorem Atom.toForm_parsed (location : Location) (a : Atom) :
    Parsed Form.Located (a.toForm location) := by
  unfold toForm
  split
  . dsimp only
    split
    . simp [Parsed, Form.Located, Form.parts]
    . apply refuse_parsed
  . dsimp only
    split
    . apply refuse_parsed
    . simp [Parsed, Form.Located, Form.parts]
  . simp [Parsed, Form.Located, Form.parts]
  . simp [Parsed, Form.Located, Form.parts]
  . split
    . simp [Parsed, Form.Located, Form.parts]
    . simp [Parsed, Form.Located, Form.parts]

theorem Datum.bindable_parsed (role : String) (d : Datum) :
    Parsed (fun _ => True) (d.bindable role) := by
  unfold bindable
  split
  . split
    . apply refuse_parsed
    . trivial
  . apply refuse_parsed

theorem Datum.bindableAll_parsed {α : Type} (role : String) (datum : α → Datum) (xs : List α) :
    Parsed (fun _ => True) (xs.mapM fun x => (datum x).bindable role) := by
  apply Parsed.mono (Q := fun names => ∀ name ∈ names, True)
  . apply Parsed.mapM
    intro x _
    apply bindable_parsed
  . intros
    trivial

theorem Datum.parameters_parsed (d : Datum) : Parsed (fun _ => True) d.parameters := by
  unfold parameters
  split
  . apply bindableAll_parsed "parameter" id
  . apply refuse_parsed

theorem Datum.typeName_parsed (d : Datum) : Parsed (fun _ => True) d.typeName := by
  unfold typeName
  split
  . split
    . apply refuse_parsed
    . trivial
  . apply refuse_parsed

def Argument.Located (a : Argument) : Prop :=
  Parsed Expr.Located a.expr

theorem Argument.exprs_parsed {args : List Argument} (h : ∀ a ∈ args, a.Located) :
    Parsed (fun es => ∀ e ∈ es, e.Located) (Argument.exprs args) := by
  apply Parsed.mapM h

theorem Argument.body_parsed {args : List Argument} (h : ∀ a ∈ args, a.Located) :
    Parsed Expr.Located (Argument.body args) := by
  unfold body
  split
  . apply Expr.Every.absent
  . apply h
    simp
  . apply Parsed.bind (exprs_parsed h)
    intro es hes
    apply Expr.Every.node rfl hes

theorem Expr.Located.absent {α : Type} : (Expr.absent : Expr α).Located :=
  Expr.Every.absent

theorem Expr.Located.node_iff {α : Type} {location : Option Location} {form : Form α} :
    (Expr.node location form).Located ↔ location.isSome ∧ ∀ e ∈ form.parts, e.Located :=
  Expr.Every.node_iff

-- Every form takes its arguments from left to right, so that one walk fits all of them.
theorem SpecialForm.assemble_parsed (form : SpecialForm) (location : Location)
    {args : List Argument} (h : ∀ a ∈ args, a.Located) :
    Parsed Form.Located (form.assemble location args) := by
  unfold assemble
  split
  all_goals
    repeat
      first
      | apply refuse_parsed
      | refine Parsed.bind (Datum.bindable_parsed _ _) ?_; intro name _
      | refine Parsed.bind (Datum.bindableAll_parsed _ Argument.datum _) ?_; intro names _
      | refine Parsed.bind (Datum.parameters_parsed _) ?_; intro params _
      | refine Parsed.bind (Datum.typeName_parsed _) ?_; intro type _
      | refine Parsed.bind (h _ (by simp)) ?_; intro e he
      | refine Parsed.bind (Argument.exprs_parsed h) ?_; intro es hes
      | refine Parsed.bind (Argument.body_parsed fun a ha => h a (by simp [ha])) ?_; intro e he
  all_goals
    simp_all [Parsed, Form.Located, Form.parts, Expr.Located.absent, Expr.Located.node_iff, pure,
      Except.pure]

namespace Datum

mutual

theorem toExpr_parsed (d : Datum) : Parsed Expr.Located d.toExpr := by
  cases d with
  | atom location a =>
    rw [toExpr]
    apply Parsed.bind (Atom.toForm_parsed location a)
    intro form hform
    apply Expr.Every.node rfl hform
  | list location items =>
    cases items with
    | nil =>
      rw [toExpr]
      apply refuse_parsed
    | cons head args =>
      have hargs := toArguments_parsed args
      have hexprs := Argument.exprs_parsed hargs
      rw [toExpr.eq_def]
      dsimp only
      split
      . apply Parsed.bind (toExpr_parsed _)
        intro callee hcallee
        apply Parsed.bind hexprs
        intro es hes
        apply Expr.Every.node rfl
        apply List.forall_mem_cons.2 ⟨hcallee, hes⟩
      . split
        . apply refuse_parsed
        . split
          . apply Parsed.bind (toCases_parsed args)
            intro cases hcases
            apply Expr.Every.node rfl hcases
          . split
            . apply Parsed.bind (SpecialForm.assemble_parsed _ location hargs)
              intro form hform
              apply Expr.Every.node rfl hform
            . apply refuse_parsed
          . apply Parsed.bind hexprs
            intro es hes
            apply Expr.Every.node rfl hes
      . apply refuse_parsed

theorem toArguments_parsed (ds : List Datum) : ∀ a ∈ toArguments ds, a.Located := by
  cases ds with
  | nil => simp [toArguments]
  | cons d rest =>
    rw [toArguments, List.forall_mem_cons]
    constructor
    . apply toExpr_parsed d
    . apply toArguments_parsed rest

theorem toCases_parsed (ds : List Datum) :
    Parsed (fun cases => (Form.cond cases).Located) (toCases ds) := by
  cases ds with
  | nil => simp [toCases, Parsed, Form.Located, Form.parts]
  | cons d rest =>
    cases d with
    | atom location a =>
      rw [toCases]
      apply refuse_parsed
    | list location items =>
      rw [toCases]
      split
      . apply refuse_parsed
      . apply Parsed.bind (Argument.exprs_parsed (toArguments_parsed items))
        intro parts hparts
        apply Parsed.bind (toCases_parsed rest)
        intro cases hcases
        have hpart : ∀ i : Nat, (parts[i]?.getD .absent).Located := by
          intro i
          cases hi : parts[i]? with
          | none => apply Expr.Located.absent
          | some e => apply hparts e (List.mem_of_getElem? hi)
        simp only [Parsed, Form.Located, Form.parts, List.flatMap_cons, pure, Except.pure,
          List.forall_mem_append, List.forall_mem_cons]
        refine ⟨⟨hpart 0, hpart 1, by simp⟩, hcases⟩

end

end Datum

theorem Expr.parse_parsed (file : String) (source : List Char) :
    Parsed (fun forms => ∀ e ∈ forms, e.Located) (Expr.parse file source) := by
  apply Parsed.bind (Datum.readAll_parsed file source)
  intro data _
  apply Parsed.mapM
  intro d _
  apply Datum.toExpr_parsed

end LispScript
