import LispScript.Proofs.OneLine
import LispScript.Proofs.Provenance
import LispScript.Proofs.Shift

/-!
This module contains the proof that no literal gets lost when a text is read. The measure is the number of
line breaks in quoted literals: it is the same for the tokens of a text, for its S-expressions and for its
forms.
-/

namespace LispScript

/-! S-expressions. -/

namespace Datum

mutual

/--
How many line breaks the quoted literals of a datum hold.
-/
def lineBreaks : Datum → Nat
  | .atom _ a => a.lineBreaks
  | .list _ items => lineBreaksAll items

def lineBreaksAll : List Datum → Nat
  | [] => 0
  | d :: rest => d.lineBreaks + lineBreaksAll rest

end

@[simp]
theorem lineBreaksAll_eq_sum (ds : List Datum) : lineBreaksAll ds = (ds.map lineBreaks).sum := by
  induction ds with
  | nil => rfl
  | cons d rest ih => rw [lineBreaksAll, ih, List.map_cons, List.sum_cons]

end Datum

namespace Reader

def lineBreaks (r : Reader) : Nat :=
  (r.outer.map fun o => (o.items.map Datum.lineBreaks).sum).sum + (r.data.map Datum.lineBreaks).sum

theorem lineBreaks_add (r : Reader) (d : Datum) : (r.add d).lineBreaks = r.lineBreaks + d.lineBreaks := by
  unfold add lineBreaks
  split
  . simp
    omega
  . next houter =>
    simp [houter]
    omega

theorem lineBreaks_step {r r' : Reader} {t : Token} (h : r.step t = .ok r') :
    r'.lineBreaks = r.lineBreaks + t.lexeme.lineBreaks := by
  unfold step at h
  split at h
  . next a ha =>
    cases h
    rw [lineBreaks_add, ha]
    rfl
  . next hopening =>
    cases h
    simp [lineBreaks, hopening, Lexeme.lineBreaks]
  . next hclosing =>
    split at h
    . cases h
    . next o outer houter =>
      cases h
      rw [lineBreaks_add, hclosing]
      simp [lineBreaks, houter, OpenList.close, Datum.lineBreaks, Lexeme.lineBreaks]
      omega

theorem lineBreaks_foldlM {tokens : List Token} {r r' : Reader} (h : tokens.foldlM step r = .ok r') :
    r'.lineBreaks = r.lineBreaks + (tokens.map (·.lexeme.lineBreaks)).sum := by
  induction tokens generalizing r with
  | nil =>
    cases h
    simp
  | cons t rest ih =>
    rw [List.foldlM_cons] at h
    cases hstep : r.step t with
    | error e =>
      rw [hstep] at h
      cases h
    | ok r₁ =>
      rw [hstep] at h
      rw [ih h, lineBreaks_step hstep, List.map_cons, List.sum_cons]
      omega

end Reader

theorem Scan.lineBreaks_data {scan : Scan} {data : List Datum} (h : scan.data = .ok data) :
    (data.map Datum.lineBreaks).sum = (scan.tokens.map (·.lexeme.lineBreaks)).sum := by
  obtain ⟨_, hread⟩ := data_eq_ok h
  have hsum := Reader.lineBreaks_foldlM hread
  simpa [Reader.lineBreaks] using hsum

/-! Forms. -/

def Literal.lineBreaks : Literal → Nat
  | .char c => [c].count '\n'
  | .string content => content.toList.count '\n'
  | _ => 0

section

variable {α : Type} (measure : α → Nat)

/--
What a form measures by a literal of its own.
-/
def Form.own : Form α → Nat
  | .literal l => measure l
  | _ => 0

/--
What the literals of a tree measure together.
-/
def Expr.total : Expr α → Nat
  | .absent => 0
  | .node _ form => form.own measure + (form.parts.attach.map fun e => e.1.total).sum
termination_by e => sizeOf e
decreasing_by
  have hpart := Form.sizeOf_lt_of_mem_parts e.2
  rw [Expr.node.sizeOf_spec]
  omega

def Form.total (form : Form α) : Nat :=
  form.own measure + (form.parts.map (Expr.total measure)).sum

variable {measure}

@[simp]
theorem Expr.total_absent : (Expr.absent : Expr α).total measure = 0 := by
  rw [total]

@[simp]
theorem Expr.total_node (location : Option Location) (form : Form α) :
    (Expr.node location form).total measure = form.total measure := by
  rw [total, Form.total]
  congr 2
  apply List.attach_map_val

end

/--
How many line breaks the quoted literals of a tree hold.
-/
def Expr.lineBreaks (e : Expr Literal) : Nat :=
  e.total Literal.lineBreaks

def Form.lineBreaks (form : Form Literal) : Nat :=
  form.total Literal.lineBreaks

@[simp]
theorem Expr.lineBreaks_absent : (Expr.absent : Expr Literal).lineBreaks = 0 := Expr.total_absent

@[simp]
theorem Expr.lineBreaks_node (location : Option Location) (form : Form Literal) :
    (Expr.node location form).lineBreaks = form.lineBreaks := Expr.total_node location form

theorem Form.lineBreaks_eq (form : Form Literal) :
    form.lineBreaks = form.own Literal.lineBreaks + (form.parts.map Expr.lineBreaks).sum := rfl

theorem Expr.lineBreaks_relocate (g : Location → Location) (e : Expr Literal) :
    (e.relocate g).lineBreaks = e.lineBreaks := by
  have hevery : e.Every fun _ _ => True := .of_forall (fun _ _ => trivial) e
  induction hevery with
  | absent => rfl
  | @node location form _ _ ih =>
    have hown : (form.relocate g).own Literal.lineBreaks = form.own Literal.lineBreaks := by
      cases form <;> rfl
    rw [relocate, lineBreaks_node, lineBreaks_node, Form.lineBreaks_eq, Form.lineBreaks_eq, hown,
      parts_relocate, List.map_map]
    congr 2
    apply List.map_congr_left ih

/-! Reading. -/

theorem Atom.toForm_lineBreaks (location : Location) (a : Atom) :
    Parsed (fun form => form.lineBreaks = a.lineBreaks) (a.toForm location) := by
  unfold toForm
  split
  . dsimp only
    split
    . rfl
    . apply refuse_parsed
  . dsimp only
    split
    . apply refuse_parsed
    . rfl
  . rfl
  . rfl
  . next name =>
    split
    . next l hl =>
      unfold reserved? at hl
      split at hl <;> cases hl
      all_goals rfl
    . rfl

namespace Datum

/--
A name is no quoted literal.
-/
theorem bindable_lineBreaks (role : String) (d : Datum) :
    Parsed (fun _ => d.lineBreaks = 0) (d.bindable role) := by
  unfold bindable
  split
  . next name hname =>
    split
    . apply refuse_parsed
    . cases d with
      | atom location a => cases a <;> cases hname; rfl
      | list => contradiction
  . apply refuse_parsed

theorem bindableAll_lineBreaks {α : Type} (role : String) (datum : α → Datum) (xs : List α) :
    Parsed (fun _ => (xs.map fun x => (datum x).lineBreaks).sum = 0)
      (xs.mapM fun x => (datum x).bindable role) := by
  induction xs with
  | nil => rfl
  | cons x xs ih =>
    rw [List.mapM_cons]
    apply Parsed.bind (bindable_lineBreaks role (datum x))
    intro name hname
    apply Parsed.bind ih
    intro names hnames
    rw [List.map_cons, List.sum_cons]
    exact Nat.add_eq_zero_iff.2 ⟨hname, hnames⟩

theorem parameters_lineBreaks (d : Datum) : Parsed (fun _ => d.lineBreaks = 0) d.parameters := by
  unfold parameters
  split
  . next location items =>
    have hitems := bindableAll_lineBreaks "parameter" id items
    simpa [lineBreaks] using hitems
  . apply refuse_parsed

theorem typeName_lineBreaks (d : Datum) : Parsed (fun _ => d.lineBreaks = 0) d.typeName := by
  unfold typeName
  split
  . next name hname =>
    split
    . apply refuse_parsed
    . cases d with
      | atom location a => cases a <;> cases hname; rfl
      | list => contradiction
  . apply refuse_parsed

end Datum

namespace Argument

/--
What the argument stands for as an expression holds the line breaks that the argument holds.
-/
def Faithful (a : Argument) : Prop :=
  Parsed (fun e => e.lineBreaks = a.datum.lineBreaks) a.expr

def lineBreaksAll (args : List Argument) : Nat :=
  (args.map fun a => a.datum.lineBreaks).sum

variable {args : List Argument}

theorem exprs_lineBreaks (h : ∀ a ∈ args, a.Faithful) :
    Parsed (fun es => es.map Expr.lineBreaks = args.map fun a => a.datum.lineBreaks) (exprs args) := by
  induction args with
  | nil => rfl
  | cons a rest ih =>
    rw [List.forall_mem_cons] at h
    unfold exprs at ih ⊢
    rw [List.mapM_cons]
    apply Parsed.bind h.1
    intro e he
    apply Parsed.bind (ih h.2)
    intro es hes
    simp [Parsed, pure, Except.pure, he, hes]

theorem body_lineBreaks (h : ∀ a ∈ args, a.Faithful) :
    Parsed (fun e => e.lineBreaks = lineBreaksAll args) (body args) := by
  unfold body
  split
  . exact Expr.lineBreaks_absent
  . next a =>
    apply (h a (by simp)).mono
    intro e he
    simpa [lineBreaksAll] using he
  . apply Parsed.bind (exprs_lineBreaks h)
    intro es hes
    rw [lineBreaksAll, ← hes]
    simp [Parsed, pure, Except.pure, Form.lineBreaks_eq, Form.own, Form.parts]

end Argument

-- As in the proof that the parts are located, one walk from left to right fits every form.
theorem SpecialForm.assemble_lineBreaks (form : SpecialForm) (location : Location)
    {args : List Argument} (h : ∀ a ∈ args, a.Faithful) :
    Parsed (fun form => form.lineBreaks = Argument.lineBreaksAll args)
      (form.assemble location args) := by
  unfold assemble
  split
  all_goals
    repeat
      first
      | refine Parsed.bind (h _ (by simp)) ?_; intro e he
      | apply refuse_parsed
      | refine Parsed.bind (Datum.bindable_lineBreaks _ _) ?_; intro name hname
      | refine Parsed.bind (Datum.bindableAll_lineBreaks _ Argument.datum _) ?_; intro names hnames
      | refine Parsed.bind (Datum.parameters_lineBreaks _) ?_; intro params hparams
      | refine Parsed.bind (Datum.typeName_lineBreaks _) ?_; intro type htype
      | refine Parsed.bind (Argument.exprs_lineBreaks h) ?_; intro es hes; have := congrArg List.sum hes
      | refine Parsed.bind (Argument.body_lineBreaks fun a ha => h a (by simp [ha])) ?_; intro e he
  all_goals
    simp only [Argument.lineBreaksAll, List.map_cons, List.map_nil, List.sum_cons, List.sum_nil] at *
    simp only [Parsed, pure, Except.pure, Form.lineBreaks_eq, Form.own, Form.parts,
      Expr.lineBreaks_absent, Expr.lineBreaks_node, List.map_cons, List.map_nil, List.sum_cons,
      List.sum_nil]
    omega

namespace Datum

theorem toArguments_lineBreaks (ds : List Datum) :
    (toArguments ds).map (fun a => a.datum.lineBreaks) = ds.map lineBreaks := by
  induction ds with
  | nil => rfl
  | cons d rest ih => rw [toArguments, List.map_cons, List.map_cons, ih]

mutual

theorem toExpr_lineBreaks (d : Datum) : Parsed (fun e => e.lineBreaks = d.lineBreaks) d.toExpr := by
  cases d with
  | atom location a =>
    rw [toExpr]
    apply Parsed.bind (Atom.toForm_lineBreaks location a)
    intro form hform
    simpa [Parsed, pure, Except.pure, lineBreaks] using hform
  | list location items =>
    cases items with
    | nil =>
      rw [toExpr]
      apply refuse_parsed
    | cons head args =>
      have hargs := toArguments_faithful args
      have hexprs := Argument.exprs_lineBreaks hargs
      have hargsBreaks := toArguments_lineBreaks args
      rw [hargsBreaks] at hexprs
      rw [toExpr.eq_def]
      dsimp only
      split
      . apply Parsed.bind (toExpr_lineBreaks _)
        intro callee hcallee
        apply Parsed.bind hexprs
        intro es hes
        simp [Parsed, pure, Except.pure, Form.lineBreaks_eq, Form.own, Form.parts, hcallee, hes,
          lineBreaks]
      . split
        . apply refuse_parsed
        . split
          . apply Parsed.bind (toCases_lineBreaks args)
            intro cases hcases
            simpa [Parsed, pure, Except.pure, lineBreaks, Atom.lineBreaks] using hcases
          . split
            . apply Parsed.bind (SpecialForm.assemble_lineBreaks _ location hargs)
              intro form hform
              rw [Argument.lineBreaksAll, hargsBreaks] at hform
              simpa [Parsed, pure, Except.pure, lineBreaks, Atom.lineBreaks] using hform
            . apply refuse_parsed
          . apply Parsed.bind hexprs
            intro es hes
            simp [Parsed, pure, Except.pure, Form.lineBreaks_eq, Form.own, Form.parts, hes,
              lineBreaks, Atom.lineBreaks]
      . apply refuse_parsed

theorem toArguments_faithful (ds : List Datum) : ∀ a ∈ toArguments ds, a.Faithful := by
  cases ds with
  | nil => simp [toArguments]
  | cons d rest =>
    rw [toArguments, List.forall_mem_cons]
    exact ⟨toExpr_lineBreaks d, toArguments_faithful rest⟩

theorem toCases_lineBreaks (ds : List Datum) :
    Parsed (fun cases => (Form.cond cases).lineBreaks = (ds.map lineBreaks).sum) (toCases ds) := by
  cases ds with
  | nil => rfl
  | cons d rest =>
    cases d with
    | atom location a =>
      rw [toCases]
      apply refuse_parsed
    | list location items =>
      rw [toCases]
      split
      . apply refuse_parsed
      . next hsize =>
        apply Parsed.bind (Argument.exprs_lineBreaks (toArguments_faithful items))
        intro parts hparts
        apply Parsed.bind (toCases_lineBreaks rest)
        intro cases hcases
        rw [toArguments_lineBreaks] at hparts
        have hcase : (parts[0]?.getD Expr.absent).lineBreaks + (parts[1]?.getD Expr.absent).lineBreaks
            = (items.map lineBreaks).sum := by
          rw [← hparts]
          have hlength := congrArg List.length hparts
          rw [List.length_map, List.length_map] at hlength
          match parts, hlength with
          | [], _ => simp
          | [_], _ => simp
          | [_, _], _ => simp
          | _ :: _ :: _ :: _, hlength => simp at hlength; omega
        simp [Parsed, pure, Except.pure, Form.lineBreaks_eq, Form.own, Form.parts, lineBreaks, ← hcase,
          ← hcases, Nat.add_assoc]

end

theorem forms_lineBreaks {data : List Datum} {forms : List (Expr Literal)}
    (h : data.mapM toExpr = .ok forms) : forms.map Expr.lineBreaks = data.map lineBreaks := by
  induction data generalizing forms with
  | nil =>
    cases h
    rfl
  | cons d rest ih =>
    rw [List.mapM_cons] at h
    have hd := toExpr_lineBreaks d
    cases he : d.toExpr with
    | error e =>
      rw [he] at h
      cases h
    | ok e =>
      cases hes : rest.mapM toExpr with
      | error e =>
        rw [he, hes] at h
        cases h
      | ok es =>
        rw [he, hes] at h
        rw [he] at hd
        cases h
        have he : e.lineBreaks = d.lineBreaks := hd
        rw [List.map_cons, List.map_cons, ih hes, he]

end Datum

theorem Expr.parse_lineBreaks {file : String} {text : List Char} {forms : List (Expr Literal)}
    (h : parse file text = .ok forms) :
    (forms.map lineBreaks).sum
      = ((text.foldl Lexer.step { file }).finish.tokens.map (·.lexeme.lineBreaks)).sum := by
  obtain ⟨data, hdata, hforms⟩ := parse_eq_ok h
  rw [Datum.readAll_eq_data] at hdata
  rw [Datum.forms_lineBreaks hforms, Scan.lineBreaks_data hdata]
  simp [Lexer.scan, List.map_reverse, List.sum_reverse]

end LispScript
