import LispScript.Proofs.Grammatical
import LispScript.Proofs.Ordinary
import LispScript.Proofs.Provenance
import LispScript.Proofs.Sites

/-!
This module contains the proof that trees which are read from source text are well formed. Each node is
located where a datum of the text begins, and each form has the parts and the operator that it cannot do
without. So of all that can happen in an evaluation of such trees, only `read` can find something
malformed.
-/

namespace LispScript

/--
The expression makes a closure.
-/
def Expr.IsLambda {α : Type} (e : Expr α) : Prop :=
  ∃ location site params body, e = .node location (.lambda site params body)

/--
The form has what it cannot do without.
-/
def Form.Complete {α : Type} : Form α → Prop
  | .arith op left right => op ∈ ArithOp.all ∧ ¬ left.isAbsent ∧ ¬ right.isAbsent
  | .compare op left right => op ∈ CompareOp.all ∧ ¬ left.isAbsent ∧ ¬ right.isAbsent
  | .logic op left right => op ∈ LogicOp.all ∧ ¬ left.isAbsent ∧ ¬ right.isAbsent
  | .branch condition onTrue _ => ¬ condition.isAbsent ∧ ¬ onTrue.isAbsent
  | .loop _ condition _ body => ¬ condition.isAbsent ∧ ¬ body.isAbsent
  | .cond cases => ∀ c ∈ cases, ¬ c.2.isAbsent → ¬ c.1.isAbsent
  | .isType _ type => type = .number ∨ ∃ k, type = .kind k
  | .function _ e => e.IsLambda
  | _ => True

/--
Every node of the tree is at a location of which `P` holds, and its form is complete.
-/
def Expr.Formed {α : Type} (P : Location → Prop) (e : Expr α) : Prop :=
  e.Every fun location form => (∃ l, location = some l ∧ P l) ∧ form.Complete

structure Form.Formed {α : Type} (P : Location → Prop) (form : Form α) : Prop where
  complete : form.Complete
  parts : ∀ e ∈ form.parts, e.Formed P

variable {P : Location → Prop}

theorem Expr.Formed.absent {α : Type} : (Expr.absent : Expr α).Formed P :=
  Every.absent

theorem Expr.Formed.node_iff {α : Type} {l : Option Location} {form : Form α} :
    (Expr.node l form).Formed P ↔
      ((∃ place, l = some place ∧ P place) ∧ form.Complete) ∧ ∀ e ∈ form.parts, e.Formed P :=
  Every.node_iff

theorem Form.Formed.node {α : Type} {form : Form α} (h : form.Formed P) {l : Location} (hl : P l) :
    (Expr.node (some l) form).Formed P :=
  .node ⟨⟨l, rfl, hl⟩, h.complete⟩ h.parts

/--
The tree is there, and it is well formed.
-/
structure Expr.Solid (P : Location → Prop) (e : Expr Literal) : Prop where
  present : ¬ e.isAbsent
  formed : e.Formed P

theorem Form.Formed.solid {form : Form Literal} (h : form.Formed P) {l : Location} (hl : P l) :
    (Expr.node (some l) form).Solid P :=
  ⟨by simp [Expr.isAbsent], h.node hl⟩

/-! Reading. -/

theorem Atom.toForm_formed (location : Location) (a : Atom) :
    Parsed (Form.Formed P) (a.toForm location) := by
  unfold toForm
  split
  . dsimp only
    split
    . exact ⟨trivial, nofun⟩
    . apply refuse_parsed
  . dsimp only
    split
    . apply refuse_parsed
    . exact ⟨trivial, nofun⟩
  . exact ⟨trivial, nofun⟩
  . exact ⟨trivial, nofun⟩
  . split
    . exact ⟨trivial, nofun⟩
    . exact ⟨trivial, nofun⟩

theorem Datum.typeName_known (d : Datum) :
    Parsed (fun type => type = .number ∨ ∃ k, type = .kind k) d.typeName := by
  unfold typeName
  split
  . split
    . apply refuse_parsed
    . next name _ _ hknown =>
      cases htype : TypeName.ofText name with
      | kind k => exact .inr ⟨k, rfl⟩
      | number => exact .inl rfl
      | unknown name' => exact absurd htype (hknown name')
  . apply refuse_parsed

namespace Argument

structure Formed (P : Location → Prop) (a : Argument) : Prop where
  place : P a.datum.location
  expr : Parsed (Expr.Solid P) a.expr

variable {args : List Argument}

theorem exprs_solid (h : ∀ a ∈ args, a.Formed P) :
    Parsed (fun es => ∀ e ∈ es, e.Solid P) (exprs args) := by
  apply Parsed.mapM
  intro a ha
  exact (h a ha).expr

theorem exprs_formed (h : ∀ a ∈ args, a.Formed P) :
    Parsed (fun es => ∀ e ∈ es, e.Formed P) (exprs args) :=
  (exprs_solid h).mono fun _ hes e he => (hes e he).formed

theorem body_formed (h : ∀ a ∈ args, a.Formed P) : Parsed (Expr.Formed P) (body args) := by
  unfold body
  split
  . exact .absent
  . exact (h _ (by simp)).expr.mono fun e he => he.formed
  . apply Parsed.bind (exprs_formed h)
    intro es hes
    have hbody : (Form.sequence es).Formed P := ⟨trivial, hes⟩
    exact hbody.node (h _ (by simp)).place

theorem body_solid (h : ∀ a ∈ args, a.Formed P) (hargs : args ≠ []) :
    Parsed (Expr.Solid P) (body args) := by
  unfold body
  split
  . contradiction
  . exact (h _ (by simp)).expr
  . apply Parsed.bind (exprs_formed h)
    intro es hes
    have hbody : (Form.sequence es).Formed P := ⟨trivial, hes⟩
    exact hbody.solid (h _ (by simp)).place

end Argument

namespace SpecialForm

theorem arith_mem_all {op : ArithOp} : arith op ∈ all ↔ op ∈ ArithOp.all := by
  simp [all]

theorem compare_mem_all {op : CompareOp} : compare op ∈ all ↔ op ∈ CompareOp.all := by
  simp [all]

theorem logic_mem_all {op : LogicOp} : logic op ∈ all ↔ op ∈ LogicOp.all := by
  simp [all]

-- As in the proof that the parts are located, one walk from left to right fits every form.
theorem assemble_formed {form : SpecialForm} (hform : form ∈ all) {location : Location}
    (hlocation : P location) {args : List Argument} (h : ∀ a ∈ args, a.Formed P) :
    Parsed (Form.Formed P) (form.assemble location args) := by
  unfold assemble
  split
  all_goals
    repeat
      first
      | refine Parsed.bind (h _ (by simp)).expr ?_; rintro e ⟨hpresent, hformed⟩
      | apply refuse_parsed
      | refine Parsed.bind (Datum.bindable_parsed _ _) ?_; intro name _
      | refine Parsed.bind (Datum.bindableAll_parsed _ Argument.datum _) ?_; intro names _
      | refine Parsed.bind (Datum.parameters_parsed _) ?_; intro params _
      | refine Parsed.bind (Datum.typeName_known _) ?_; intro type htype
      | refine Parsed.bind (Argument.exprs_formed h) ?_; intro es hes
      -- A loop with more than three arguments has a body.
      | refine Parsed.bind (Argument.body_solid (fun a ha => h a (by simp [ha])) (by assumption)) ?_
        rintro e ⟨hpresent, hformed⟩
      | refine Parsed.bind (Argument.body_formed fun a ha => h a (by simp [ha])) ?_; intro e he
  all_goals constructor
  all_goals
    simp_all [Form.Complete, Form.parts, Expr.IsLambda, Expr.Formed.absent, Expr.Formed.node_iff,
      arith_mem_all, compare_mem_all, logic_mem_all]

end SpecialForm

namespace Datum

mutual

theorem toExpr_solid (d : Datum) (hd : ∀ l ∈ d.places, P l) : Parsed (Expr.Solid P) d.toExpr := by
  have hplace := hd _ d.location_mem_places
  cases d with
  | atom location a =>
    rw [toExpr]
    apply Parsed.bind (Atom.toForm_formed location a)
    intro form hform
    exact hform.solid hplace
  | list location items =>
    cases items with
    | nil =>
      rw [toExpr]
      apply refuse_parsed
    | cons head args =>
      simp only [places, placesAll, List.forall_mem_cons, List.forall_mem_append] at hd
      have hformed := toArguments_formed args hd.2.2
      have hexprs := Argument.exprs_formed hformed
      rw [toExpr.eq_def]
      dsimp only
      split
      . apply Parsed.bind (toExpr_solid _ hd.2.1)
        intro callee hcallee
        apply Parsed.bind hexprs
        intro es hes
        have hform : (Form.apply callee es).Formed P :=
          ⟨trivial, List.forall_mem_cons.2 ⟨hcallee.formed, hes⟩⟩
        exact hform.solid hplace
      . next name =>
        split
        . apply refuse_parsed
        . split
          . apply Parsed.bind (toCases_formed args hd.2.2)
            intro cases hcases
            exact hcases.solid hplace
          . next form hname =>
            split
            . apply Parsed.bind
                (SpecialForm.assemble_formed (SpecialForm.ofText?_eq_some hname).1 hplace hformed)
              intro form hform
              exact hform.solid hplace
            . apply refuse_parsed
          . apply Parsed.bind hexprs
            intro es hes
            have hform : (Form.call name es).Formed P := ⟨trivial, hes⟩
            exact hform.solid hplace
      . apply refuse_parsed

theorem toArguments_formed (ds : List Datum) (hds : ∀ l ∈ placesAll ds, P l) :
    ∀ a ∈ toArguments ds, a.Formed P := by
  cases ds with
  | nil => simp [toArguments]
  | cons d rest =>
    rw [placesAll, List.forall_mem_append] at hds
    rw [toArguments, List.forall_mem_cons]
    constructor
    . exact ⟨hds.1 _ d.location_mem_places, toExpr_solid d hds.1⟩
    . exact toArguments_formed rest hds.2

theorem toCases_formed (ds : List Datum) (hds : ∀ l ∈ placesAll ds, P l) :
    Parsed (fun cases => (Form.cond cases).Formed P) (toCases ds) := by
  cases ds with
  | nil =>
    rw [toCases]
    exact ⟨nofun, nofun⟩
  | cons d rest =>
    rw [placesAll, List.forall_mem_append] at hds
    cases d with
    | atom location a =>
      rw [toCases]
      apply refuse_parsed
    | list location items =>
      rw [toCases]
      split
      . apply refuse_parsed
      . simp only [places, List.forall_mem_cons] at hds
        apply Parsed.bind (Argument.exprs_solid (toArguments_formed items hds.1.2))
        intro parts hparts
        apply Parsed.bind (toCases_formed rest hds.2)
        intro cases hcases
        have hpart : ∀ i : Nat, (parts[i]?.getD .absent).Formed P := by
          intro i
          cases hi : parts[i]? with
          | none => exact .absent
          | some e => exact (hparts e (List.mem_of_getElem? hi)).formed
        constructor
        . refine List.forall_mem_cons.2 ⟨?_, hcases.complete⟩
          cases parts with
          | nil => simp [Expr.isAbsent]
          | cons e es => exact fun _ => (hparts e List.mem_cons_self).present
        . simp only [Form.parts, List.flatMap_cons, List.forall_mem_append, List.forall_mem_cons]
          exact ⟨⟨hpart 0, hpart 1, by simp⟩, hcases.parts⟩

end

end Datum

/-! Where data begin. -/

/--
The datum is one of the data, or stands in one of them.
-/
inductive Datum.Among (d : Datum) : List Datum → Prop where
  | here {ds : List Datum} (h : d ∈ ds) : Among d ds
  | inside {ds items : List Datum} {l : Location} (hmem : .list l items ∈ ds) (h : Among d items) :
      Among d ds

/--
The lexeme that a datum begins with.
-/
def Datum.first : Datum → Lexeme
  | .atom _ a => .atom a
  | .list _ _ => .opening

/--
The location is that of a datum of the source text, and its line and its column are those where the datum
begins in the text.
-/
def BeginsDatum (file : String) (source : List Char) (l : Location) : Prop :=
  ∃ (data : List Datum) (d : Datum), Datum.readAll file source = .ok data ∧ d.Among data ∧
    d.location = l ∧ d.first.StandsAt source l

namespace Datum

mutual

theorem mem_places_among {l : Location} (d : Datum) (h : l ∈ d.places) :
    ∃ d' : Datum, d'.Among [d] ∧ d'.location = l := by
  cases d with
  | atom location a =>
    rw [places, List.mem_singleton] at h
    exact ⟨.atom location a, .here (by simp), h.symm⟩
  | list location items =>
    rw [places, List.mem_cons] at h
    cases h with
    | inl h => exact ⟨.list location items, .here (by simp), h.symm⟩
    | inr h =>
      obtain ⟨d', hd', hl⟩ := mem_placesAll_among items h
      exact ⟨d', .inside List.mem_cons_self hd', hl⟩

theorem mem_placesAll_among {l : Location} (ds : List Datum) (h : l ∈ placesAll ds) :
    ∃ d : Datum, d.Among ds ∧ d.location = l := by
  cases ds with
  | nil => simp [placesAll] at h
  | cons d ds =>
    rw [placesAll, List.mem_append] at h
    cases h with
    | inl h =>
      obtain ⟨d', hd', hl⟩ := mem_places_among d h
      refine ⟨d', ?_, hl⟩
      cases hd' with
      | here hmem => exact .here (List.mem_cons.2 (.inl (List.mem_singleton.1 hmem)))
      | inside hmem hinside =>
        exact .inside (List.mem_cons.2 (.inl (List.mem_singleton.1 hmem))) hinside
    | inr h =>
      obtain ⟨d', hd', hl⟩ := mem_placesAll_among ds h
      refine ⟨d', ?_, hl⟩
      cases hd' with
      | here hmem => exact .here (List.mem_cons_of_mem d hmem)
      | inside hmem hinside => exact .inside (List.mem_cons_of_mem d hmem) hinside

end

theorem Among.stands {source : List Char} {d : Datum} {ds : List Datum} (h : d.Among ds)
    (hds : ∀ d ∈ ds, d.Sited source) : d.first.StandsAt source d.location := by
  induction h with
  | here hmem =>
    cases hds _ hmem with
    | atom h => exact h
    | list h _ => exact h
  | inside hmem _ ih =>
    cases hds _ hmem with
    | list _ hitems => exact ih hitems

end Datum

theorem Expr.parse_solid {file : String} {source : List Char} {forms : List (Expr Literal)}
    (h : Expr.parse file source = .ok forms) : ∀ e ∈ forms, e.Solid (BeginsDatum file source) := by
  cases hdata : Datum.readAll file source with
  | error e => simp [Expr.parse, hdata, bind, Except.bind] at h
  | ok data =>
    have hplaces : ∀ l ∈ Datum.placesAll data, BeginsDatum file source l := by
      intro l hl
      obtain ⟨d, hd, rfl⟩ := Datum.mem_placesAll_among data hl
      exact ⟨data, d, hdata, hd, rfl, hd.stands (Datum.readAll_sited hdata)⟩
    have hsolid : Parsed (fun forms => ∀ e ∈ forms, e.Solid (BeginsDatum file source))
        (data.mapM Datum.toExpr) := by
      apply Parsed.mapM
      intro d hd
      apply Datum.toExpr_solid
      intro l hl
      exact hplaces l (Datum.mem_placesAll.2 ⟨d, hd, hl⟩)
    have hforms : data.mapM Datum.toExpr = .ok forms := by
      simpa [Expr.parse, hdata, bind, Except.bind] using h
    rwa [hforms] at hsolid

/-! Loading. -/

/--
A value that can be written as a literal.
-/
def Value.IsConstant : Value → Prop
  | .null | .integer _ | .real _ | .char _ | .boolean _ | .string _ => True
  | _ => False

/--
The form is complete, and if it is a literal, its value can be written as one.
-/
structure Form.Loaded (form : Form Value) : Prop where
  complete : form.Complete
  constant : ∀ v, form = .literal v → v.IsConstant

theorem Literal.toValue_isConstant (l : Literal) (s : Store) : (l.toValue s).1.IsConstant := by
  cases l <;> trivial

@[simp]
theorem Expr.isAbsent_load (e : Expr Literal) (s : Store) : (e.load s).1.isAbsent = e.isAbsent := by
  cases e <;> rfl

theorem Expr.loadCases_complete {cases : List (Expr Literal × Expr Literal)}
    (h : (Form.cond cases).Complete) (s : Store) : (Form.cond (loadCases cases s).1).Complete := by
  induction cases generalizing s with
  | nil => exact nofun
  | cons c rest ih =>
    obtain ⟨predicate, result⟩ := c
    obtain ⟨hfirst, hrest⟩ := List.forall_mem_cons.1 h
    refine List.forall_mem_cons.2 ⟨?_, ih hrest _⟩
    simpa using hfirst

theorem Expr.IsLambda.load {e : Expr Literal} (h : e.IsLambda) (s : Store) : (e.load s).1.IsLambda := by
  obtain ⟨location, site, params, body, rfl⟩ := h
  exact ⟨_, _, _, _, rfl⟩

theorem Form.Complete.load {form : Form Literal} (h : form.Complete) (s : Store) :
    (form.load s).1.Loaded := by
  have hpresent {e : Expr Literal} (he : ¬ e.isAbsent) (t : Store) : ¬ (e.load t).1.isAbsent := by
    rwa [Expr.isAbsent_load]
  cases form with
  | literal l =>
    refine ⟨trivial, ?_⟩
    rintro v ⟨⟩
    exact l.toValue_isConstant s
  | arith op left right => exact ⟨⟨h.1, hpresent h.2.1 _, hpresent h.2.2 _⟩, nofun⟩
  | compare op left right => exact ⟨⟨h.1, hpresent h.2.1 _, hpresent h.2.2 _⟩, nofun⟩
  | logic op left right => exact ⟨⟨h.1, hpresent h.2.1 _, hpresent h.2.2 _⟩, nofun⟩
  | branch condition onTrue onFalse => exact ⟨⟨hpresent h.1 _, hpresent h.2 _⟩, nofun⟩
  | loop start condition advance body => exact ⟨⟨hpresent h.1 _, hpresent h.2 _⟩, nofun⟩
  | cond cases => exact ⟨Expr.loadCases_complete h s, nofun⟩
  | isType operand type => exact ⟨h, nofun⟩
  | function name lambda => exact ⟨Expr.IsLambda.load h s, nofun⟩
  | _ => exact ⟨trivial, nofun⟩

/--
Every node of a tree that was loaded is at a location of which `P` holds, and its form is complete and
loaded.
-/
def Expr.FormedWith (P : Location → Prop) (e : Expr Value) : Prop :=
  e.Every fun location form => (∃ l, location = some l ∧ P l) ∧ form.Loaded

theorem Expr.loadAll_forall {Q : Expr Value → Prop} {es : List (Expr Literal)}
    (h : ∀ e ∈ es, ∀ s, Q (e.load s).1) (s : Store) : ∀ e ∈ (loadAll es s).1, Q e := by
  induction es generalizing s with
  | nil => exact nofun
  | cons e es ih =>
    have hload : (loadAll (e :: es) s).1 = (e.load s).1 :: (loadAll es (e.load s).2).1 := rfl
    obtain ⟨he, hes⟩ := List.forall_mem_cons.1 h
    rw [hload]
    exact List.forall_mem_cons.2 ⟨he s, ih hes _⟩

theorem Expr.Formed.load {e : Expr Literal} (h : e.Formed P) (s : Store) :
    (e.load s).1.FormedWith P := by
  unfold Formed at h
  induction h generalizing s with
  | absent => exact .absent
  | @node location form here _ ih =>
    obtain ⟨t, hform⟩ := form.load_parts s
    apply Every.node ⟨here.1, here.2.load s⟩
    rw [hform.parts]
    exact loadAll_forall ih t

end LispScript
