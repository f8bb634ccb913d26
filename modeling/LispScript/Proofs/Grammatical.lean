import LispScript.Fault
import LispScript.Grammar

/-!
This module contains the grammar of source text, and the proof that a datum is taken as an expression
exactly if it is a form of it. `Datum.Fits` is the grammar: each place of a form wants a form, a name, a
parameter list, a type or a case, and `usages` lists what stands after a keyword. `Decides` says of a
step of reading when it succeeds, and that it refuses otherwise, for good and at a place of the datum.
-/

namespace LispScript

/--
What can be wanted of a part of a form.
-/
inductive Slot where
  | form
  | name
  | parameters
  | type
  | case
  deriving DecidableEq, Repr

/--
The parts of a form in order; after the fixed ones there may be any number of others, all of one sort.
-/
structure Usage where
  fixed : List Slot
  rest : Option Slot
  deriving DecidableEq, Repr

namespace Usage

def exactly (fixed : List Slot) : Usage := ⟨fixed, none⟩

def followedBy (fixed : List Slot) (rest : Slot) : Usage := ⟨fixed, some rest⟩

end Usage

/--
The names of literals. They can be neither bound nor called.
-/
def constantNames : List String :=
  ["true", "false", "null"]

def typeNames : List String :=
  ["null", "integer", "real", "char", "boolean", "string", "closure", "struct", "instance", "array",
    "number"]

/--
The keywords, with what can stand after each.
-/
def keywordUsages : List (List String × List Usage) :=
  [(["var", "="], [.exactly [.name], .exactly [.name, .form]]),
    (["?"], [.exactly [.name]]),
    (["clone", "not", "makeinstance", "strlen", "arrlen"], [.exactly [.form]]),
    (["progn", "block", "array"], [.followedBy [] .form]),
    (["if", "find"], [.exactly [.form, .form], .exactly [.form, .form, .form]]),
    (["cond"], [.followedBy [] .case]),
    (["loop"], [.followedBy [.form, .form] .form]),
    (["break", "read"], [.exactly []]),
    (["lambda"], [.followedBy [.parameters] .form]),
    (["def"], [.followedBy [.name, .parameters] .form]),
    (["istypeof"], [.exactly [.type], .exactly [.form, .type]]),
    (["print", "println"], [.exactly [], .exactly [.form]]),
    (["struct"], [.followedBy [.name] .name]),
    (["isstructname"], [.exactly [.name], .exactly [.form, .name]]),
    (["isinstanceof"], [.exactly [], .exactly [.form], .exactly [.form, .form]]),
    (["get"], [.exactly [.form, .name]]),
    (["set"], [.exactly [.form, .name, .form]]),
    (["setcharat", "substr", "arrset"], [.exactly [.form, .form, .form]]),
    (["charat", "concat", "makearray", "arrget", "arradd"], [.exactly [.form, .form]]),
    (["+", "-", "*", "/", "%"], [.exactly [.form, .form]]),
    (["==", "!=", "<", ">", "<=", ">="], [.exactly [.form, .form]]),
    (["and", "or"], [.exactly [.form, .form]])]

def usages (name : String) : Option (List Usage) :=
  (keywordUsages.find? (·.1.contains name)).map (·.2)

mutual

inductive Datum.Fits : Slot → Datum → Prop where
  | integer {l : Location} {word : String}
      (hlow : Int64.minValue.toInt ≤ Word.integerValue word.toList)
      (hhigh : Word.integerValue word.toList ≤ Int64.maxValue.toInt) :
      Fits .form (.atom l (.integer word))
  | real {l : Location} {word : String} (h : ¬ (Word.realValue word.toList).isInf) :
      Fits .form (.atom l (.real word))
  | character {l : Location} {c : Char} : Fits .form (.atom l (.character c))
  | string {l : Location} {content : String} : Fits .form (.atom l (.string content))
  | symbol {l : Location} {name : String} : Fits .form (.atom l (.symbol name))
  | application {l l' : Location} {items args : List Datum} (hhead : Fits .form (.list l' items))
      (hargs : ∀ d ∈ args, Fits .form d) : Fits .form (.list l (.list l' items :: args))
  | call {l l' : Location} {name : String} {args : List Datum} (hname : name ∉ constantNames)
      (hkeyword : usages name = none) (hargs : ∀ d ∈ args, Fits .form d) :
      Fits .form (.list l (.atom l' (.symbol name) :: args))
  | special {l l' : Location} {name : String} {args : List Datum} {us : List Usage} {u : Usage}
      (hkeyword : usages name = some us) (hu : u ∈ us) (hargs : FitAll u.fixed u.rest args) :
      Fits .form (.list l (.atom l' (.symbol name) :: args))
  | name {l : Location} {name : String} (h : name ∉ constantNames) :
      Fits .name (.atom l (.symbol name))
  | parameters {l : Location} {items : List Datum} (h : ∀ d ∈ items, Fits .name d) :
      Fits .parameters (.list l items)
  | type {l : Location} {name : String} (h : name ∈ typeNames) : Fits .type (.atom l (.symbol name))
  | case {l : Location} {items : List Datum} (hsize : items.length ≤ 2)
      (h : ∀ d ∈ items, Fits .form d) : Fits .case (.list l items)

inductive Datum.FitAll : List Slot → Option Slot → List Datum → Prop where
  | nil : FitAll [] none []
  | rest {slot : Slot} {ds : List Datum} (h : ∀ d ∈ ds, Fits slot d) : FitAll [] (some slot) ds
  | cons {slot : Slot} {fixed : List Slot} {rest : Option Slot} {d : Datum} {ds : List Datum}
      (hd : Fits slot d) (hds : FitAll fixed rest ds) : FitAll (slot :: fixed) rest (d :: ds)

end

mutual

/--
The locations of a datum and of all that is in it.
-/
def Datum.places : Datum → List Location
  | .atom l _ => [l]
  | .list l items => l :: Datum.placesAll items

def Datum.placesAll : List Datum → List Location
  | [] => []
  | d :: rest => d.places ++ Datum.placesAll rest

end

/-! Steps of reading. -/

/--
The outcome of reading something of which `P` says whether it is well formed. An error is not mended by
more text, and it has a location of which `L` holds.
-/
def Decides {α : Type} (L : Location → Prop) (P : Prop) : Except ReadError α → Prop
  | .ok _ => P
  | .error e => ¬ P ∧ e.isIncomplete = false ∧ ∃ l, e.location = some l ∧ L l

namespace Decides

variable {α β : Type} {L : Location → Prop} {P Q : Prop}

theorem congr {x : Except ReadError α} (h : Decides L P x) (hPQ : P ↔ Q) : Decides L Q x := by
  rw [← hPQ]
  exact h

theorem ok (a : α) (h : P) : Decides L P (Except.ok a) := h

theorem refuse {l : Location} (hl : L l) {fault : ReadFault} (hfault : fault.isIncomplete = false)
    (hP : ¬ P) : Decides L P (LispScript.refuse l fault : Except ReadError α) :=
  ⟨hP, hfault, l, rfl, hl⟩

theorem bind {x : Except ReadError α} {f : α → Except ReadError β} (hx : Decides L P x)
    (hf : ∀ a, Decides L Q (f a)) : Decides L (P ∧ Q) (x >>= f) := by
  cases x with
  | ok a =>
    apply (hf a).congr
    exact ⟨fun h => ⟨hx, h⟩, fun h => h.2⟩
  | error e => exact ⟨fun h => hx.1 h.1, hx.2⟩

theorem map {x : Except ReadError α} (f : α → β) (hx : Decides L P x) :
    Decides L P (x >>= fun a => pure (f a)) := by
  apply (hx.bind fun a => ok (f a) trivial).congr
  exact ⟨fun h => h.1, fun h => ⟨h, trivial⟩⟩

theorem mapM {f : α → Except ReadError β} {R : α → Prop} {xs : List α}
    (h : ∀ x ∈ xs, Decides L (R x) (f x)) : Decides L (∀ x ∈ xs, R x) (xs.mapM f) := by
  induction xs with
  | nil => exact nofun
  | cons x xs ih =>
    obtain ⟨hx, hxs⟩ := List.forall_mem_cons.1 h
    rw [List.mapM_cons]
    apply (hx.bind fun y => (ih hxs).map fun ys => y :: ys).congr
    exact List.forall_mem_cons.symm

end Decides

/-! Names, types and atoms. -/

theorem reserved?_isSome_iff (name : String) : (reserved? name).isSome ↔ name ∈ constantNames := by
  unfold reserved?
  split <;> simp_all [constantNames]

theorem TypeName.ofText_unknown_iff (name : String) :
    (∃ text, ofText name = .unknown text) ↔ name ∉ typeNames := by
  have hnames : typeNames = Kind.all.map Kind.text ++ ["number"] := rfl
  rw [hnames, List.mem_append, List.mem_singleton, List.mem_map]
  unfold ofText Kind.ofText?
  by_cases hnumber : name = "number"
  . simp [hnumber]
  . rw [if_neg hnumber]
    cases hfind : Kind.all.find? (·.text == name) with
    | none =>
      have hnone := List.find?_eq_none.1 hfind
      simp_all
    | some k =>
      have hmem := List.mem_of_find?_eq_some hfind
      have htext := List.find?_some hfind
      have hname : ∃ a, a ∈ Kind.all ∧ a.text = name := ⟨k, hmem, by simpa using htext⟩
      simp [hname]

theorem Atom.toForm_decided {L : Location → Prop} {l : Location} (hl : L l) (a : Atom) :
    Decides L (Datum.Fits .form (.atom l a)) (a.toForm l) := by
  cases a with
  | integer word =>
    simp only [toForm]
    split
    . next h => exact .ok _ (.integer h.1 h.2)
    . next hrange =>
      apply Decides.refuse hl rfl
      intro h
      cases h with
      | integer hlow hhigh => exact hrange ⟨hlow, hhigh⟩
  | real word =>
    simp only [toForm]
    split
    . apply Decides.refuse hl rfl
      intro h
      cases h
      contradiction
    . next h => exact .ok _ (.real h)
  | character c => exact .ok _ .character
  | string content => exact .ok _ .string
  | symbol name =>
    simp only [toForm]
    split
    . exact .ok _ .symbol
    . exact .ok _ .symbol

namespace Datum

variable {L : Location → Prop}

theorem location_mem_places (d : Datum) : d.location ∈ d.places := by
  cases d <;> simp [location, places]

theorem mem_placesAll {l : Location} {ds : List Datum} :
    l ∈ placesAll ds ↔ ∃ d ∈ ds, l ∈ d.places := by
  induction ds with
  | nil => simp [placesAll]
  | cons d ds ih => simp [placesAll, ih]

theorem bindable_decided {d : Datum} (hl : L d.location) (role : String) :
    Decides L (d.Fits .name) (d.bindable role) := by
  cases d with
  | list l items =>
    apply Decides.refuse hl rfl
    intro h
    cases h
  | atom l a =>
    cases a with
    | symbol name =>
      simp only [bindable, symbol?, reserved?_isSome_iff]
      split
      . next hname =>
        apply Decides.refuse hl rfl
        intro h
        cases h
        contradiction
      . next hname => exact .ok _ (.name hname)
    | _ =>
      apply Decides.refuse hl rfl
      intro h
      cases h

theorem parameters_decided {d : Datum} (hd : ∀ l ∈ d.places, L l) :
    Decides L (d.Fits .parameters) d.parameters := by
  cases d with
  | atom l a =>
    apply Decides.refuse (hd l (by simp [places])) rfl
    intro h
    cases h
  | list l items =>
    have hitems : Decides L (∀ d ∈ items, d.Fits .name) (items.mapM (bindable "parameter")) := by
      apply Decides.mapM
      intro d hmem
      apply bindable_decided
      apply hd
      exact List.mem_cons_of_mem _ (mem_placesAll.2 ⟨d, hmem, d.location_mem_places⟩)
    apply hitems.congr
    constructor
    . exact .parameters
    . intro h
      cases h
      assumption

theorem typeName_decided {d : Datum} (hl : L d.location) :
    Decides L (d.Fits .type) d.typeName := by
  cases d with
  | list l items =>
    apply Decides.refuse hl rfl
    intro h
    cases h
  | atom l a =>
    cases a with
    | symbol name =>
      have hunknown := TypeName.ofText_unknown_iff name
      simp only [typeName, symbol?]
      split
      . next text htext =>
        apply Decides.refuse hl rfl
        intro h
        cases h with
        | type h => exact hunknown.1 ⟨text, htext⟩ h
      . next htext =>
        apply Decides.ok
        apply Fits.type
        apply Classical.byContradiction
        intro hname
        obtain ⟨text, h⟩ := hunknown.2 hname
        exact htext text h
    | _ =>
      apply Decides.refuse hl rfl
      intro h
      cases h

end Datum

/-! Special forms. -/

namespace Datum.FitAll

variable {slot : Slot} {fixed : List Slot} {rest : Option Slot} {d : Datum} {ds : List Datum}

@[simp]
theorem nil_none : FitAll [] none ds ↔ ds = [] := by
  constructor
  . intro h
    cases h
    rfl
  . rintro rfl
    exact .nil

@[simp]
theorem nil_some : FitAll [] (some slot) ds ↔ ∀ d ∈ ds, d.Fits slot := by
  constructor
  . intro h
    cases h
    assumption
  . exact .rest

@[simp]
theorem cons_nil : FitAll (slot :: fixed) rest [] ↔ False := by
  constructor
  . intro h
    cases h
  . exact False.elim

@[simp]
theorem cons_cons : FitAll (slot :: fixed) rest (d :: ds) ↔ d.Fits slot ∧ FitAll fixed rest ds := by
  constructor
  . intro h
    cases h with
    | cons hd hds => exact ⟨hd, hds⟩
  . rintro ⟨hd, hds⟩
    exact .cons hd hds

end Datum.FitAll

/--
The data stand after the keyword in one of its usages.
-/
def SpecialForm.Takes (form : SpecialForm) (ds : List Datum) : Prop :=
  ∃ us, usages form.text = some us ∧ ∃ u ∈ us, Datum.FitAll u.fixed u.rest ds

structure Argument.Decided (L : Location → Prop) (a : Argument) : Prop where
  expr : Decides L (a.datum.Fits .form) a.expr
  places : ∀ l ∈ a.datum.places, L l

namespace Argument.Decided

variable {L : Location → Prop} {a : Argument} (h : a.Decided L)

include h

theorem name (role : String) : Decides L (a.datum.Fits .name) (a.datum.bindable role) :=
  Datum.bindable_decided (h.places _ a.datum.location_mem_places) role

theorem parameters : Decides L (a.datum.Fits .parameters) a.datum.parameters :=
  Datum.parameters_decided h.places

theorem typeName : Decides L (a.datum.Fits .type) a.datum.typeName :=
  Datum.typeName_decided (h.places _ a.datum.location_mem_places)

end Argument.Decided

namespace Argument

variable {L : Location → Prop} {args : List Argument} (h : ∀ a ∈ args, a.Decided L)

include h

theorem exprs_decided : Decides L (∀ a ∈ args, a.datum.Fits .form) (exprs args) :=
  .mapM fun a ha => (h a ha).expr

theorem bindableAll_decided (role : String) :
    Decides L (∀ a ∈ args, a.datum.Fits .name) (args.mapM (·.datum.bindable role)) :=
  .mapM fun a ha => (h a ha).name role

theorem body_decided : Decides L (∀ a ∈ args, a.datum.Fits .form) (body args) := by
  match args, h with
  | [], _ => exact .ok _ (by simp)
  | [a], h =>
    apply (h a (by simp)).expr.congr
    simp
  | a :: b :: rest, h => exact (exprs_decided h).map _

end Argument

/--
The arity admits every number of data that the usage has room for.
-/
def Usage.within (u : Usage) (arity : Arity) : Bool :=
  match u.rest with
  | none => arity.admits u.fixed.length
  | some _ => arity == .atLeast u.fixed.length

theorem Datum.FitAll.length_eq {fixed : List Slot} {ds : List Datum} (h : FitAll fixed none ds) :
    ds.length = fixed.length := by
  induction fixed generalizing ds with
  | nil => simp_all
  | cons slot fixed ih =>
    cases h with
    | cons hd hds => simpa using ih hds

theorem Datum.FitAll.length_le {fixed : List Slot} {slot : Slot} {ds : List Datum}
    (h : FitAll fixed (some slot) ds) : fixed.length ≤ ds.length := by
  induction fixed generalizing ds with
  | nil => simp
  | cons slot fixed ih =>
    cases h with
    | cons hd hds => simpa using ih hds

theorem Datum.FitAll.admits {u : Usage} {arity : Arity} {ds : List Datum}
    (h : FitAll u.fixed u.rest ds) (hu : u.within arity) : arity.admits ds.length := by
  obtain ⟨fixed, rest⟩ := u
  cases rest with
  | none =>
    rw [h.length_eq]
    exact hu
  | some slot =>
    have harity : arity = .atLeast fixed.length := eq_of_beq hu
    simpa [harity, Arity.admits, Arity.atLeast] using h.length_le

namespace SpecialForm

variable {L : Location → Prop}

theorem decides_usages {α : Type} {form : SpecialForm} {us : List Usage} {ds : List Datum} {P : Prop}
    {x : Except ReadError α} (hus : usages form.text = some us) (hx : Decides L P x)
    (hP : P ↔ ∃ u ∈ us, Datum.FitAll u.fixed u.rest ds) : Decides L (form.Takes ds) x := by
  apply hx.congr
  simp [Takes, hus, hP]

theorem usages_operator : ∀ form ∈ ArithOp.all.map arith ++ CompareOp.all.map compare ++
    LogicOp.all.map logic, usages form.text = some [.exactly [.form, .form]] := by
  decide +kernel

/--
With arguments that the form has room for, reading it decides whether they fit.
-/
def Decided (L : Location → Prop) (form : SpecialForm) : Prop :=
  ∀ (location : Location) (args : List Argument), (∀ a ∈ args, a.Decided L) →
    form.arity.admits args.length →
    Decides L (form.Takes (args.map Argument.datum)) (form.assemble location args)

/-! Forms that take nothing but other forms. -/

section

variable {form : SpecialForm}

theorem nullary_decided (harity : form.arity = .exactly 0)
    (hus : usages form.text = some [.exactly []]) {result : Form Literal}
    (h₀ : ∀ l, form.assemble l [] = pure result) : Decided L form := by
  intro location args h hadmits
  rw [harity] at hadmits
  match args with
  | _ :: _ => exact absurd hadmits Bool.false_ne_true
  | [] =>
    rw [h₀]
    apply decides_usages hus (.ok _ trivial)
    simp [Usage.exactly]

theorem unary_decided (harity : form.arity = .exactly 1)
    (hus : usages form.text = some [.exactly [.form]]) {f : Expr Literal → Form Literal}
    (h₁ : ∀ l a, form.assemble l [a] = a.expr >>= fun x => pure (f x)) : Decided L form := by
  intro location args h hadmits
  rw [harity] at hadmits
  match args with
  | [] | _ :: _ :: _ => exact absurd hadmits Bool.false_ne_true
  | [a] =>
    rw [h₁]
    apply decides_usages hus ((h a (by simp)).expr.map _)
    simp [Usage.exactly]

theorem binary_decided (harity : form.arity = .exactly 2)
    (hus : usages form.text = some [.exactly [.form, .form]])
    {f : Expr Literal → Expr Literal → Form Literal}
    (h₂ : ∀ l a b, form.assemble l [a, b] = a.expr >>= fun x => b.expr >>= fun y => pure (f x y)) :
    Decided L form := by
  intro location args h hadmits
  rw [harity] at hadmits
  match args with
  | [] | [_] | _ :: _ :: _ :: _ => exact absurd hadmits Bool.false_ne_true
  | [a, b] =>
    rw [h₂]
    apply decides_usages hus ((h a (by simp)).expr.bind fun _ => (h b (by simp)).expr.map _)
    simp [Usage.exactly]

theorem ternary_decided (harity : form.arity = .exactly 3)
    (hus : usages form.text = some [.exactly [.form, .form, .form]])
    {f : Expr Literal → Expr Literal → Expr Literal → Form Literal}
    (h₃ : ∀ l a b c, form.assemble l [a, b, c]
      = a.expr >>= fun x => b.expr >>= fun y => c.expr >>= fun z => pure (f x y z)) :
    Decided L form := by
  intro location args h hadmits
  rw [harity] at hadmits
  match args with
  | [] | [_] | [_, _] | _ :: _ :: _ :: _ :: _ => exact absurd hadmits Bool.false_ne_true
  | [a, b, c] =>
    rw [h₃]
    apply decides_usages hus ((h a (by simp)).expr.bind fun _ => (h b (by simp)).expr.bind fun _ =>
      (h c (by simp)).expr.map _)
    simp [Usage.exactly]

/--
The only operand may be left out.
-/
theorem atMostOne_decided (harity : form.arity = .between 0 1)
    (hus : usages form.text = some [.exactly [], .exactly [.form]]) {f : Expr Literal → Form Literal}
    (h₀ : ∀ l, form.assemble l [] = pure (f .absent))
    (h₁ : ∀ l a, form.assemble l [a] = a.expr >>= fun x => pure (f x)) : Decided L form := by
  intro location args h hadmits
  rw [harity] at hadmits
  match args with
  | _ :: _ :: _ => exact absurd hadmits Bool.false_ne_true
  | [] =>
    rw [h₀]
    apply decides_usages hus (.ok _ trivial)
    simp [Usage.exactly]
  | [a] =>
    rw [h₁]
    apply decides_usages hus ((h a (by simp)).expr.map _)
    simp [Usage.exactly]

/--
The last of three operands may be left out.
-/
theorem twoOrThree_decided (harity : form.arity = .between 2 3)
    (hus : usages form.text = some [.exactly [.form, .form], .exactly [.form, .form, .form]])
    {f : Expr Literal → Expr Literal → Expr Literal → Form Literal}
    (h₂ : ∀ l a b, form.assemble l [a, b]
      = a.expr >>= fun x => b.expr >>= fun y => pure (f x y .absent))
    (h₃ : ∀ l a b c, form.assemble l [a, b, c]
      = a.expr >>= fun x => b.expr >>= fun y => c.expr >>= fun z => pure (f x y z)) :
    Decided L form := by
  intro location args h hadmits
  rw [harity] at hadmits
  match args with
  | [] | [_] | _ :: _ :: _ :: _ :: _ => exact absurd hadmits Bool.false_ne_true
  | [a, b] =>
    rw [h₂]
    apply decides_usages hus ((h a (by simp)).expr.bind fun _ => (h b (by simp)).expr.map _)
    simp [Usage.exactly]
  | [a, b, c] =>
    rw [h₃]
    apply decides_usages hus ((h a (by simp)).expr.bind fun _ => (h b (by simp)).expr.bind fun _ =>
      (h c (by simp)).expr.map _)
    simp [Usage.exactly]

theorem forms_decided (hus : usages form.text = some [.followedBy [] .form])
    {f : List (Expr Literal) → Form Literal}
    (h : ∀ l args, form.assemble l args = Argument.exprs args >>= fun xs => pure (f xs)) :
    Decided L form := by
  intro location args hargs _
  rw [h]
  apply decides_usages hus ((Argument.exprs_decided hargs).map _)
  simp [Usage.followedBy]

end

theorem loop_decided : Decided L .loop := by
  intro location args h hadmits
  match args with
  | [] | [_] => exact absurd hadmits Bool.false_ne_true
  | [a, b] =>
    apply decides_usages rfl ((h a (by simp)).expr.bind fun _ => (h b (by simp)).expr.map _)
    simp [Usage.followedBy]
  | [a, b, c] =>
    apply decides_usages rfl ((h a (by simp)).expr.bind fun _ => (h b (by simp)).expr.bind fun _ =>
      (h c (by simp)).expr.map _)
    simp [Usage.followedBy]
  | a :: b :: c :: d :: forms =>
    have hforms := Argument.body_decided fun e (he : e ∈ d :: forms) =>
      h e (by simp [List.mem_cons.1 he])
    apply decides_usages rfl ((h a (by simp)).expr.bind fun _ => (h b (by simp)).expr.bind fun _ =>
      (h c (by simp)).expr.bind fun _ => hforms.map _)
    simp [Usage.followedBy]

theorem isRecordOf_decided : Decided L .isRecordOf := by
  intro location args h hadmits
  match args with
  | _ :: _ :: _ :: _ => exact absurd hadmits Bool.false_ne_true
  | [] =>
    apply decides_usages rfl (.ok _ trivial)
    simp [Usage.exactly]
  | [a] =>
    apply decides_usages rfl ((h a (by simp)).expr.map _)
    simp [Usage.exactly]
  | [a, b] =>
    apply decides_usages rfl ((h a (by simp)).expr.bind fun _ => (h b (by simp)).expr.map _)
    simp [Usage.exactly]

/-! Forms that take names, parameters or types. -/

/--
A name is given a value, which may be left out.
-/
theorem binding_decided {form : SpecialForm} (harity : form.arity = .between 1 2)
    (hus : usages form.text = some [.exactly [.name], .exactly [.name, .form]]) {role : String}
    {f : String → Expr Literal → Form Literal}
    (h₁ : ∀ l a, form.assemble l [a] = a.datum.bindable role >>= fun name => pure (f name .absent))
    (h₂ : ∀ l a b, form.assemble l [a, b]
      = a.datum.bindable role >>= fun name => b.expr >>= fun x => pure (f name x)) :
    Decided L form := by
  intro location args h hadmits
  rw [harity] at hadmits
  match args with
  | [] | _ :: _ :: _ :: _ => exact absurd hadmits Bool.false_ne_true
  | [a] =>
    rw [h₁]
    apply decides_usages hus (((h a (by simp)).name _).map _)
    simp [Usage.exactly]
  | [a, b] =>
    rw [h₂]
    apply decides_usages hus (((h a (by simp)).name _).bind fun _ => (h b (by simp)).expr.map _)
    simp [Usage.exactly]

theorem isBound_decided : Decided L .isBound := by
  intro location args h hadmits
  match args with
  | [] | _ :: _ :: _ => exact absurd hadmits Bool.false_ne_true
  | [a] =>
    apply decides_usages rfl (((h a (by simp)).name _).map _)
    simp [Usage.exactly]

theorem lambda_decided : Decided L .lambda := by
  intro location args h hadmits
  match args with
  | [] => exact absurd hadmits Bool.false_ne_true
  | a :: forms =>
    have hforms := Argument.body_decided fun b (hb : b ∈ forms) => h b (by simp [hb])
    apply decides_usages rfl ((h a (by simp)).parameters.bind fun _ => hforms.map _)
    simp [Usage.followedBy]

theorem function_decided : Decided L .function := by
  intro location args h hadmits
  match args with
  | [] | [_] => exact absurd hadmits Bool.false_ne_true
  | a :: b :: forms =>
    have hforms := Argument.body_decided fun c (hc : c ∈ forms) => h c (by simp [hc])
    apply decides_usages rfl (((h a (by simp)).name _).bind fun _ =>
      (h b (by simp)).parameters.bind fun _ => hforms.map _)
    simp [Usage.followedBy]

theorem isType_decided : Decided L .isType := by
  intro location args h hadmits
  match args with
  | [] | _ :: _ :: _ :: _ => exact absurd hadmits Bool.false_ne_true
  | [a] =>
    apply decides_usages rfl ((h a (by simp)).typeName.map _)
    simp [Usage.exactly]
  | [a, b] =>
    -- The last part is read first.
    apply decides_usages rfl ((h b (by simp)).typeName.bind fun _ => (h a (by simp)).expr.map _)
    rw [and_comm]
    simp [Usage.exactly]

theorem recordType_decided : Decided L .recordType := by
  intro location args h hadmits
  match args with
  | [] => exact absurd hadmits Bool.false_ne_true
  | a :: members =>
    have hmembers := Argument.bindableAll_decided fun b (hb : b ∈ members) => h b (by simp [hb])
    apply decides_usages rfl (((h a (by simp)).name _).bind fun _ => (hmembers _).map _)
    simp [Usage.followedBy]

theorem isTypeNamed_decided : Decided L .isTypeNamed := by
  intro location args h hadmits
  match args with
  | [] | _ :: _ :: _ :: _ => exact absurd hadmits Bool.false_ne_true
  | [a] =>
    apply decides_usages rfl (((h a (by simp)).name _).map _)
    simp [Usage.exactly]
  | [a, b] =>
    -- Here too.
    apply decides_usages rfl (((h b (by simp)).name _).bind fun _ => (h a (by simp)).expr.map _)
    rw [and_comm]
    simp [Usage.exactly]

theorem getMember_decided : Decided L .getMember := by
  intro location args h hadmits
  match args with
  | [] | [_] | _ :: _ :: _ :: _ => exact absurd hadmits Bool.false_ne_true
  | [a, b] =>
    apply decides_usages rfl ((h a (by simp)).expr.bind fun _ => ((h b (by simp)).name _).map _)
    simp [Usage.exactly]

theorem setMember_decided : Decided L .setMember := by
  intro location args h hadmits
  match args with
  | [] | [_] | [_, _] | _ :: _ :: _ :: _ :: _ => exact absurd hadmits Bool.false_ne_true
  | [a, b, c] =>
    apply decides_usages rfl ((h a (by simp)).expr.bind fun _ => ((h b (by simp)).name _).bind fun _ =>
      (h c (by simp)).expr.map _)
    simp [Usage.exactly]

theorem assemble_decided {form : SpecialForm} (hform : form ∈ all) (hcond : form ≠ .cond) :
    Decided L form := by
  cases form with
  | cond => exact absurd rfl hcond
  | var | assign => exact binding_decided rfl rfl (fun _ _ => rfl) fun _ _ _ => rfl
  | isBound => exact isBound_decided
  | progn | block | arrayOf => exact forms_decided rfl fun _ _ => rfl
  | branch | find => exact twoOrThree_decided rfl rfl (fun _ _ _ => rfl) fun _ _ _ _ => rfl
  | loop => exact loop_decided
  | breakLoop | read => exact nullary_decided rfl rfl fun _ => rfl
  | clone | negate | makeRecord | stringLength | arrayLength =>
    exact unary_decided rfl rfl fun _ _ => rfl
  | lambda => exact lambda_decided
  | function => exact function_decided
  | isType => exact isType_decided
  | print | println => exact atMostOne_decided rfl rfl (fun _ => rfl) fun _ _ => rfl
  | recordType => exact recordType_decided
  | isTypeNamed => exact isTypeNamed_decided
  | isRecordOf => exact isRecordOf_decided
  | getMember => exact getMember_decided
  | setMember => exact setMember_decided
  | charAt | concat | makeArray | arrayGet | arrayAdd => exact binary_decided rfl rfl fun _ _ _ => rfl
  | setCharAt | substring | arraySet => exact ternary_decided rfl rfl fun _ _ _ _ => rfl
  | arith | compare | logic =>
    exact binary_decided rfl (usages_operator _ (by simpa [all] using hform)) fun _ _ _ => rfl

theorem takes_cond {ds : List Datum} : cond.Takes ds ↔ ∀ d ∈ ds, d.Fits .case := by
  have hus : usages cond.text = some [.followedBy [] .case] := rfl
  simp [Takes, hus, Usage.followedBy]

theorem usages_within :
    ∀ form ∈ all, ∃ us, usages form.text = some us ∧ ∀ u ∈ us, u.within form.arity := by
  have h : ∀ form ∈ all, (usages form.text).any (·.all (·.within form.arity)) := by decide +kernel
  simpa [Option.any_eq_true] using h

theorem Takes.admits {form : SpecialForm} (hform : form ∈ all) {ds : List Datum}
    (h : form.Takes ds) : form.arity.admits ds.length := by
  obtain ⟨us, hus, u, hu, hfit⟩ := h
  obtain ⟨us', hus', hwithin⟩ := usages_within form hform
  obtain rfl : us = us' := Option.some.inj (hus.symm.trans hus')
  exact hfit.admits (hwithin u hu)

theorem ofText?_eq_some {name : String} {form : SpecialForm} (h : ofText? name = some form) :
    form ∈ all ∧ form.text = name :=
  ⟨List.mem_of_find?_eq_some h, by simpa using List.find?_some h⟩

theorem usages_of_ofText?_eq_none {name : String} (h : ofText? name = none) : usages name = none := by
  have hkeywords : ∀ row ∈ keywordUsages, ∀ name ∈ row.1, ofText? name ≠ none := by decide +kernel
  unfold usages
  rw [Option.map_eq_none_iff, List.find?_eq_none]
  intro row hrow hname
  exact hkeywords row hrow name (by simpa using hname) h

end SpecialForm

/-! Whole data. -/

namespace Datum

variable {L : Location → Prop} {l l' : Location} {name : String} {items args : List Datum}

theorem fits_application : Fits .form (.list l (.list l' items :: args)) ↔
    Fits .form (.list l' items) ∧ ∀ d ∈ args, Fits .form d := by
  constructor
  . intro h
    cases h with
    | application hhead hargs => exact ⟨hhead, hargs⟩
  . rintro ⟨hhead, hargs⟩
    exact .application hhead hargs

theorem fits_call (hname : name ∉ constantNames) (hkeyword : usages name = none) :
    Fits .form (.list l (.atom l' (.symbol name) :: args)) ↔ ∀ d ∈ args, Fits .form d := by
  constructor
  . intro h
    cases h with
    | call _ _ hargs => exact hargs
    | special hus => simp [hkeyword] at hus
  . exact .call hname hkeyword

theorem fits_special {form : SpecialForm} (hform : SpecialForm.ofText? name = some form) :
    Fits .form (.list l (.atom l' (.symbol name) :: args)) ↔ form.Takes args := by
  obtain ⟨hmem, rfl⟩ := SpecialForm.ofText?_eq_some hform
  obtain ⟨us, hus, _⟩ := SpecialForm.usages_within form hmem
  constructor
  . intro h
    cases h with
    | call _ hnone => simp [hus] at hnone
    | special hus hu hargs => exact ⟨_, hus, _, hu, hargs⟩
  . rintro ⟨us, hus, u, hu, hargs⟩
    exact .special hus hu hargs

theorem not_fits_constant (hname : name ∈ constantNames) :
    ¬ Fits .form (.list l (.atom l' (.symbol name) :: args)) := by
  have hkeyword : ∀ name ∈ constantNames, usages name = none := by decide +kernel
  intro h
  cases h with
  | call h => exact h hname
  | special hus => simp [hkeyword name hname] at hus

theorem fits_case :
    Fits .case (.list l items) ↔ items.length ≤ 2 ∧ ∀ d ∈ items, Fits .form d := by
  constructor
  . intro h
    cases h with
    | case hsize hitems => exact ⟨hsize, hitems⟩
  . rintro ⟨hsize, hitems⟩
    exact .case hsize hitems

theorem toArguments_datum (ds : List Datum) : (toArguments ds).map Argument.datum = ds := by
  induction ds with
  | nil => rfl
  | cons d ds ih => rw [toArguments, List.map_cons, ih]

mutual

theorem toExpr_decided (d : Datum) (hd : ∀ l ∈ d.places, L l) :
    Decides L (d.Fits .form) d.toExpr := by
  cases d with
  | atom l a =>
    rw [toExpr]
    exact (Atom.toForm_decided (hd l (by simp [places])) a).map _
  | list l items =>
    have hl : L l := hd l (by simp [places])
    cases items with
    | nil =>
      rw [toExpr]
      apply Decides.refuse hl rfl
      intro h
      cases h
    | cons head args =>
      have hhead : ∀ l ∈ head.places, L l := fun l h => hd l (by simp [places, placesAll, h])
      have hplaces : ∀ l ∈ placesAll args, L l := fun l h => hd l (by simp [places, placesAll, h])
      have hargs := toArguments_decided args hplaces
      have hexprs : Decides L (∀ d ∈ args, d.Fits .form) (Argument.exprs (toArguments args)) := by
        apply (Argument.exprs_decided hargs).congr
        rw [← List.forall_mem_map (f := Argument.datum), toArguments_datum]
      rw [toExpr.eq_def]
      dsimp only
      split
      . apply ((toExpr_decided _ hhead).bind fun _ => hexprs.map _).congr
        exact fits_application.symm
      . next l' name =>
        have hl' : L l' := hhead l' (by simp [places])
        split
        . next hname =>
          apply Decides.refuse hl' rfl
          exact not_fits_constant ((reserved?_isSome_iff name).1 hname)
        . next hname =>
          rw [reserved?_isSome_iff] at hname
          split
          . next hform =>
            apply ((toCases_decided args hplaces).map _).congr
            rw [fits_special hform, SpecialForm.takes_cond]
          . next form hcond hform =>
            have hmem := (SpecialForm.ofText?_eq_some hform).1
            apply Decides.congr _ (fits_special hform).symm
            split
            . next hadmits =>
              have hlength : (toArguments args).length = args.length := by
                rw [← List.length_map (f := Argument.datum), toArguments_datum]
              rw [← hlength] at hadmits
              have h := SpecialForm.assemble_decided hmem (by simpa using hcond) l _ hargs hadmits
              rw [toArguments_datum] at h
              exact h.map _
            . next hadmits =>
              apply Decides.refuse hl rfl
              intro h
              exact hadmits (h.admits hmem)
          . next hform =>
            apply (hexprs.map _).congr
            exact (fits_call hname (SpecialForm.usages_of_ofText?_eq_none hform)).symm
      . next l' a hsymbol =>
        apply Decides.refuse (hhead l' (by simp [places])) rfl
        intro h
        cases h <;> exact hsymbol _ rfl

theorem toArguments_decided (ds : List Datum) (hds : ∀ l ∈ placesAll ds, L l) :
    ∀ a ∈ toArguments ds, a.Decided L := by
  cases ds with
  | nil => simp [toArguments]
  | cons d rest =>
    have hd : ∀ l ∈ d.places, L l := fun l h => hds l (by simp [placesAll, h])
    rw [toArguments, List.forall_mem_cons]
    constructor
    . exact ⟨toExpr_decided d hd, hd⟩
    . exact toArguments_decided rest fun l h => hds l (by simp [placesAll, h])

theorem toCases_decided (ds : List Datum) (hds : ∀ l ∈ placesAll ds, L l) :
    Decides L (∀ d ∈ ds, d.Fits .case) (toCases ds) := by
  cases ds with
  | nil =>
    rw [toCases]
    exact .ok _ (by simp)
  | cons d rest =>
    have hd : ∀ l ∈ d.places, L l := fun l h => hds l (by simp [placesAll, h])
    cases d with
    | atom l a =>
      rw [toCases]
      apply Decides.refuse (hd l (by simp [places])) rfl
      intro h
      cases h _ List.mem_cons_self
    | list l items =>
      rw [toCases]
      split
      . next hsize =>
        apply Decides.refuse (hd l (by simp [places])) rfl
        intro h
        have hcase := fits_case.1 (h _ List.mem_cons_self)
        omega
      . next hsize =>
        have hitems := toArguments_decided items fun l h => hd l (by simp [places, h])
        have hrest := toCases_decided rest fun l h => hds l (by simp [placesAll, h])
        apply ((Argument.exprs_decided hitems).bind fun _ => hrest.map _).congr
        rw [← List.forall_mem_map (f := Argument.datum), toArguments_datum, List.forall_mem_cons,
          fits_case]
        simp [Nat.le_of_not_lt hsize]

end

theorem toExpr_grammatical (d : Datum) :
    (d.Fits .form ∧ ∃ e, d.toExpr = .ok e) ∨
    (¬ d.Fits .form ∧ ∃ e l, d.toExpr = .error e ∧ (Fault.malformed e).sort = .malformed ∧
      e.isIncomplete = false ∧ e.location = some l ∧ l ∈ d.places) := by
  have h := toExpr_decided (L := (· ∈ d.places)) d fun l hl => hl
  cases hresult : d.toExpr with
  | ok e =>
    rw [hresult] at h
    exact .inl ⟨h, e, rfl⟩
  | error e =>
    rw [hresult] at h
    obtain ⟨hfit, hcomplete, l, hlocation, hl⟩ := h
    exact .inr ⟨hfit, e, l, rfl, rfl, hcomplete, hlocation, hl⟩

end Datum

end LispScript
