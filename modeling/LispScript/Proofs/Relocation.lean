import LispScript.Grammar

/-!
This module contains the proof that the grammar looks at no location: what a form at another place is
read as differs from what the form is read as in its locations only, and so do errors.
-/

namespace LispScript

/--
The location `n` lines further down.
-/
def Location.below (n : Nat) (l : Location) : Location :=
  { l with line := l.line + n }

/--
The same place in a text of another name.
-/
def Location.inFile (file : String) (l : Location) : Location :=
  { l with file }

def ReadError.relocate (g : Location → Location) (e : ReadError) : ReadError :=
  { e with location := e.location.map g }

mutual

def Datum.relocate (g : Location → Location) : Datum → Datum
  | .atom l a => .atom (g l) a
  | .list l items => .list (g l) (Datum.relocateAll g items)

def Datum.relocateAll (g : Location → Location) : List Datum → List Datum
  | [] => []
  | d :: rest => d.relocate g :: Datum.relocateAll g rest

end

section

variable {α : Type}

mutual

def Expr.relocate (g : Location → Location) : Expr α → Expr α
  | .absent => .absent
  | .node location form => .node (location.map g) (Form.relocate g form)

def Form.relocate (g : Location → Location) : Form α → Form α
  | .literal l => .literal l
  | .symbol name => .symbol name
  | .define name value => .define name (Expr.relocate g value)
  | .assign name value => .assign name (Expr.relocate g value)
  | .isBound name => .isBound name
  | .clone operand => .clone (Expr.relocate g operand)
  | .sequence forms => .sequence (Expr.relocateAll g forms)
  | .block forms => .block (Expr.relocateAll g forms)
  | .arith op left right => .arith op (Expr.relocate g left) (Expr.relocate g right)
  | .compare op left right => .compare op (Expr.relocate g left) (Expr.relocate g right)
  | .logic op left right => .logic op (Expr.relocate g left) (Expr.relocate g right)
  | .negate operand => .negate (Expr.relocate g operand)
  | .branch condition onTrue onFalse =>
    .branch (Expr.relocate g condition) (Expr.relocate g onTrue) (Expr.relocate g onFalse)
  | .cond cases => .cond (Expr.relocateCases g cases)
  | .loop start condition advance body =>
    .loop (Expr.relocate g start) (Expr.relocate g condition) (Expr.relocate g advance)
      (Expr.relocate g body)
  | .breakLoop => .breakLoop
  | .lambda site params body => .lambda site params (Expr.relocate g body)
  | .apply callee args => .apply (Expr.relocate g callee) (Expr.relocateAll g args)
  | .function name lambda => .function name (Expr.relocate g lambda)
  | .call name args => .call name (Expr.relocateAll g args)
  | .isType operand type => .isType (Expr.relocate g operand) type
  | .print operand newline => .print (Expr.relocate g operand) newline
  | .read => .read
  | .recordType name members => .recordType name members
  | .isTypeNamed operand name => .isTypeNamed (Expr.relocate g operand) name
  | .makeRecord type => .makeRecord (Expr.relocate g type)
  | .isRecordOf operand type => .isRecordOf (Expr.relocate g operand) (Expr.relocate g type)
  | .getMember record member => .getMember (Expr.relocate g record) member
  | .setMember record member value =>
    .setMember (Expr.relocate g record) member (Expr.relocate g value)
  | .stringLength string => .stringLength (Expr.relocate g string)
  | .charAt string index => .charAt (Expr.relocate g string) (Expr.relocate g index)
  | .setCharAt string index char =>
    .setCharAt (Expr.relocate g string) (Expr.relocate g index) (Expr.relocate g char)
  | .concat string suffix => .concat (Expr.relocate g string) (Expr.relocate g suffix)
  | .substring string start length =>
    .substring (Expr.relocate g string) (Expr.relocate g start) (Expr.relocate g length)
  | .find string needle start =>
    .find (Expr.relocate g string) (Expr.relocate g needle) (Expr.relocate g start)
  | .arrayOf elements => .arrayOf (Expr.relocateAll g elements)
  | .makeArray size fill => .makeArray (Expr.relocate g size) (Expr.relocate g fill)
  | .arrayLength array => .arrayLength (Expr.relocate g array)
  | .arrayGet array index => .arrayGet (Expr.relocate g array) (Expr.relocate g index)
  | .arraySet array index value =>
    .arraySet (Expr.relocate g array) (Expr.relocate g index) (Expr.relocate g value)
  | .arrayAdd array value => .arrayAdd (Expr.relocate g array) (Expr.relocate g value)

def Expr.relocateAll (g : Location → Location) : List (Expr α) → List (Expr α)
  | [] => []
  | e :: rest => Expr.relocate g e :: Expr.relocateAll g rest

def Expr.relocateCases (g : Location → Location) : List (Expr α × Expr α) → List (Expr α × Expr α)
  | [] => []
  | (predicate, result) :: rest =>
    (Expr.relocate g predicate, Expr.relocate g result) :: Expr.relocateCases g rest

end

end

/-! Lists. -/

variable {g : Location → Location}

@[simp]
theorem Datum.relocateAll_eq_map (data : List Datum) :
    Datum.relocateAll g data = data.map (Datum.relocate g) := by
  induction data with
  | nil => rfl
  | cons d rest ih => rw [Datum.relocateAll, ih, List.map_cons]

@[simp]
theorem Expr.relocateAll_eq_map {α : Type} (es : List (Expr α)) :
    Expr.relocateAll g es = es.map (Expr.relocate g) := by
  induction es with
  | nil => rfl
  | cons e rest ih => rw [Expr.relocateAll, ih, List.map_cons]

/-! Outcomes. -/

/--
The outcome of reading at another place: `h` makes out of what was read what is read there.
-/
def relocated {α β : Type} (g : Location → Location) (h : α → β) :
    Except ReadError α → Except ReadError β
  | .ok a => .ok (h a)
  | .error e => .error (e.relocate g)

section

variable {α β γ δ : Type} {h : α → β} {k : γ → δ}

theorem eq_ok_of_relocated {x : Except ReadError α} {b : β} (hx : relocated g h x = .ok b) :
    ∃ a, x = .ok a ∧ b = h a := by
  cases x with
  | ok a =>
    cases hx
    exact ⟨a, rfl, rfl⟩
  | error e => contradiction

theorem bind_relocated {x : Except ReadError α} {x' : Except ReadError β}
    {f : α → Except ReadError γ} {f' : β → Except ReadError δ} (hx : x' = relocated g h x)
    (hf : ∀ a, f' (h a) = relocated g k (f a)) : (x' >>= f') = relocated g k (x >>= f) := by
  rw [hx]
  cases x with
  | ok a => apply hf a
  | error e => rfl

theorem mapM_relocated {f : α → Except ReadError γ} {f' : β → Except ReadError δ} {xs : List α}
    (hf : ∀ x ∈ xs, f' (h x) = relocated g k (f x)) :
    (xs.map h).mapM f' = relocated g (List.map k) (xs.mapM f) := by
  induction xs with
  | nil => rfl
  | cons x xs ih =>
    rw [List.map_cons, List.mapM_cons, List.mapM_cons]
    apply bind_relocated (hf x List.mem_cons_self)
    intro y
    apply bind_relocated
    . apply ih
      intro x' hx'
      apply hf x' (List.mem_cons_of_mem x hx')
    . intro ys
      rfl

end

/-! Atoms and names. -/

namespace Datum

@[simp]
theorem location_relocate (d : Datum) : (d.relocate g).location = g d.location := by
  cases d <;> rfl

@[simp]
theorem shape_relocate (d : Datum) : (d.relocate g).shape = d.shape := by
  cases d <;> rfl

@[simp]
theorem symbol?_relocate (d : Datum) : (d.relocate g).symbol? = d.symbol? := by
  cases d with
  | atom location a => cases a <;> rfl
  | list location items => rfl

end Datum

theorem refuse_relocate {α β : Type} {h : α → β} (location : Location) (fault : ReadFault) :
    refuse (g location) fault = relocated g h (refuse location fault) := by
  rfl

theorem Atom.toForm_relocate (location : Location) (a : Atom) :
    a.toForm (g location) = relocated g (Form.relocate g) (a.toForm location) := by
  unfold toForm
  split
  . dsimp only
    split
    . rfl
    . apply refuse_relocate
  . dsimp only
    split
    . apply refuse_relocate
    . rfl
  . rfl
  . rfl
  . split
    . rfl
    . rfl

namespace Datum

theorem bindable_relocate (role : String) (d : Datum) :
    (d.relocate g).bindable role = relocated g id (d.bindable role) := by
  unfold bindable
  rw [symbol?_relocate, location_relocate, shape_relocate]
  split
  . split
    . apply refuse_relocate
    . rfl
  . apply refuse_relocate

theorem parameters_relocate (d : Datum) :
    (d.relocate g).parameters = relocated g id d.parameters := by
  cases d with
  | atom location a => apply refuse_relocate
  | list location items =>
    rw [relocate, parameters, parameters, relocateAll_eq_map, mapM_relocated (k := id)]
    . rw [List.map_id_fun]
    . intro d _
      apply bindable_relocate

theorem typeName_relocate (d : Datum) : (d.relocate g).typeName = relocated g id d.typeName := by
  unfold typeName
  rw [symbol?_relocate, location_relocate, shape_relocate]
  split
  . split
    . apply refuse_relocate
    . rfl
  . apply refuse_relocate

end Datum

/-! Arguments and forms. -/

namespace Argument

def relocate (g : Location → Location) (a : Argument) : Argument :=
  { datum := a.datum.relocate g, expr := relocated g (Expr.relocate g) a.expr }

theorem exprs_relocate (args : List Argument) :
    exprs (args.map (relocate g)) = relocated g (Expr.relocateAll g) (exprs args) := by
  rw [exprs, exprs, mapM_relocated (k := Expr.relocate g)]
  . congr
    funext es
    rw [Expr.relocateAll_eq_map]
  . intro a _
    rfl

theorem bindableAll_relocate (role : String) (args : List Argument) :
    ((args.map (relocate g)).mapM fun a => a.datum.bindable role)
      = relocated g id (args.mapM fun a => a.datum.bindable role) := by
  rw [mapM_relocated (k := id)]
  . rw [List.map_id_fun]
  . intro a _
    apply Datum.bindable_relocate

theorem body_relocate (args : List Argument) :
    body (args.map (relocate g)) = relocated g (Expr.relocate g) (body args) := by
  match args with
  | [] => rfl
  | [a] => rfl
  | a :: b :: rest =>
    apply bind_relocated (exprs_relocate (a :: b :: rest))
    intro es
    rw [relocate, Datum.location_relocate]
    rfl

end Argument

-- Every form takes its arguments from left to right, so that one walk fits all of them. At most three
-- arguments are taken one by one, and so many have to be seen for a form to be chosen.
theorem SpecialForm.assemble_relocate (form : SpecialForm) (location : Location)
    {args : List Argument} (h : form.arity.admits args.length) :
    form.assemble (g location) (args.map (Argument.relocate g))
      = relocated g (Form.relocate g) (form.assemble location args) := by
  rcases args with _ | ⟨a, _ | ⟨b, _ | ⟨c, _ | ⟨d, rest⟩⟩⟩⟩ <;> cases form
  all_goals try exact absurd h Bool.false_ne_true
  all_goals
    repeat
      first
      | refine bind_relocated (h := Expr.relocate g) rfl ?_; intro e
      | refine bind_relocated (Datum.bindable_relocate _ _) ?_; intro name
      | refine bind_relocated (Argument.bindableAll_relocate _ _) ?_; intro names
      | refine bind_relocated (Datum.parameters_relocate _) ?_; intro params
      | refine bind_relocated (Datum.typeName_relocate _) ?_; intro type
      | refine bind_relocated (Argument.exprs_relocate _) ?_; intro es
      | refine bind_relocated (Argument.body_relocate _) ?_; intro e
  case cons.cons.cons.cons.cond =>
    show refuse _ (.arity _ _ ((a :: b :: c :: d :: rest).map _).length) = _
    rw [List.length_map]
    apply refuse_relocate
  all_goals rfl

namespace Datum

theorem toArguments_length (ds : List Datum) : (toArguments ds).length = ds.length := by
  induction ds with
  | nil => rfl
  | cons d rest ih => rw [toArguments, List.length_cons, ih, List.length_cons]

mutual

theorem toExpr_relocate (d : Datum) :
    (d.relocate g).toExpr = relocated g (Expr.relocate g) d.toExpr := by
  cases d with
  | atom location a =>
    apply bind_relocated (Atom.toForm_relocate location a)
    intro form
    rfl
  | list location items =>
    cases items with
    | nil => apply refuse_relocate
    | cons head args =>
      have hargs := toArguments_relocate args
      have hexprs := Argument.exprs_relocate (g := g) (toArguments args)
      rw [← hargs] at hexprs
      cases head with
      | list headLocation items =>
        apply bind_relocated (toExpr_relocate (.list headLocation items))
        intro callee
        apply bind_relocated hexprs
        intro es
        rfl
      | atom headLocation a =>
        cases a with
        | symbol name =>
          have hlength : (relocateAll g args).length = args.length := by simp
          rw [relocate, relocateAll, relocate, toExpr.eq_def, toExpr.eq_def]
          dsimp only
          rw [hlength]
          split
          . apply refuse_relocate
          . split
            . apply bind_relocated (toCases_relocate args)
              intro cases
              rfl
            . split
              . next hadmits =>
                rw [← toArguments_length] at hadmits
                rw [hargs]
                apply bind_relocated (SpecialForm.assemble_relocate _ location hadmits)
                intro form
                rfl
              . apply refuse_relocate
            . apply bind_relocated hexprs
              intro es
              rfl
        | _ => apply refuse_relocate

theorem toArguments_relocate (ds : List Datum) :
    toArguments (relocateAll g ds) = (toArguments ds).map (Argument.relocate g) := by
  cases ds with
  | nil => rfl
  | cons d rest =>
    rw [relocateAll, toArguments, toArguments, List.map_cons, toArguments_relocate rest,
      toExpr_relocate d]
    rfl

theorem toCases_relocate (ds : List Datum) :
    toCases (relocateAll g ds) = relocated g (Expr.relocateCases g) (toCases ds) := by
  cases ds with
  | nil => rfl
  | cons d rest =>
    cases d with
    | atom location a => apply refuse_relocate
    | list location items =>
      have hlength : (relocateAll g items).length = items.length := by simp
      rw [relocateAll, relocate, toCases, toCases, hlength]
      split
      . apply refuse_relocate
      . rw [toArguments_relocate items]
        apply bind_relocated (Argument.exprs_relocate (toArguments items))
        intro parts
        apply bind_relocated (toCases_relocate rest)
        intro cases
        have hpart : ∀ i : Nat, (Expr.relocateAll g parts)[i]?.getD .absent
            = (parts[i]?.getD .absent).relocate g := by
          intro i
          rw [Expr.relocateAll_eq_map, List.getElem?_map]
          cases parts[i]? <;> rfl
        rw [hpart, hpart]
        rfl

end

end Datum

end LispScript
