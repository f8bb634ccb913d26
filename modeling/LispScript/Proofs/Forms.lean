import LispScript.Proofs.Operation

/-!
This module contains the proof that every form follows a plan. A loop is looked at without the part
that takes care of a `break`, and the form `break` itself is left out. Blocks, branches, loops and
calls of named closures bind nothing in the frame they are evaluated in.
-/

namespace LispScript

def Form.isScoped : Form Value → Bool
  | .block _ | .branch _ _ _ | .loop _ _ _ _ | .call _ _ => true
  | _ => false

def Form.home (form : Form Value) (frame : Nat) : Option Nat :=
  if form.isScoped then none else some frame

namespace Run

/--
Evaluate a form, and let a `break` out of a loop go on.
-/
def course (run : Evaluator) (fuel frame : Nat) (location : Option Location) :
    Form Value → Run Value
  | .loop start condition advance body => do
    let scope ← create (·.addFrame (some frame))
    let _ ← run scope start
    evalLoop run scope condition advance body fuel .null
  | form => perform run fuel frame location form

theorem perform_loop (run : Evaluator) (fuel frame : Nat) (location : Option Location)
    (start condition advance body : Expr Value) :
    perform run fuel frame location (.loop start condition advance body)
      = catchBreak (course run fuel frame location (.loop start condition advance body)) := rfl

variable {G : Regime} {s : Store} {fuel frame : Nat} {location : Option Location}

theorem picked_string {t : Store} {ref : Nat}
    (h : ∃ v, G.value t v ∧ Value.string? v = some ref) : G.value t (.string ref) := by
  obtain ⟨v, hv, hpick⟩ := h
  cases v <;> cases hpick
  apply hv

theorem picked_array {t : Store} {ref : Nat}
    (h : ∃ v, G.value t v ∧ Value.array? v = some ref) : G.value t (.array ref) := by
  obtain ⟨v, hv, hpick⟩ := h
  cases v <;> cases hpick
  apply hv

theorem picked_closure {t : Store} {ref : Nat}
    (h : ∃ v, G.value t v ∧ Value.closure? v = some ref) : G.value t (.closure ref) := by
  obtain ⟨v, hv, hpick⟩ := h
  cases v <;> cases hpick
  apply hv

theorem picked_recordType {t : Store} {ref : Nat}
    (h : ∃ v, G.value t v ∧ Value.recordType? v = some ref) : G.value t (.recordType ref) := by
  obtain ⟨v, hv, hpick⟩ := h
  cases v <;> cases hpick
  apply hv

variable [G.Lawful]

open Regime.Lawful

abbrev anywhere : Nat → Expr Value → Prop := fun _ _ => True

theorem loop_plan {calls : Nat → Expr Value → Prop} {scope : Nat}
    {start condition advance body : Expr Value}
    (h : Ready G calls s scope [start, condition, advance, body]) :
    Plan G calls s (some scope)
      (fun run => do
        let _ ← run scope start
        evalLoop run scope condition advance body fuel .null) G.value := by
  apply Plan.bind
  . apply h.head
  . intro t _ hst _
    apply evalLoop_plan
    . apply h.tail.grows hst
    . exact value_of_within trivial

def Planned (G : Regime) (s : Store) (frame : Nat) (home : Option Nat) (form : Form Value) : Prop :=
  ∀ fuel location,
    Plan G anywhere s home (fun run => perform run fuel frame location form) G.value

theorem operands_plan {α : Type} {calls : Nat → Expr Value → Prop} {left right : Expr Value}
    {es : List (Expr Value)} {k : Value → Value → Evaluator → Run α} {Q : Store → α → Prop}
    (h : Ready G calls s frame (left :: right :: es))
    (hk : ∀ t l r, s.Grows t → G.value t l → G.value t r → Plan G calls t (some frame) (k l r) Q) :
    Plan G calls s (some frame)
      (fun run => run frame left >>= fun l => run frame right >>= fun r => k l r run) Q := by
  apply Plan.bind
  . apply h.head
  . intro t l hst hl
    apply Plan.bind
    . apply (h.grows hst).tail.head
    . intro u r htu hr
      apply hk u l r (hst.trans htu) (value_grows htu hl) hr

theorem answer_plan {calls : Nat → Expr Value → Prop} {home : Option Nat} {v : Value}
    (hv : G.value s v) : Plan G calls s home (fun _ => pure v) G.value :=
  Plan.pure fun _ hst => value_grows hst hv

theorem define_planned {name : String} {value : Expr Value}
    (h : Ready G anywhere s frame [value]) :
    Planned G s frame (some frame) (.define name value) := by
  intro fuel location
  apply Plan.bind
  . apply h.head
  . intro t v hst hv
    apply Plan.bind
    . apply define_plan hv
    . intro u _ htu _
      apply answer_plan (value_grows htu hv)

theorem assign_planned {name : String} {value : Expr Value}
    (h : Ready G anywhere s frame [value]) :
    Planned G s frame (some frame) (.assign name value) := by
  intro fuel location
  apply Plan.bind
  . apply h.head
  . intro t v hst hv
    apply Plan.bind
    . apply assign_plan hv
    . intro u _ htu _
      apply answer_plan (value_grows htu hv)

theorem isBound_planned {name : String} : Planned G s frame (some frame) (.isBound name) := by
  intro fuel location
  apply Plan.bind
  . apply Plan.inspect (Q := fun _ _ => True) fun _ _ _ => trivial
  . intros
    exact answer_plan (value_of_within trivial)

theorem clone_planned {operand : Expr Value}
    (h : Ready G anywhere s frame [operand]) :
    Planned G s frame (some frame) (.clone operand) := by
  intro fuel location
  apply Plan.bind
  . apply h.head
  . intro t v hst hv
    apply clone_plan hv

theorem block_planned {home : Option Nat} {forms : List (Expr Value)}
    (h : Ready G anywhere s frame forms) :
    Planned G s frame home (.block forms) := by
  intro fuel location
  apply Plan.within h.here
  intro t scope hst hscope
  apply evalSequence_plan ⟨hscope, fun _ _ => trivial, (h.grows hst).exprs⟩

theorem arith_planned {op : ArithOp} {left right : Expr Value}
    (h : Ready G anywhere s frame [left, right]) :
    Planned G s frame (some frame) (.arith op left right) := by
  intro fuel location
  apply operands_plan h
  intro t l r _ _ _
  apply Plan.ofPrimitive (Primitive.arith_sane op l r) fun u _ hv => value_of_within (hv u)

theorem compare_planned {op : CompareOp} {left right : Expr Value}
    (h : Ready G anywhere s frame [left, right]) :
    Planned G s frame (some frame) (.compare op left right) := by
  intro fuel location
  apply operands_plan h
  intro t l r _ _ _
  apply Plan.consult
  intro u _ _
  apply (Primitive.compare_sane u op l r).mono
  intro v hv
  apply value_of_within (hv u)

theorem logic_planned {op : LogicOp} {left right : Expr Value}
    (h : Ready G anywhere s frame [left, right]) :
    Planned G s frame (some frame) (.logic op left right) := by
  intro fuel location
  apply operands_plan h
  intro t l r _ _ _
  apply Plan.ofPrimitive (Primitive.logic_sane op l r) fun u _ hv => value_of_within (hv u)

theorem negate_planned {operand : Expr Value}
    (h : Ready G anywhere s frame [operand]) :
    Planned G s frame (some frame) (.negate operand) := by
  intro fuel location
  apply Plan.bind
  . apply evalOperand_plan h
  . intros
    exact answer_plan (value_of_within trivial)

theorem branch_planned {home : Option Nat} {condition onTrue onFalse : Expr Value}
    (h : Ready G anywhere s frame [condition, onTrue, onFalse]) :
    Planned G s frame home (.branch condition onTrue onFalse) := by
  intro fuel location
  apply Plan.within h.here
  intro t scope hst hscope
  have hparts : Ready G anywhere t scope [condition, onTrue, onFalse] :=
    ⟨hscope, fun _ _ => trivial, (h.grows hst).exprs⟩
  apply Plan.bind
  . apply evalCondition_plan hparts
  . intro u b htu _
    cases b with
    | true => apply (hparts.grows htu).tail.head
    | false => apply (hparts.grows htu).tail.tail.head

theorem apply_planned {callee : Expr Value} {args : List (Expr Value)}
    (h : Ready G anywhere s frame (callee :: args)) :
    Planned G s frame (some frame) (.apply callee args) := by
  intro fuel location
  apply Plan.bind
  . apply evalPart_plan h
  . intro t ref hst href
    apply evalCall_plan (fun _ _ => trivial) (h.grows hst).tail (picked_closure href)

theorem function_planned {name : String} {lambda : Expr Value}
    (h : Ready G anywhere s frame [lambda]) :
    Planned G s frame (some frame) (.function name lambda) := by
  intro fuel location
  apply Plan.bind
  . apply h.head
  . intro t v hst hv
    apply Plan.bind
    . apply define_plan hv
    . intro u _ htu _
      apply answer_plan (value_grows htu hv)

theorem call_planned {home : Option Nat} {name : String} {args : List (Expr Value)}
    (h : Ready G anywhere s frame args) :
    Planned G s frame home (.call name args) := by
  intro fuel location
  apply Plan.bind
  . apply lookup_plan
  . intro t v hst hv
    split
    . apply evalCall_plan (fun _ _ => trivial) (h.grows hst) hv
    . apply Plan.fail (.inl rfl)

theorem isType_planned {type : TypeName} {operand : Expr Value}
    (h : Ready G anywhere s frame [operand]) :
    Planned G s frame (some frame) (.isType operand type) := by
  intro fuel location
  simp only [perform]
  split
  . exact answer_plan (value_of_within trivial)
  . apply Plan.bind
    . apply h.head
    . intros
      exact answer_plan (value_of_within trivial)

theorem print_planned {newline : Bool} {operand : Expr Value}
    (h : Ready G anywhere s frame [operand]) :
    Planned G s frame (some frame) (.print operand newline) := by
  intro fuel location
  simp only [perform]
  split
  . apply Plan.bind
    . apply Plan.print
    . intros
      exact answer_plan (value_of_within trivial)
  . apply Plan.bind
    . apply h.head
    . intro t v hst hv
      apply Plan.bind
      . apply Plan.inspect (Q := fun _ _ => True) fun _ _ _ => trivial
      . intro u text htu _
        apply Plan.bind
        . apply Plan.print
        . intro w _ huw _
          apply answer_plan (value_grows (htu.trans huw) hv)

theorem recordType_planned {name : String} {members : List String} :
    Planned G s frame (some frame) (.recordType name members) := by
  intro fuel location
  apply Plan.bind
  . apply Plan.ofPrimitive (Primitive.recordType_sane name members) fun _ _ h => h
  . intros
    apply Plan.create
    . exact fun t _ _ => .addRecordType _
    . intro t _ _
      apply value_of_within
      simp [Store.addRecordType, Value.Within]

theorem isTypeNamed_planned {name : String} {operand : Expr Value}
    (h : Ready G anywhere s frame [operand]) :
    Planned G s frame (some frame) (.isTypeNamed operand name) := by
  intro fuel location
  simp only [perform]
  split
  . exact answer_plan (value_of_within trivial)
  . apply Plan.bind
    . apply h.head
    . intro t v hst hv
      split
      . apply Plan.bind
        . apply Plan.inspect (Q := fun _ _ => True) fun _ _ _ => trivial
        . intros
          exact answer_plan (value_of_within trivial)
      . exact answer_plan (value_of_within trivial)

theorem makeRecord_planned {type : Expr Value}
    (h : Ready G anywhere s frame [type]) :
    Planned G s frame (some frame) (.makeRecord type) := by
  intro fuel location
  apply Plan.bind
  . apply evalPart_plan h
  . intro t ref hst href
    apply Plan.create
    . intro u _ htu
      exact .addBlankRecord (value_grows htu (picked_recordType href))
    . intro u _ _
      apply value_of_within
      simp [Store.addBlankRecord, Store.addRecord, Value.Within]

theorem isRecordOf_planned {operand type : Expr Value}
    (h : Ready G anywhere s frame [operand, type]) :
    Planned G s frame (some frame) (.isRecordOf operand type) := by
  intro fuel location
  simp only [perform]
  split
  . exact answer_plan (value_of_within trivial)
  . apply operands_plan h
    intro t v u _ _ _
    split
    . apply Plan.bind
      . apply Plan.inspect (Q := fun _ _ => True) fun _ _ _ => trivial
      . intros
        exact answer_plan (value_of_within trivial)
    . exact answer_plan (value_of_within trivial)

theorem getMember_planned {member : String} {record : Expr Value}
    (h : Ready G anywhere s frame [record]) :
    Planned G s frame (some frame) (.getMember record member) := by
  intro fuel location
  apply Plan.bind
  . apply evalPart_plan h
  . intros
    apply Plan.bind
    . apply getMember_plan
    . intro t v _ hv
      apply present_plan hv

theorem setMember_planned {member : String} {record value : Expr Value}
    (h : Ready G anywhere s frame [record, value]) :
    Planned G s frame (some frame) (.setMember record member value) := by
  intro fuel location
  apply Plan.bind
  . apply evalPart_plan h
  . intro t ref hst _
    apply Plan.bind
    . apply (h.grows hst).tail.head
    . intro u v htu hv
      apply Plan.bind
      . apply setMember_plan hv
      . intro w _ huw _
        apply answer_plan (value_grows huw hv)

theorem stringLength_planned {string : Expr Value}
    (h : Ready G anywhere s frame [string]) :
    Planned G s frame (some frame) (.stringLength string) := by
  intro fuel location
  apply Plan.bind
  . apply evalOperand_plan h
  . intros
    apply Plan.bind
    . apply Plan.inspect (Q := fun _ _ => True) fun _ _ _ => trivial
    . intros
      exact answer_plan (value_of_within trivial)

theorem charAt_planned {string index : Expr Value}
    (h : Ready G anywhere s frame [string, index]) :
    Planned G s frame (some frame) (.charAt string index) := by
  intro fuel location
  apply Plan.bind
  . apply evalOperand_plan h
  . intro t ref hst _
    apply Plan.bind
    . apply evalOperand_plan (h.grows hst).tail
    . intros
      apply Plan.bind
      . apply charAt_plan
      . intros
        exact answer_plan (value_of_within trivial)

theorem setCharAt_planned {string index char : Expr Value}
    (h : Ready G anywhere s frame [string, index, char]) :
    Planned G s frame (some frame) (.setCharAt string index char) := by
  intro fuel location
  apply Plan.bind
  . apply evalOperand_plan h
  . intro t ref hst href
    apply Plan.bind
    . apply evalOperand_plan (h.grows hst).tail
    . intro u i htu _
      apply Plan.bind
      . apply evalOperand_plan (h.grows (hst.trans htu)).tail.tail
      . intro w c huw _
        apply Plan.bind
        . apply setCharAt_plan
        . intro x _ hwx _
          apply answer_plan
            (value_grows ((htu.trans huw).trans hwx) (picked_string href))

theorem concat_planned {string suffix : Expr Value}
    (h : Ready G anywhere s frame [string, suffix]) :
    Planned G s frame (some frame) (.concat string suffix) := by
  intro fuel location
  apply Plan.bind
  . apply evalOperand_plan h
  . intro t ref hst href
    apply Plan.bind
    . apply evalText_plan (h.grows hst).tail
    . intro u suffix htu _
      apply Plan.bind
      . apply Plan.inspect (Q := fun _ _ => True) fun _ _ _ => trivial
      . intro w chars huw _
        apply Plan.bind
        . apply Plan.update fun _ _ _ => .appendChars _ _
        . intro x _ hwx _
          apply answer_plan
            (value_grows ((htu.trans huw).trans hwx) (picked_string href))

theorem substring_planned {string start length : Expr Value}
    (h : Ready G anywhere s frame [string, start, length]) :
    Planned G s frame (some frame) (.substring string start length) := by
  intro fuel location
  apply Plan.bind
  . apply evalOperand_plan h
  . intro t ref hst _
    apply Plan.bind
    . apply evalOperand_plan (h.grows hst).tail
    . intro u i htu _
      apply Plan.bind
      . apply evalOperand_plan (h.grows (hst.trans htu)).tail.tail
      . intros
        apply substring_plan

theorem find_planned {string needle start : Expr Value}
    (h : Ready G anywhere s frame [string, needle, start]) :
    Planned G s frame (some frame) (.find string needle start) := by
  intro fuel location
  apply Plan.bind
  . apply evalOperand_plan h
  . intro t ref hst _
    apply Plan.bind
    . apply evalText_plan (h.grows hst).tail
    . intro u needle htu _
      have hfind : ∀ w i, Plan G anywhere w (some frame)
          (fun _ => find ref needle i >>= fun n => pure (.integer n)) G.value := by
        intro w i
        apply Plan.bind
        . apply find_plan
        . intros
          exact answer_plan (value_of_within trivial)
      dsimp only
      split
      . apply Plan.bind
        . apply Plan.pure (Q := fun _ _ => True) fun _ _ => trivial
        . exact fun w i _ _ => hfind w i
      . apply Plan.bind
        . apply evalOperand_plan (h.grows (hst.trans htu)).tail.tail
        . exact fun w i _ _ => hfind w i

theorem arrayOf_planned {elements : List (Expr Value)}
    (h : Ready G anywhere s frame elements) :
    Planned G s frame (some frame) (.arrayOf elements) := by
  intro fuel location
  apply Plan.bind
  . apply evalAll_plan h
  . intro t vs hst hvs
    apply Plan.create
    . intro u _ htu
      exact .addArray fun v hv => value_grows htu (hvs v hv)
    . intro u _ _
      apply value_of_within
      simp [Store.addArray, Value.Within]

theorem makeArray_planned {size fill : Expr Value}
    (h : Ready G anywhere s frame [size, fill]) :
    Planned G s frame (some frame) (.makeArray size fill) := by
  intro fuel location
  apply Plan.bind
  . apply evalOperand_plan h
  . intro t size hst _
    apply Plan.bind
    . apply Plan.ofPrimitive (Primitive.arraySize_sane size) fun _ _ h => h
    . intro u n htu _
      apply Plan.bind
      . apply (h.grows (hst.trans htu)).tail.head
      . intro w v huw hv
        apply Plan.create
        . intro x _ hwx
          apply Store.Change.addArray
          intro v' hv'
          rw [Array.eq_of_mem_replicate hv']
          apply value_grows hwx hv
        . intro x _ _
          apply value_of_within
          simp [Store.addArray, Value.Within]

theorem arrayLength_planned {array : Expr Value}
    (h : Ready G anywhere s frame [array]) :
    Planned G s frame (some frame) (.arrayLength array) := by
  intro fuel location
  apply Plan.bind
  . apply evalOperand_plan h
  . intros
    apply Plan.bind
    . apply Plan.inspect (Q := fun _ _ => True) fun _ _ _ => trivial
    . intros
      exact answer_plan (value_of_within trivial)

theorem arrayGet_planned {array index : Expr Value}
    (h : Ready G anywhere s frame [array, index]) :
    Planned G s frame (some frame) (.arrayGet array index) := by
  intro fuel location
  apply Plan.bind
  . apply evalOperand_plan h
  . intro t ref hst _
    apply Plan.bind
    . apply evalOperand_plan (h.grows hst).tail
    . intros
      apply Plan.bind
      . apply arrayGet_plan
      . intro u v _ hv
        apply present_plan hv

theorem arraySet_planned {array index value : Expr Value}
    (h : Ready G anywhere s frame [array, index, value]) :
    Planned G s frame (some frame) (.arraySet array index value) := by
  intro fuel location
  apply Plan.bind
  . apply evalOperand_plan h
  . intro t ref hst _
    apply Plan.bind
    . apply evalOperand_plan (h.grows hst).tail
    . intro u i htu _
      apply Plan.bind
      . apply (h.grows (hst.trans htu)).tail.tail.head
      . intro w v huw hv
        apply Plan.bind
        . apply arraySet_plan hv
        . intro x _ hwx _
          apply answer_plan (value_grows hwx hv)

theorem arrayAdd_planned {array value : Expr Value}
    (h : Ready G anywhere s frame [array, value]) :
    Planned G s frame (some frame) (.arrayAdd array value) := by
  intro fuel location
  apply Plan.bind
  . apply evalOperand_plan h
  . intro t ref hst href
    apply Plan.bind
    . apply (h.grows hst).tail.head
    . intro u v htu hv
      apply Plan.bind
      . apply Plan.update fun w _ huw => .pushElement (value_grows huw hv)
      . intro w _ huw _
        apply answer_plan (value_grows (htu.trans huw) (picked_array href))

theorem course_plan (fuel : Nat) {form : Form Value} (hbreak : form ≠ .breakLoop)
    (hnode : G.node s location form) (h : Ready G anywhere s frame form.parts) :
    Plan G anywhere s (form.home frame) (fun run => course run fuel frame location form)
      G.value := by
  cases form with
  | literal v => apply answer_plan (literal hnode)
  | symbol name => apply lookup_plan
  | define name value => apply define_planned h fuel location
  | assign name value => apply assign_planned h fuel location
  | isBound name => apply isBound_planned fuel location
  | clone operand => apply clone_planned h fuel location
  | sequence forms => apply evalSequence_plan h
  | block forms => apply block_planned h fuel location
  | arith op left right => apply arith_planned h fuel location
  | compare op left right => apply compare_planned h fuel location
  | logic op left right => apply logic_planned h fuel location
  | negate operand => apply negate_planned h fuel location
  | branch condition onTrue onFalse => apply branch_planned h fuel location
  | cond cases => apply evalCases_plan h
  | loop start condition advance body =>
    apply Plan.within h.here
    intro t scope hst hscope
    apply loop_plan ⟨hscope, fun _ _ => trivial, (h.grows hst).exprs⟩
  | breakLoop => contradiction
  | lambda site params body => apply closure_plan h
  | apply callee args => apply apply_planned h fuel location
  | function name lambda => apply function_planned h fuel location
  | call name args => apply call_planned h fuel location
  | isType operand type => apply isType_planned h fuel location
  | print operand newline => apply print_planned h fuel location
  | read => apply readLiteral_plan
  | recordType name members => apply recordType_planned fuel location
  | isTypeNamed operand name => apply isTypeNamed_planned h fuel location
  | makeRecord type => apply makeRecord_planned h fuel location
  | isRecordOf operand type => apply isRecordOf_planned h fuel location
  | getMember record member => apply getMember_planned h fuel location
  | setMember record member value => apply setMember_planned h fuel location
  | stringLength string => apply stringLength_planned h fuel location
  | charAt string index => apply charAt_planned h fuel location
  | setCharAt string index char => apply setCharAt_planned h fuel location
  | concat string suffix => apply concat_planned h fuel location
  | substring string start length => apply substring_planned h fuel location
  | find string needle start => apply find_planned h fuel location
  | arrayOf elements => apply arrayOf_planned h fuel location
  | makeArray size fill => apply makeArray_planned h fuel location
  | arrayLength array => apply arrayLength_planned h fuel location
  | arrayGet array index => apply arrayGet_planned h fuel location
  | arraySet array index value => apply arraySet_planned h fuel location
  | arrayAdd array value => apply arrayAdd_planned h fuel location

end Run

end LispScript
