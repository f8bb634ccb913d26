import LispScript.Proofs.Unwinding

/-!
This module contains what all forms but `read` have in common. Such a form is `Ordinary`: it evaluates
parts, and its own operations in between take no input and fail as malformed only over an operator that
does not exist. So it is a part that is to blame whenever the form fails as malformed, and it is the parts
that take input, one after the other.
-/

namespace LispScript

/--
The operator of a form is one that exists, if the form has one.
-/
def Form.OperatorExists {α : Type} : Form α → Prop
  | .arith op _ _ => op ∈ ArithOp.all
  | .compare op _ _ => op ∈ CompareOp.all
  | .logic op _ _ => op ∈ LogicOp.all
  | _ => True

/-! The primitives. -/

namespace Primitive

/--
A primitive that fails does not fail as malformed, at least where `known` holds.
-/
def Clear {α : Type} (known : Prop) : Except Fault α → Prop
  | .ok _ => True
  | .error f => f.sort = .malformed → ¬ known

variable {known : Prop}

theorem Clear.bind {α β : Type} {x : Except Fault α} {f : α → Except Fault β} (hx : Clear known x)
    (hf : ∀ a, Clear known (f a)) : Clear known (x >>= f) := by
  cases x with
  | ok a => exact hf a
  | error fault => exact hx

theorem index_clear (role : String) (i : Int64) (size : Nat) : Clear known (index role i size) := by
  unfold index
  split
  . trivial
  . nofun

theorem substring_clear (chars : Array Char) (start length : Int64) :
    Clear known (substring chars start length) := by
  unfold substring
  apply (index_clear _ _ _).bind
  intro i
  split
  . trivial
  . nofun

theorem find_clear (text needle : List Char) (start : Int64) : Clear known (find text needle start) := by
  unfold find
  apply (index_clear _ _ _).bind
  intro i
  split <;> trivial

theorem arraySize_clear (n : Int64) : Clear known (arraySize n) := by
  unfold arraySize
  split
  . trivial
  . nofun

theorem recordType_clear (name : String) (members : List String) :
    Clear known (recordType name members) := by
  unfold recordType
  split
  . nofun
  . trivial

theorem getField_clear (s : Store) (ref : Nat) (member : String) :
    Clear known (getField s ref member) := by
  unfold getField
  split
  . trivial
  . nofun

theorem integerArith_clear (op : ArithOp) (l r : Int64) :
    Clear (op ∈ ArithOp.all) (integerArith op l r) := by
  unfold integerArith
  split
  . trivial
  . trivial
  . trivial
  . split
    . nofun
    . trivial
  . split
    . nofun
    . trivial
  . simp [Clear, ArithOp.all]

theorem realArith_clear (op : ArithOp) (x y : Float) :
    Clear (op ∈ ArithOp.all) (realArith op x y) := by
  unfold realArith
  split
  . trivial
  . trivial
  . trivial
  . split
    . nofun
    . trivial
  . nofun
  . simp [Clear, ArithOp.all]

theorem arith_clear (op : ArithOp) (left right : Value) :
    Clear (op ∈ ArithOp.all) (arith op left right) := by
  unfold arith
  split
  . apply integerArith_clear
  . split
    . apply realArith_clear
    . nofun
    . nofun

theorem compare_clear (s : Store) (op : CompareOp) (left right : Value) :
    Clear (op ∈ CompareOp.all) (compare s op left right) := by
  unfold compare
  split
  . nofun
  . split
    . trivial
    . trivial
    . split
      . cases op with
        | unknown spelling => simp [Clear, holds, Except.map, CompareOp.all]
        | _ => trivial
      . trivial

theorem logic_clear (op : LogicOp) (left right : Value) :
    Clear (op ∈ LogicOp.all) (logic op left right) := by
  unfold logic
  split
  . split
    . trivial
    . trivial
    . simp [Clear, LogicOp.all]
  . nofun
  . nofun

end Primitive

/-! Forms. -/

namespace Run

/--
The same outcome, with other lines left to be read.
-/
def withInput {α : Type} (lines : List Text) :
    EStateM.Result Interrupt Machine α → EStateM.Result Interrupt Machine α
  | .ok a m => .ok a { m with input := lines }
  | .error i m => .error i { m with input := lines }

/--
What an operation may do: it does the same whatever there is to be read, and takes nothing of it, and
where `known` holds it does not fail as malformed.
-/
structure Quiet {α : Type} (known : Prop) (r : Run α) : Prop where
  idle : ∀ m lines, r { m with input := lines } = withInput lines (r m)
  clear : ∀ {m m' f}, r m = .error (.failure f) m' → f.fault.sort = .malformed → ¬ known

inductive Ordinary (known : Prop) : {α : Type} → (Evaluator → Run α) → Prop where
  | operate {α : Type} {r : Run α} (h : Quiet known r) : Ordinary known (fun _ => r)
  | call (frame : Nat) (e : Expr Value) : Ordinary known (fun run => run frame e)
  | bind {α β : Type} {f : Evaluator → Run α} {g : α → Evaluator → Run β} (hf : Ordinary known f)
      (hg : ∀ a, Ordinary known (g a)) : Ordinary known (fun run => f run >>= fun a => g a run)

namespace Ordinary

variable {known : Prop} {α β : Type}

theorem pure (a : α) : Ordinary known (fun _ => Pure.pure a) :=
  .operate ⟨fun _ _ => rfl, nofun⟩

theorem fail {fault : Fault} (h : fault.sort = .malformed → ¬ known) :
    Ordinary known (fun _ => (Run.fail fault : Run α)) := by
  apply operate
  refine ⟨fun _ _ => rfl, ?_⟩
  rintro m m' f ⟨⟩
  exact h

theorem throw {i : Interrupt} (h : ∀ f, i ≠ .failure f) :
    Ordinary known (fun _ => (MonadExcept.throw i : Run α)) := by
  apply operate
  refine ⟨fun _ _ => rfl, ?_⟩
  rintro m m' f ⟨⟩
  exact absurd rfl (h f)

theorem inspect (f : Store → α) : Ordinary known (fun _ => Run.inspect f) :=
  .operate ⟨fun _ _ => rfl, nofun⟩

theorem update (f : Store → Store) : Ordinary known (fun _ => Run.update f) :=
  .operate ⟨fun _ _ => rfl, nofun⟩

theorem create (add : Store → α × Store) : Ordinary known (fun _ => Run.create add) :=
  .operate ⟨fun _ _ => rfl, nofun⟩

theorem print (text : String) : Ordinary known (fun _ => Run.print text) := by
  apply operate
  refine ⟨?_, nofun⟩
  rintro ⟨store, output, input, muted⟩ lines
  cases muted <;> rfl

theorem consult {f : Store → Except Fault α} (h : ∀ s, Primitive.Clear known (f s)) :
    Ordinary known (fun _ => Run.consult f) := by
  apply operate
  constructor
  . intro m lines
    show Run.ofPrimitive (f m.store) _ = withInput lines (Run.ofPrimitive (f m.store) m)
    cases f m.store <;> rfl
  . intro m m' fl hfails
    have hclear := h m.store
    change Run.ofPrimitive (f m.store) m = _ at hfails
    cases hx : f m.store with
    | ok a =>
      rw [hx] at hfails
      cases hfails
    | error fault =>
      rw [hx] at hfails hclear
      cases hfails
      exact hclear

theorem ofPrimitive {x : Except Fault α} (h : Primitive.Clear known x) :
    Ordinary known (fun _ => Run.ofPrimitive x) :=
  consult fun _ => h

end Ordinary

variable {known : Prop} {frame : Nat}

theorem evalSequence_go_ordinary (last : Value) (forms : List (Expr Value)) :
    Ordinary known (fun run => evalSequence.go run frame last forms) := by
  induction forms generalizing last with
  | nil => exact .pure last
  | cons e rest ih =>
    apply Ordinary.bind (.call frame e)
    intro v
    exact ih v

theorem evalSequence_ordinary (forms : List (Expr Value)) :
    Ordinary known (fun run => evalSequence run frame forms) :=
  evalSequence_go_ordinary .null forms

theorem evalAll_go_ordinary (vs : Array Value) (es : List (Expr Value)) :
    Ordinary known (fun run => evalAll.go run frame vs es) := by
  induction es generalizing vs with
  | nil => exact .pure vs
  | cons e rest ih =>
    apply Ordinary.bind (.call frame e)
    intro v
    exact ih (vs.push v)

theorem evalAll_ordinary (es : List (Expr Value)) :
    Ordinary known (fun run => evalAll run frame es) :=
  evalAll_go_ordinary #[] es

theorem evalOperand_ordinary {α : Type} (pick : Value → Option α) (operation : String)
    (e : Expr Value) : Ordinary known (fun run => evalOperand run pick operation frame e) := by
  apply Ordinary.bind (.call frame e)
  intro v
  split
  . exact .pure _
  . exact .fail nofun

theorem evalPart_ordinary {α : Type} (pick : Value → Option α) (wanted : Kind) (role : String)
    (e : Expr Value) : Ordinary known (fun run => evalPart run pick wanted role frame e) := by
  apply Ordinary.bind (.call frame e)
  intro v
  split
  . exact .pure _
  . exact .fail nofun

theorem evalCondition_ordinary (role : String) (e : Expr Value) :
    Ordinary known (fun run => evalCondition run role frame e) := by
  unfold evalCondition
  split
  . exact .fail nofun
  . apply evalPart_ordinary

theorem evalCases_ordinary (cases : List (Expr Value × Expr Value)) :
    Ordinary known (fun run => evalCases run frame cases) := by
  induction cases with
  | nil => exact .pure Value.null
  | cons c rest ih =>
    obtain ⟨predicate, result⟩ := c
    apply Ordinary.bind (evalCondition_ordinary _ predicate)
    intro b
    split
    . exact .call frame result
    . exact ih

theorem evalLoop_ordinary (condition advance body : Expr Value) (fuel : Nat) (last : Value) :
    Ordinary known (fun run => evalLoop run frame condition advance body fuel last) := by
  induction fuel generalizing last with
  | zero => exact .throw (by simp)
  | succ fuel ih =>
    apply Ordinary.bind (evalCondition_ordinary _ condition)
    intro b
    split
    . apply Ordinary.bind (.call frame body)
      intro v
      apply Ordinary.bind (.call frame advance)
      intro _
      exact ih v
    . exact .pure last

theorem define_ordinary (name : String) (v : Value) :
    Ordinary known (fun _ => define frame name v) := by
  apply Ordinary.bind (.inspect _)
  intro b
  split
  . exact .fail nofun
  . exact .update _

theorem assign_ordinary (name : String) (v : Value) :
    Ordinary known (fun _ => assign frame name v) := by
  apply Ordinary.bind (.create _)
  intro found
  split
  . exact .pure _
  . exact .fail nofun

theorem lookup_ordinary (name : String) : Ordinary known (fun _ => lookup frame name) := by
  apply Ordinary.bind (.inspect _)
  intro v
  split
  . exact .pure _
  . exact .fail nofun

theorem bindAll_ordinary (pairs : List (String × Value)) :
    Ordinary known (fun _ => bindAll frame pairs) := by
  induction pairs with
  | nil => exact .pure ()
  | cons pair rest ih =>
    obtain ⟨name, v⟩ := pair
    apply Ordinary.bind (define_ordinary name v)
    intro _
    exact ih

theorem callClosure_ordinary (ref : Nat) (args : Array Value) :
    Ordinary known (fun run => callClosure run ref args) := by
  apply Ordinary.bind (.inspect _)
  intro closure
  split
  . exact .fail nofun
  . apply Ordinary.bind (.create _)
    intro scope
    apply Ordinary.bind (bindAll_ordinary _)
    intro _
    exact .call scope closure.body

theorem evalCall_ordinary (ref : Nat) (args : List (Expr Value)) :
    Ordinary known (fun run => evalCall run frame ref args) := by
  apply Ordinary.bind (.create _)
  intro scope
  apply Ordinary.bind (evalAll_ordinary args)
  intro vs
  exact callClosure_ordinary ref vs

theorem evalText_ordinary (operation : String) (e : Expr Value) :
    Ordinary known (fun run => evalText run operation frame e) := by
  apply Ordinary.bind (.call frame e)
  intro v
  split
  . apply Ordinary.bind (.inspect _)
    intro view
    exact .pure _
  . exact .pure _
  . exact .fail nofun

theorem present_ordinary (form : String) (v : Value) : Ordinary known (fun _ => present form v) := by
  unfold present
  split
  . exact .fail nofun
  . exact .pure _

theorem charAt_ordinary (ref : Nat) (i : Int64) : Ordinary known (fun _ => charAt ref i) := by
  apply Ordinary.bind (.inspect _)
  intro chars
  apply Ordinary.bind (.ofPrimitive (Primitive.index_clear _ i _))
  intro k
  exact .pure _

theorem setCharAt_ordinary (ref : Nat) (i : Int64) (c : Char) :
    Ordinary known (fun _ => setCharAt ref i c) := by
  apply Ordinary.bind (.inspect _)
  intro size
  apply Ordinary.bind (.ofPrimitive (Primitive.index_clear _ i _))
  intro k
  exact .update _

theorem substring_ordinary (ref : Nat) (start length : Int64) :
    Ordinary known (fun _ => substring ref start length) := by
  apply Ordinary.bind (.consult fun s => Primitive.substring_clear _ start length)
  intro part
  exact .create _

theorem find_ordinary (ref : Nat) (needle : TextOperand) (start : Int64) :
    Ordinary known (fun _ => find ref needle start) :=
  .consult fun _ => Primitive.find_clear _ _ start

theorem arrayGet_ordinary (ref : Nat) (i : Int64) : Ordinary known (fun _ => arrayGet ref i) := by
  apply Ordinary.bind (.inspect _)
  intro elements
  apply Ordinary.bind (.ofPrimitive (Primitive.index_clear _ i _))
  intro k
  exact .pure _

theorem arraySet_ordinary (ref : Nat) (i : Int64) (v : Value) :
    Ordinary known (fun _ => arraySet ref i v) := by
  apply Ordinary.bind (.inspect _)
  intro size
  apply Ordinary.bind (.ofPrimitive (Primitive.index_clear _ i _))
  intro k
  exact .update _

theorem getMember_ordinary (ref : Nat) (member : String) :
    Ordinary known (fun _ => getMember ref member) :=
  .consult fun s => Primitive.getField_clear s ref member

theorem setMember_ordinary (ref : Nat) (member : String) (v : Value) :
    Ordinary known (fun _ => setMember ref member v) := by
  apply Ordinary.bind (getMember_ordinary ref member)
  intro _
  exact .update _

theorem operands_ordinary {α : Type} (left right : Expr Value) {k : Value → Value → Run α}
    (hk : ∀ l r, Ordinary known (fun _ => k l r)) :
    Ordinary known (fun run => do
      let l ← run frame left
      let r ← run frame right
      k l r) :=
  .bind (.call frame left) fun l => .bind (.call frame right) fun r => hk l r

-- The proof of each form is read like the form: a step after the other.
theorem course_ordinary {form : Form Value} (hread : form ≠ .read) (fuel : Nat)
    (location : Option Location) :
    Ordinary form.OperatorExists (fun run => course run fuel frame location form) := by
  cases form
  case read => contradiction
  all_goals simp only [course, perform]
  case literal v => exact .pure _
  case symbol name => exact lookup_ordinary name
  case define name value | function name value =>
    exact .bind (.call frame value) fun v => .bind (define_ordinary name v) fun _ => .pure v
  case assign name value =>
    exact .bind (.call frame value) fun v => .bind (assign_ordinary name v) fun _ => .pure v
  case isBound name => exact .bind (.inspect _) fun _ => .pure _
  case clone operand => exact .bind (.call frame operand) fun v => .create _
  case sequence forms => exact evalSequence_ordinary forms
  case block forms => exact .bind (.create _) fun _ => evalSequence_ordinary forms
  case arith op left right =>
    exact operands_ordinary left right fun l r => .ofPrimitive (Primitive.arith_clear op l r)
  case compare op left right =>
    exact operands_ordinary left right fun l r => .consult fun s => Primitive.compare_clear s op l r
  case logic op left right =>
    exact operands_ordinary left right fun l r => .ofPrimitive (Primitive.logic_clear op l r)
  case negate operand => exact .bind (evalOperand_ordinary _ _ operand) fun _ => .pure _
  case branch condition onTrue onFalse =>
    apply Ordinary.bind (.create _)
    intro scope
    apply Ordinary.bind (evalCondition_ordinary _ condition)
    intro b
    split
    . exact .call scope onTrue
    . exact .call scope onFalse
  case cond cases => exact evalCases_ordinary cases
  case loop start condition advance body =>
    exact .bind (.create _) fun scope => .bind (.call scope start) fun _ =>
      evalLoop_ordinary condition advance body fuel .null
  case breakLoop => exact .throw (by simp)
  case lambda site params body => exact .create _
  case apply callee args =>
    exact .bind (evalPart_ordinary _ _ _ callee) fun ref => evalCall_ordinary ref args
  case call name args =>
    apply Ordinary.bind (lookup_ordinary name)
    intro v
    split
    . exact evalCall_ordinary _ args
    . exact .fail (by rintro ⟨⟩)
  case isType operand type =>
    split
    . exact .pure _
    . exact .bind (.call frame operand) fun v => .pure _
  case print operand newline =>
    split
    . exact .bind (.print _) fun _ => .pure _
    . exact .bind (.call frame operand) fun v => .bind (.inspect _) fun text =>
        .bind (.print _) fun _ => .pure v
  case recordType name members =>
    exact .bind (.ofPrimitive (Primitive.recordType_clear name members)) fun _ => .create _
  case isTypeNamed operand name =>
    split
    . exact .pure _
    . apply Ordinary.bind (.call frame operand)
      intro v
      split
      . exact .bind (.inspect _) fun _ => .pure _
      . exact .pure _
  case makeRecord type => exact .bind (evalPart_ordinary _ _ _ type) fun _ => .create _
  case isRecordOf operand type =>
    split
    . exact .pure _
    . apply operands_ordinary operand type
      intro v t
      split
      . exact .bind (.inspect _) fun _ => .pure _
      . exact .pure _
  case getMember record member =>
    exact .bind (evalPart_ordinary _ _ _ record) fun ref =>
      .bind (getMember_ordinary ref member) fun v => present_ordinary _ v
  case setMember record member value =>
    exact .bind (evalPart_ordinary _ _ _ record) fun ref => .bind (.call frame value) fun v =>
      .bind (setMember_ordinary ref member v) fun _ => .pure v
  case stringLength string =>
    exact .bind (evalOperand_ordinary _ _ string) fun ref => .bind (.inspect _) fun _ => .pure _
  case charAt string index =>
    exact .bind (evalOperand_ordinary _ _ string) fun ref =>
      .bind (evalOperand_ordinary _ _ index) fun i => .bind (charAt_ordinary ref i) fun _ => .pure _
  case setCharAt string index char =>
    exact .bind (evalOperand_ordinary _ _ string) fun ref =>
      .bind (evalOperand_ordinary _ _ index) fun i =>
      .bind (evalOperand_ordinary _ _ char) fun c =>
      .bind (setCharAt_ordinary ref i c) fun _ => .pure _
  case concat string suffix =>
    exact .bind (evalOperand_ordinary _ _ string) fun ref =>
      .bind (evalText_ordinary _ suffix) fun text => .bind (.inspect _) fun _ =>
      .bind (.update _) fun _ => .pure _
  case substring string start length =>
    exact .bind (evalOperand_ordinary _ _ string) fun ref =>
      .bind (evalOperand_ordinary _ _ start) fun i =>
      .bind (evalOperand_ordinary _ _ length) fun n => substring_ordinary ref i n
  case find string needle start =>
    apply Ordinary.bind (evalOperand_ordinary _ _ string)
    intro ref
    apply Ordinary.bind (evalText_ordinary _ needle)
    intro text
    split
    . exact .bind (.pure _) fun i => .bind (find_ordinary ref text i) fun _ => .pure _
    . exact .bind (evalOperand_ordinary _ _ start) fun i =>
        .bind (find_ordinary ref text i) fun _ => .pure _
  case arrayOf elements => exact .bind (evalAll_ordinary elements) fun _ => .create _
  case makeArray size fill =>
    exact .bind (evalOperand_ordinary _ _ size) fun n =>
      .bind (.ofPrimitive (Primitive.arraySize_clear n)) fun _ =>
      .bind (.call frame fill) fun _ => .create _
  case arrayLength array =>
    exact .bind (evalOperand_ordinary _ _ array) fun ref => .bind (.inspect _) fun _ => .pure _
  case arrayGet array index =>
    exact .bind (evalOperand_ordinary _ _ array) fun ref =>
      .bind (evalOperand_ordinary _ _ index) fun i =>
      .bind (arrayGet_ordinary ref i) fun v => present_ordinary _ v
  case arraySet array index value =>
    exact .bind (evalOperand_ordinary _ _ array) fun ref =>
      .bind (evalOperand_ordinary _ _ index) fun i => .bind (.call frame value) fun v =>
      .bind (arraySet_ordinary ref i v) fun _ => .pure v
  case arrayAdd array value =>
    exact .bind (evalOperand_ordinary _ _ array) fun ref => .bind (.call frame value) fun v =>
      .bind (.update _) fun _ => .pure _

/-! Blame. -/

variable {α : Type} {f : Evaluator → Run α} {run run' : Evaluator} {e : Expr Value}
  {m m' m₁ m₂ : Machine} {i : Interrupt}

theorem Ordinary.same_or_interrupted (h : Ordinary known f) (hagree : AgreeOff run run' frame e m₁)
    (hpart : run frame e m₁ = .error i m₂) : f run' m = f run m ∨ f run m = .error i m₂ := by
  induction h generalizing m with
  | operate _ => exact .inl rfl
  | call frame' e' =>
    by_cases hhere : frame' = frame ∧ e' = e ∧ m = m₁
    . obtain ⟨rfl, rfl, rfl⟩ := hhere
      exact .inr hpart
    . exact .inl (hagree frame' e' m hhere)
  | @bind _ _ f g _ _ ihf ihg =>
    dsimp only
    cases ihf (m := m) with
    | inl hsame =>
      cases hx : f run m with
      | ok a m'' =>
        rw [hx] at hsame
        rw [bind_ok hx, bind_ok hsame]
        exact ihg a
      | error j m'' =>
        rw [hx] at hsame
        rw [bind_error hx, bind_error hsame]
        exact .inl rfl
    | inr hfails => exact .inr (bind_error hfails)

/--
A failure that is none of the form's own comes from a part, the last one that it comes to.
-/
theorem Ordinary.blames (h : Ordinary known f) (hknown : known) {fl : Failure}
    (hsort : fl.fault.sort = .malformed) (hfails : f run m = .error (.failure fl) m') :
    ∃ frame e m₁, run frame e m₁ = .error (.failure fl) m' ∧ Last f run m frame e m₁ := by
  induction h generalizing m with
  | operate hquiet =>
    exact absurd hknown (hquiet.clear hfails hsort)
  | call frame e => exact ⟨frame, e, m, hfails, fun run' _ j m₂ hj => hj⟩
  | @bind _ _ f g hf _ ihf ihg =>
    dsimp only at hfails
    cases hx : f run m with
    | error j m'' =>
      rw [bind_error hx] at hfails
      cases hfails
      obtain ⟨frame, e, m₁, hpart, hlast⟩ := ihf hx
      refine ⟨frame, e, m₁, hpart, ?_⟩
      intro run' hagree j m₂ hj
      exact bind_error (hlast run' hagree j m₂ hj)
    | ok a m'' =>
      rw [bind_ok hx] at hfails
      obtain ⟨frame, e, m₁, hpart, hlast⟩ := ihg a hfails
      refine ⟨frame, e, m₁, hpart, ?_⟩
      intro run' hagree j m₂ hj
      -- What comes before has a value, so it did not come to the part that fails.
      cases hf.same_or_interrupted hagree hpart (m := m) with
      | inl hsame =>
        rw [hx] at hsame
        dsimp only
        rw [bind_ok hsame]
        exact hlast run' hagree j m₂ hj
      | inr hcontra =>
        rw [hx] at hcontra
        contradiction

end Run

end LispScript
