import LispScript.Proofs.StringCall

/-!
This module contains what the string operations work on: the strings themselves, as they are when all
operands have been evaluated. The operands are evaluated one after the other, and each of them may change
the strings that the others stand for. Only the needle of `find` is looked at when its turn comes, and what
is added to it later does not count.
-/

namespace LispScript

/-! Forms. -/

/--
A string operation. Its operands are expressions, or the values that these have been evaluated to.
-/
inductive StringOp (α : Type) where
  | length (string : α)
  | charAt (string index : α)
  | setCharAt (string index char : α)
  | concat (string suffix : α)
  | substring (string start count : α)
  | find (string needle start : α)
  /-- A `find` without an operand to say where it starts. -/
  | findFirst (string needle : α)

namespace StringOp

variable {α β γ : Type}

def map (f : α → β) : StringOp α → StringOp β
  | .length string => .length (f string)
  | .charAt string index => .charAt (f string) (f index)
  | .setCharAt string index char => .setCharAt (f string) (f index) (f char)
  | .concat string suffix => .concat (f string) (f suffix)
  | .substring string start count => .substring (f string) (f start) (f count)
  | .find string needle start => .find (f string) (f needle) (f start)
  | .findFirst string needle => .findFirst (f string) (f needle)

@[simp]
theorem map_map (f : α → β) (g : β → γ) (op : StringOp α) : (op.map f).map g = op.map (g ∘ f) := by
  cases op <;> rfl

/--
The operands in the order in which they are evaluated.
-/
def operands : StringOp α → List α
  | .length string => [string]
  | .charAt string index => [string, index]
  | .setCharAt string index char => [string, index, char]
  | .concat string suffix => [string, suffix]
  | .substring string start count => [string, start, count]
  | .find string needle start => [string, needle, start]
  | .findFirst string needle => [string, needle]

def form : StringOp (Expr Value) → Form Value
  | .length string => .stringLength string
  | .charAt string index => .charAt string index
  | .setCharAt string index char => .setCharAt string index char
  | .concat string suffix => .concat string suffix
  | .substring string start count => .substring string start count
  | .find string needle start => .find string needle start
  | .findFirst string needle => .find string needle .absent

/--
The operation on the values of the operands. Here `text?` says what characters there are in a value that
is added or searched for.
-/
def call? (text? : Value → Option (List Char)) : StringOp Value → Option StringCall
  | .length string => do return .length (← string.string?)
  | .charAt string index => do return .charAt (← string.string?) (← index.integer?)
  | .setCharAt string index char => do
    return .setCharAt (← string.string?) (← index.integer?) (← char.char?)
  | .concat string suffix => do return .concat (← string.string?) (← text? suffix)
  | .substring string start count => do
    return .substring (← string.string?) (← start.integer?) (← count.integer?)
  | .find string needle start => do
    return .find (← string.string?) (← text? needle) (← start.integer?)
  | .findFirst string needle => do return .find (← string.string?) (← text? needle) 0

end StringOp

/-! What counts as a text. -/

/--
What is seen in the store `t` of a string or a character that was looked at in the store `s`.
-/
def Value.seen? (s t : Store) : Value → Option (List Char)
  | .string ref => some ((t.string ref).seen ((s.string ref).view ref))
  | .char c => some [c]
  | _ => none

/--
The characters of a string or of a character.
-/
def Value.text? (s : Store) : Value → Option (List Char)
  | .string ref => some (s.text ref)
  | .char c => some [c]
  | _ => none

theorem TextBuffer.length_seen_le (b : TextBuffer) (v : TextView) : (b.seen v).length ≤ v.length := by
  unfold seen
  apply List.length_take_le

theorem Value.seen?_eq_text? {s t : Store} {v : Value}
    (h : ∀ ref, v = .string ref → (s.string ref).view ref = (t.string ref).view ref) :
    v.seen? s t = v.text? t := by
  cases v with
  | string ref => rw [seen?, h ref rfl, TextBuffer.seen_view, text?, Store.text]
  | _ => rfl

/-! Operands. -/

namespace Run

/--
One after the other, the expressions are evaluated to the values beside them.
-/
inductive EvaluatesAll (run : Evaluator) (frame : Nat) :
    Machine → List (Expr Value × Value) → Machine → Prop where
  | nil (m : Machine) : EvaluatesAll run frame m [] m
  | cons {e : Expr Value} {v : Value} {rest : List (Expr Value × Value)} {m m₁ m' : Machine}
      (h : run frame e m = .ok v m₁) (hrest : EvaluatesAll run frame m₁ rest m') :
      EvaluatesAll run frame m ((e, v) :: rest) m'

variable {run : Evaluator} {frame : Nat} {e : Expr Value} {v : Value} {m m' : Machine}

theorem EvaluatesAll.split {es : List (Expr Value × Value)} (h : EvaluatesAll run frame m es m')
    (n : Nat) : ∃ m₁, EvaluatesAll run frame m (es.take n) m₁ ∧
      EvaluatesAll run frame m₁ (es.drop n) m' := by
  induction h generalizing n with
  | nil m =>
    rw [List.take_nil, List.drop_nil]
    exact ⟨m, .nil m, .nil m⟩
  | cons h hrest ih =>
    cases n with
    | zero => exact ⟨_, .nil _, .cons h hrest⟩
    | succ n =>
      obtain ⟨m₁, hfirst, hlast⟩ := ih n
      exact ⟨m₁, .cons h hfirst, hlast⟩

theorem evalOperand_ok {α : Type} {pick : Value → Option α} {a : α} (operation : String)
    (h : run frame e m = .ok v m') (hpick : pick v = some a) :
    evalOperand run pick operation frame e m = .ok a m' := by
  rw [evalOperand, bind_ok h, hpick]
  rfl

theorem evalText_ok {text : List Char} {t : Store} (operation : String)
    (h : run frame e m = .ok v m') (htext : v.seen? m'.store t = some text) :
    ∃ operand : TextOperand, evalText run operation frame e m = .ok operand m' ∧
      operand.chars t = text := by
  rw [evalText, bind_ok h]
  cases v with
  | string ref =>
    cases htext
    exact ⟨.view ((m'.store.string ref).view ref), rfl, rfl⟩
  | char c =>
    cases htext
    exact ⟨.char c, rfl, rfl⟩
  | _ => contradiction

end Run

namespace StringOp

open Run

variable {context : Option Context} {fuel frame : Nat} {location : Option Location}
  {op : StringOp (Expr Value × Value)} {call : StringCall} {m m₁ m' : Machine}

theorem eval_absent (context : Option Context) (fuel frame : Nat) (m : Machine) :
    eval context fuel frame .absent m = .ok .null m := by
  cases fuel <;> rfl

/--
When the operands have been evaluated, the operation is left to do, with the needle or suffix as it has
been looked at.
-/
theorem perform_form (turns : Nat)
    (hfirst : EvaluatesAll (eval context fuel) frame m (op.operands.take 2) m₁)
    (hrest : EvaluatesAll (eval context fuel) frame m₁ (op.operands.drop 2) m')
    (hcall : (op.map Prod.snd).call? (Value.seen? m₁.store m'.store) = some call) :
    perform (eval context fuel) turns frame location (op.map Prod.fst).form m = call.run m' := by
  cases op with
  | length string =>
    obtain ⟨r, hr, ⟨⟩⟩ := Option.bind_eq_some_iff.1 hcall
    obtain _ | ⟨hstring, ⟨⟩⟩ := hfirst
    cases hrest
    rw [map, form, perform, bind_ok (evalOperand_ok "strlen" hstring hr)]
    rfl
  | charAt string index =>
    obtain ⟨r, hr, hcall⟩ := Option.bind_eq_some_iff.1 hcall
    obtain ⟨i, hi, ⟨⟩⟩ := Option.bind_eq_some_iff.1 hcall
    obtain _ | ⟨hstring, _ | ⟨hindex, ⟨⟩⟩⟩ := hfirst
    cases hrest
    rw [map, form, perform, bind_ok (evalOperand_ok "charat" hstring hr),
      bind_ok (evalOperand_ok "charat" hindex hi)]
    rfl
  | setCharAt string index char =>
    obtain ⟨r, hr, hcall⟩ := Option.bind_eq_some_iff.1 hcall
    obtain ⟨i, hi, hcall⟩ := Option.bind_eq_some_iff.1 hcall
    obtain ⟨c, hc, ⟨⟩⟩ := Option.bind_eq_some_iff.1 hcall
    obtain _ | ⟨hstring, _ | ⟨hindex, ⟨⟩⟩⟩ := hfirst
    obtain _ | ⟨hchar, ⟨⟩⟩ := hrest
    rw [map, form, perform, bind_ok (evalOperand_ok "setcharat" hstring hr),
      bind_ok (evalOperand_ok "setcharat" hindex hi), bind_ok (evalOperand_ok "setcharat" hchar hc)]
    rfl
  | concat string suffix =>
    obtain ⟨r, hr, hcall⟩ := Option.bind_eq_some_iff.1 hcall
    obtain ⟨text, htext, ⟨⟩⟩ := Option.bind_eq_some_iff.1 hcall
    obtain _ | ⟨hstring, _ | ⟨hsuffix, ⟨⟩⟩⟩ := hfirst
    cases hrest
    obtain ⟨operand, hoperand, rfl⟩ := evalText_ok "concat" hsuffix htext
    rw [map, form, perform, bind_ok (evalOperand_ok "concat" hstring hr), bind_ok hoperand]
    rfl
  | substring string start count =>
    obtain ⟨r, hr, hcall⟩ := Option.bind_eq_some_iff.1 hcall
    obtain ⟨i, hi, hcall⟩ := Option.bind_eq_some_iff.1 hcall
    obtain ⟨n, hn, ⟨⟩⟩ := Option.bind_eq_some_iff.1 hcall
    obtain _ | ⟨hstring, _ | ⟨hstart, ⟨⟩⟩⟩ := hfirst
    obtain _ | ⟨hcount, ⟨⟩⟩ := hrest
    rw [map, form, perform, bind_ok (evalOperand_ok "substr" hstring hr),
      bind_ok (evalOperand_ok "substr" hstart hi), bind_ok (evalOperand_ok "substr" hcount hn)]
    rfl
  | find string needle start =>
    obtain ⟨e, v⟩ := start
    obtain ⟨r, hr, hcall⟩ := Option.bind_eq_some_iff.1 hcall
    obtain ⟨text, htext, hcall⟩ := Option.bind_eq_some_iff.1 hcall
    obtain ⟨i, hi, ⟨⟩⟩ := Option.bind_eq_some_iff.1 hcall
    obtain _ | ⟨hstring, _ | ⟨hneedle, ⟨⟩⟩⟩ := hfirst
    obtain _ | ⟨hstart, ⟨⟩⟩ := hrest
    obtain ⟨operand, hoperand, rfl⟩ := evalText_ok "find" hneedle htext
    have hpresent : ¬ e.isAbsent := by
      cases e with
      | absent =>
        rw [eval_absent] at hstart
        cases hstart
        contradiction
      | node location form => exact Bool.false_ne_true
    rw [map, form, perform, bind_ok (evalOperand_ok "find" hstring hr), bind_ok hoperand,
      if_neg hpresent, bind_ok (evalOperand_ok "find" hstart hi)]
    rfl
  | findFirst string needle =>
    obtain ⟨r, hr, hcall⟩ := Option.bind_eq_some_iff.1 hcall
    obtain ⟨text, htext, ⟨⟩⟩ := Option.bind_eq_some_iff.1 hcall
    obtain _ | ⟨hstring, _ | ⟨hneedle, ⟨⟩⟩⟩ := hfirst
    cases hrest
    obtain ⟨operand, hoperand, rfl⟩ := evalText_ok "find" hneedle htext
    rw [map, form, perform, bind_ok (evalOperand_ok "find" hstring hr), bind_ok hoperand]
    rfl

/-! Needles. -/

/--
What is searched for, if there is one more operand after it.
-/
def needle? {α : Type} : StringOp α → Option α
  | .find _ needle _ => some needle
  | _ => none

/--
The needle is the same to look at in both stores.
-/
def NeedleKept (op : StringOp Value) (s t : Store) : Prop :=
  ∀ ref, op.needle? = some (.string ref) → (s.string ref).view ref = (t.string ref).view ref

def NeedleGrown (op : StringOp Value) (s t : Store) : Prop :=
  ∃ ref, op.needle? = some (.string ref) ∧ (s.text ref).length < (t.text ref).length

theorem isSome_seen? (s t : Store) (v : Value) : (v.seen? s t).isSome = (v.text? t).isSome := by
  cases v <;> rfl

theorem call?_of_isSome {f g : Value → Option (List Char)} {op : StringOp Value}
    (hfg : ∀ v, (g v).isSome = (f v).isSome) (hcall : op.call? f = some call) :
    ∃ call', op.call? g = some call' ∧ call'.ref = call.ref := by
  have hsome : ∀ {v text}, f v = some text → ∃ text', g v = some text' := by
    intro v text hf
    rw [← Option.isSome_iff_exists, hfg, hf]
    rfl
  cases op with
  | concat string suffix =>
    obtain ⟨r, hr, hcall⟩ := Option.bind_eq_some_iff.1 hcall
    obtain ⟨text, htext, ⟨⟩⟩ := Option.bind_eq_some_iff.1 hcall
    obtain ⟨text', htext'⟩ := hsome htext
    exact ⟨.concat r text', by simp [call?, hr, htext'], rfl⟩
  | find string needle start =>
    obtain ⟨r, hr, hcall⟩ := Option.bind_eq_some_iff.1 hcall
    obtain ⟨text, htext, hcall⟩ := Option.bind_eq_some_iff.1 hcall
    obtain ⟨i, hi, ⟨⟩⟩ := Option.bind_eq_some_iff.1 hcall
    obtain ⟨text', htext'⟩ := hsome htext
    exact ⟨.find r text' i, by simp [call?, hr, htext', hi], rfl⟩
  | findFirst string needle =>
    obtain ⟨r, hr, hcall⟩ := Option.bind_eq_some_iff.1 hcall
    obtain ⟨text, htext, ⟨⟩⟩ := Option.bind_eq_some_iff.1 hcall
    obtain ⟨text', htext'⟩ := hsome htext
    exact ⟨.find r text' 0, by simp [call?, hr, htext'], rfl⟩
  | _ => exact ⟨call, hcall, rfl⟩

theorem call?_kept (hrest : EvaluatesAll (eval context fuel) frame m₁ (op.operands.drop 2) m')
    (hkept : (op.map Prod.snd).NeedleKept m₁.store m'.store) :
    (op.map Prod.snd).call? (Value.seen? m₁.store m'.store)
      = (op.map Prod.snd).call? (Value.text? m'.store) := by
  cases op with
  | concat string suffix =>
    cases hrest
    rw [map, call?, Value.seen?_eq_text? fun _ _ => rfl]
    rfl
  | find string needle start =>
    rw [map, call?, Value.seen?_eq_text? fun ref href => hkept ref (congrArg some href)]
    rfl
  | findFirst string needle =>
    cases hrest
    rw [map, call?, Value.seen?_eq_text? fun _ _ => rfl]
    rfl
  | _ => rfl

theorem call?_grown {op : StringOp Value} {s t : Store} {seen : StringCall} (hgrown : op.NeedleGrown s t)
    (hseen : op.call? (Value.seen? s t) = some seen) (hcall : op.call? (Value.text? t) = some call) :
    seen ≠ call := by
  obtain ⟨ref, hneedle, hlength⟩ := hgrown
  cases op with
  | find string needle start =>
    cases hneedle
    obtain ⟨r, hr, hseen⟩ := Option.bind_eq_some_iff.1 hseen
    obtain ⟨_, ⟨⟩, hseen⟩ := Option.bind_eq_some_iff.1 hseen
    obtain ⟨i, hi, ⟨⟩⟩ := Option.bind_eq_some_iff.1 hseen
    obtain ⟨r', hr', hcall⟩ := Option.bind_eq_some_iff.1 hcall
    obtain ⟨_, ⟨⟩, hcall⟩ := Option.bind_eq_some_iff.1 hcall
    obtain ⟨i', hi', ⟨⟩⟩ := Option.bind_eq_some_iff.1 hcall
    intro hsame
    injection hsame with _ htext
    have hlooked := (t.string ref).length_seen_le ((s.string ref).view ref)
    rw [htext, Store.length_text] at hlooked
    rw [Store.length_text, Store.length_text] at hlength
    exact absurd hlength (Nat.not_lt.2 hlooked)
  | _ => contradiction

/-! Operands that have been evaluated. -/

/--
An expression that stands for a value.
-/
def valueExpr (v : Value) : Expr Value :=
  .node none (.literal v)

theorem eval_valueExpr (v : Value) :
    eval context (fuel + 1) frame (valueExpr v) m = .ok v.orNull m := rfl

theorem evaluatesAll_values (vs : List Value) :
    EvaluatesAll (eval context (fuel + 1)) frame m (vs.map fun v => (valueExpr v, v.orNull)) m := by
  induction vs with
  | nil => exact .nil m
  | cons v vs ih => exact .cons (eval_valueExpr v) ih

theorem operands_map {α β : Type} (f : α → β) (op : StringOp α) :
    (op.map f).operands = op.operands.map f := by
  cases op <;> rfl

theorem call?_orNull (s t : Store) (op : StringOp Value) :
    (op.map Value.orNull).call? (Value.seen? s t) = op.call? (Value.seen? s t) := by
  have hstring : ∀ v : Value, v.orNull.string? = v.string? := fun v => by cases v <;> rfl
  have hinteger : ∀ v : Value, v.orNull.integer? = v.integer? := fun v => by cases v <;> rfl
  have hchar : ∀ v : Value, v.orNull.char? = v.char? := fun v => by cases v <;> rfl
  have htext : ∀ v : Value, v.orNull.seen? s t = v.seen? s t := fun v => by cases v <;> rfl
  cases op <;> simp only [map, call?, hstring, hinteger, hchar, htext]

/--
In a string operation, what the operands stand for counts as it is when all of them have been evaluated.
The only exception is a needle that has been added to since it was its turn.
-/
theorem eval_form_latest (location : Option Location)
    (h : EvaluatesAll (eval context fuel) frame m op.operands m')
    (hcall : (op.map Prod.snd).call? (Value.text? m'.store) = some call)
    (href : call.ref < m'.store.strings.size) :
    ∃ m₁ seen result s',
      EvaluatesAll (eval context fuel) frame m (op.operands.take 2) m₁ ∧
      (op.map Prod.snd).call? (Value.seen? m₁.store m'.store) = some seen ∧
      seen.Does m'.store result s' ∧
      eval context (fuel + 1) frame (.node location (op.map Prod.fst).form) m
        = Run.located context location (Run.ending result) { m' with store := s' } ∧
      ((op.map Prod.snd).NeedleKept m₁.store m'.store → seen = call) ∧
      ((op.map Prod.snd).NeedleGrown m₁.store m'.store → seen ≠ call) := by
  obtain ⟨m₁, hfirst, hrest⟩ := h.split 2
  obtain ⟨seen, hseen, hsame⟩ := call?_of_isSome (isSome_seen? m₁.store m'.store) hcall
  rw [← hsame] at href
  obtain ⟨result, s', hdoes, hrun⟩ := seen.run_meets href
  refine ⟨m₁, seen, result, s', hfirst, hseen, hdoes, ?_, ?_, ?_⟩
  . rw [eval, Run.located, perform_form fuel hfirst hrest hseen, hrun]
    rfl
  . intro hkept
    rw [call?_kept hrest hkept, hcall] at hseen
    cases hseen
    rfl
  . intro hgrown
    exact call?_grown hgrown hseen hcall

/--
The needle `a` becomes `ab` before the search begins. It is found where `ab` does not stand.
-/
theorem eval_form_latest_grown :
    let m : Machine := { store := { strings := #[.ofList ['a', '-', 'a', 'b'], .ofList ['a']] } }
    let start := Expr.node none (.sequence
      [.node none (.concat (valueExpr (.string 1)) (valueExpr (.char 'b'))), valueExpr (.integer 0)])
    let e := Expr.node none (.find (valueExpr (.string 0)) (valueExpr (.string 1)) start)
    let m' := Run.machine (eval none 3 0 start m)
    m'.store.text 1 = ['a', 'b'] ∧ ∃ (seen : StringCall) (s' : Store), seen ≠ .find 0 ['a', 'b'] 0 ∧
      seen.Does m'.store (.ok (.integer 0)) s' ∧
      eval none 4 0 e m = .ok (.integer 0) { m' with store := s' } := by
  intro m start e m'
  let op : StringOp (Expr Value × Value) := .find (valueExpr (.string 0), .string 0)
    (valueExpr (.string 1), .string 1) (start, .integer 0)
  have hoperands : EvaluatesAll (eval none 3) 0 m op.operands m' :=
    .cons rfl (.cons rfl (.cons rfl (.nil m')))
  have hcall : (op.map Prod.snd).call? (Value.text? m'.store) = some (.find 0 ['a', 'b'] 0) := by
    rfl
  have href : 0 < m'.store.strings.size := by decide
  have hresult : eval none 4 0 e m = .ok (.integer 0) m' := by
    rfl
  obtain ⟨m₁, seen, result, s', htwo, -, hdoes, heval, -, hgrown⟩ :=
    eval_form_latest none hoperands hcall href
  obtain _ | ⟨⟨⟩, _ | ⟨⟨⟩, ⟨⟩⟩⟩ := htwo
  have hlonger : (op.map Prod.snd).NeedleGrown m.store m'.store := ⟨1, rfl, by decide⟩
  have hend := hresult.symm.trans heval
  cases result with
  | error fault => contradiction
  | ok v =>
    obtain ⟨rfl, -⟩ := EStateM.Result.ok.inj hend
    exact ⟨rfl, seen, s', hgrown hlonger, hdoes, heval⟩

/--
On operands that have been evaluated, the string operations do what they should.
-/
theorem eval_form_values (context : Option Context) (fuel frame : Nat) (location : Option Location)
    {op : StringOp Value} {call : StringCall} {m : Machine}
    (hcall : op.call? (Value.text? m.store) = some call) (href : call.ref < m.store.strings.size) :
    ∃ result s', call.Does m.store result s' ∧
      eval context (fuel + 2) frame (.node location (op.map valueExpr).form) m
        = Run.located context location (Run.ending result) { m with store := s' } := by
  have hseen : Value.seen? m.store m.store = Value.text? m.store :=
    funext fun v => Value.seen?_eq_text? fun _ _ => rfl
  let evaluated := op.map fun v => (valueExpr v, v.orNull)
  have hexprs : evaluated.map Prod.fst = op.map valueExpr := by
    rw [map_map]
    rfl
  have hvalues : evaluated.map Prod.snd = op.map Value.orNull := by
    rw [map_map]
    rfl
  rw [← hseen, ← call?_orNull, ← hvalues] at hcall
  have hfirst : EvaluatesAll (eval context (fuel + 1)) frame m (evaluated.operands.take 2) m := by
    rw [operands_map, ← List.map_take]
    apply evaluatesAll_values
  have hrest : EvaluatesAll (eval context (fuel + 1)) frame m (evaluated.operands.drop 2) m := by
    rw [operands_map, ← List.map_drop]
    apply evaluatesAll_values
  obtain ⟨result, s', hdoes, hrun⟩ := call.run_meets href
  refine ⟨result, s', hdoes, ?_⟩
  rw [← hexprs, eval, Run.located, perform_form (fuel + 1) hfirst hrest hcall, hrun]
  rfl

theorem eval_form_values_same :
    let m : Machine := { store := { strings := #[.ofList ['a', 'b']] } }
    let e := Expr.node none (.concat (valueExpr (.string 0)) (valueExpr (.string 0)))
    ∃ s', eval none 2 0 e m = .ok (.string 0) { m with store := s' } ∧
      s'.text 0 = ['a', 'b', 'a', 'b'] := by
  intro m e
  have hcall : (concat (.string 0) (.string 0)).call? (Value.text? m.store)
      = some (.concat 0 ['a', 'b']) := by
    rfl
  have href : 0 < m.store.strings.size := by decide
  obtain ⟨result, s', hdoes, heval⟩ := eval_form_values none 0 0 none hcall href
  cases hdoes with
  | answers _ h =>
    cases h with
    | concat h => exact ⟨s', heval, h.text⟩
  | outOfRange hrange => exact absurd trivial hrange

end StringOp

end LispScript
