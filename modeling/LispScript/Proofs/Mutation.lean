import LispScript.Proofs.Cells
import LispScript.Proofs.StringOp

/-!
This module contains what becomes of a form that changes something: `var`, `def`, `=`, `setcharat`, `concat`,
`arrset`, `arradd` and `set`. When its operands have been evaluated, it either gives contents to the one
cell that they name, or to the cells behind the end of a string, or it fails and leaves the machine as the
last operand has left it.
-/

namespace LispScript

/-! Mutations. -/

/--
What changes something. The operands are runs, or the values that these have come to.
-/
inductive Mutation (α : Type) where
  | define (name : String) (value : α)
  | assign (name : String) (value : α)
  | setCharAt (string index char : α)
  | concat (string suffix : α)
  | arraySet (array index value : α)
  | arrayAdd (array value : α)
  | setMember (record : α) (member : String) (value : α)

namespace Mutation

variable {α β : Type}

def map (f : α → β) : Mutation α → Mutation β
  | .define name value => .define name (f value)
  | .assign name value => .assign name (f value)
  | .setCharAt string index char => .setCharAt (f string) (f index) (f char)
  | .concat string suffix => .concat (f string) (f suffix)
  | .arraySet array index value => .arraySet (f array) (f index) (f value)
  | .arrayAdd array value => .arrayAdd (f array) (f value)
  | .setMember record member value => .setMember (f record) member (f value)

/--
The operands in the order in which they are evaluated.
-/
def operands : Mutation α → List α
  | .define _ value | .assign _ value => [value]
  | .setCharAt string index char => [string, index, char]
  | .concat string suffix => [string, suffix]
  | .arraySet array index value => [array, index, value]
  | .arrayAdd array value => [array, value]
  | .setMember record _ value => [record, value]

/--
A mutation without its operands.
-/
def shape (op : Mutation α) : Mutation Unit :=
  op.map fun _ => ()

/--
What the operands have to be, in their order.
-/
def expects : Mutation Unit → List (Store → Value → Prop)
  | .define _ _ | .assign _ _ => [fun _ v => ∃ w, v = w]
  | .setCharAt _ _ _ =>
    [fun _ v => ∃ r, v.string? = some r, fun _ v => ∃ i, v.integer? = some i,
      fun _ v => ∃ c, v.char? = some c]
  | .concat _ _ =>
    [fun _ v => ∃ r, v.string? = some r,
      fun s v => ∃ operand : Run.TextOperand, v.text? s = some (operand.chars s)]
  | .arraySet _ _ _ =>
    [fun _ v => ∃ r, v.array? = some r, fun _ v => ∃ i, v.integer? = some i, fun _ v => ∃ w, v = w]
  | .arrayAdd _ _ => [fun _ v => ∃ r, v.array? = some r, fun _ v => ∃ w, v = w]
  | .setMember _ _ _ => [fun _ v => ∃ r, v.record? = some r, fun _ v => ∃ w, v = w]

/--
On these values in the store `s`, the mutation in the frame `frame` writes into the object: it gives the
contents of the patch to its cells, and yields a value.
-/
inductive Writes (s : Store) (frame : Nat) : Mutation Value → Realm × Nat → Patch → Value → Prop where
  | define {name : String} {v : Value} (hnew : ¬ (s.frame frame).binds name) :
      Writes s frame (.define name v) (.frames, frame)
        ((Cell.binding frame name).put (.value v.orNull)) v
  | assign {name : String} {v : Value} {target : Nat} (h : s.resolve frame name = some target)
      (hfirst : s.Resolves name frame target) :
      Writes s frame (.assign name v) (.frames, target)
        ((Cell.binding target name).put (.value v.orNull)) v
  | setCharAt {string index char : Value} {ref : Nat} {i : Int64} {c : Char}
      (href : string.string? = some ref) (hi : index.integer? = some i) (hc : char.char? = some c)
      (hlow : 0 ≤ i.toInt) (hhigh : i.toInt < (s.text ref).length) :
      Writes s frame (.setCharAt string index char) (.strings, ref)
        ((Cell.character ref i.toInt.toNat).put (.char c)) (.string ref)
  | concat {string suffix : Value} {ref : Nat} {text : List Char} (href : string.string? = some ref)
      (htext : suffix.text? s = some text) :
      Writes s frame (.concat string suffix) (.strings, ref)
        (Cell.extend ref (s.text ref).length text) (.string ref)
  | arraySet {array index v : Value} {ref : Nat} {i : Int64} (href : array.array? = some ref)
      (hi : index.integer? = some i) (hlow : 0 ≤ i.toInt) (hhigh : i.toInt < (s.array ref).size) :
      Writes s frame (.arraySet array index v) (.arrays, ref)
        ((Cell.element ref i.toInt.toNat).put (.value v)) v
  | arrayAdd {array v : Value} {ref : Nat} (href : array.array? = some ref) :
      Writes s frame (.arrayAdd array v) (.arrays, ref)
        ((Cell.element ref (s.array ref).size).put (.value v)) (.array ref)
  | setMember {record v : Value} {member : String} {ref : Nat} (href : record.record? = some ref)
      (hmember : ((s.record ref).fields.lookup member).isSome) :
      Writes s frame (.setMember record member v) (.records, ref)
        ((Cell.field ref member).put (.value v)) v

/--
Whatever the operands come to that are still to be evaluated, there is nothing to write into.
-/
def Stuck (op : Mutation Unit) (frame : Nat) (vs : List Value) (s : Store) : Prop :=
  ∀ values : Mutation Value, values.shape = op → vs <+: values.operands →
    ∀ object patch v, ¬ values.Writes s frame object patch v

theorem eq_of_operands {values values' : Mutation Value} (hshape : values'.shape = values.shape)
    (h : values.operands <+: values'.operands) : values' = values := by
  cases values <;> cases values' <;> simp_all [shape, map, operands]

theorem stuck_values {values : Mutation Value} {frame : Nat} {s : Store}
    (h : ∀ object patch v, ¬ values.Writes s frame object patch v) :
    values.shape.Stuck frame values.operands s := by
  intro values' hshape hvs
  rw [eq_of_operands hshape hvs]
  exact h

theorem Writes.expects {values : Mutation Value} {frame : Nat} {s : Store} {object : Realm × Nat}
    {patch : Patch} {w : Value} (h : values.Writes s frame object patch w) :
    List.Forall₂ (fun P v => P s v) values.shape.expects values.operands := by
  cases h with
  | define | assign => exact .cons ⟨_, rfl⟩ .nil
  | setCharAt href hi hc => exact .cons ⟨_, href⟩ (.cons ⟨_, hi⟩ (.cons ⟨_, hc⟩ .nil))
  | @concat _ suffix _ _ href htext =>
    refine .cons ⟨_, href⟩ (.cons ?_ .nil)
    cases suffix with
    | string r => exact ⟨.view ((s.string r).view r), congrArg some ((s.string r).seen_view r).symm⟩
    | char c => exact ⟨.char c, rfl⟩
    | _ => contradiction
  | arraySet href hi => exact .cons ⟨_, href⟩ (.cons ⟨_, hi⟩ (.cons ⟨_, rfl⟩ .nil))
  | arrayAdd href => exact .cons ⟨_, href⟩ (.cons ⟨_, rfl⟩ .nil)
  | setMember href => exact .cons ⟨_, href⟩ (.cons ⟨_, rfl⟩ .nil)

/--
An operand that is not what it has to be is enough.
-/
theorem stuck_operand {op : Mutation Unit} {frame : Nat} {vs : List Value} {v : Value} {s : Store}
    {P : Store → Value → Prop} (hop : op.expects[vs.length]? = some P) (hv : ¬ P s v) :
    op.Stuck frame (vs ++ [v]) s := by
  rintro values rfl ⟨rest, hrest⟩ object patch w hwrites
  have hexpects := hwrites.expects
  rw [← hrest, List.append_assoc] at hexpects
  have hlength := hexpects.length_eq
  have hget := hexpects.get (i := vs.length) (by grind) (by simp)
  rw [List.getElem?_eq_some_iff] at hop
  obtain ⟨hlt, rfl⟩ := hop
  apply hv
  simpa using hget

end Mutation

namespace Run

/--
One after the other, the runs come to the values beside them.
-/
inductive Yields : Machine → List (Run Value × Value) → Machine → Prop where
  | nil (m : Machine) : Yields m [] m
  | cons {r : Run Value} {v : Value} {rest : List (Run Value × Value)} {m m₁ m' : Machine}
      (h : r m = .ok v m₁) (hrest : Yields m₁ rest m') : Yields m ((r, v) :: rest) m'

theorem Yields.concat {done : List (Run Value × Value)} {r : Run Value} {v : Value} {m m₁ m₂ : Machine}
    (h : Yields m done m₁) (hr : r m₁ = .ok v m₂) : Yields m (done ++ [(r, v)]) m₂ := by
  induction h with
  | nil m => exact .cons hr (.nil m₂)
  | cons h _ ih => exact .cons h (ih hr)

end Run

namespace Mutation

/--
What becomes of a mutation in a frame of the machine `m`. By `written`, all operands have been evaluated and
what they name has been written, and by `refused`, there is nothing to write into, given the operands that
have been evaluated so far. By `interrupted`, the evaluation of an operand has been interrupted.
-/
inductive Outcome (op : Mutation (Run Value)) (frame : Nat) (m : Machine) :
    EStateM.Result Interrupt Machine Value → Prop where
  | written (pairs : Mutation (Run Value × Value)) {m₁ : Machine} {object : Realm × Nat} {patch : Patch}
      {v : Value} {s' : Store} (hop : pairs.map Prod.fst = op)
      (hoperands : Run.Yields m pairs.operands m₁)
      (hwrites : (pairs.map Prod.snd).Writes m₁.store frame object patch v)
      (hpatched : m₁.store.Patched object patch s') :
      Outcome op frame m (.ok v { m₁ with store := s' })
  | refused {done : List (Run Value × Value)} {m₁ : Machine} {fault : Fault}
      (hdone : done.map Prod.fst <+: op.operands) (hoperands : Run.Yields m done m₁)
      (hstuck : op.shape.Stuck frame (done.map Prod.snd) m₁.store) :
      Outcome op frame m (.error (.failure { fault }) m₁)
  | interrupted {done : List (Run Value × Value)} {r : Run Value} {m₁ m₂ : Machine} {i : Interrupt}
      (hdone : done.map Prod.fst ++ [r] <+: op.operands) (hoperands : Run.Yields m done m₁)
      (hr : r m₁ = .error i m₂) : Outcome op frame m (.error i m₂)

/--
The first operands have been evaluated.
-/
structure Reached (op : Mutation (Run Value)) (m : Machine) (done : List (Run Value × Value))
    (m₁ : Machine) : Prop where
  sub : done.map Prod.fst <+: op.operands
  yields : Run.Yields m done m₁

namespace Reached

variable {op : Mutation (Run Value)} {m m₁ m₂ : Machine} {done : List (Run Value × Value)} {r : Run Value}
  {v : Value}

theorem start (op : Mutation (Run Value)) (m : Machine) : op.Reached m [] m :=
  ⟨List.nil_prefix, .nil m⟩

theorem next (h : op.Reached m done m₁) (hr : op.operands[done.length]? = some r) :
    done.map Prod.fst ++ [r] <+: op.operands := by
  obtain ⟨rest, hrest⟩ := h.sub
  rw [← hrest, ← List.length_map Prod.fst, List.getElem?_append_right (Nat.le_refl _), Nat.sub_self] at hr
  cases rest with
  | nil => contradiction
  | cons r' rest =>
    cases hr
    exact ⟨rest, by rw [← hrest, List.append_assoc]; rfl⟩

theorem concat (h : op.Reached m done m₁) (hr : op.operands[done.length]? = some r)
    (hrun : r m₁ = .ok v m₂) : op.Reached m (done ++ [(r, v)]) m₂ where
  sub := by
    rw [List.map_append]
    exact h.next hr
  yields := h.yields.concat hrun

theorem refused {frame : Nat} {fault : Fault} (h : op.Reached m done m₁) (values : Mutation Value)
    (hshape : values.shape = op.shape) (hvs : values.operands = done.map Prod.snd)
    (hnone : ∀ object patch w, ¬ values.Writes m₁.store frame object patch w) :
    op.Outcome frame m (.error (.failure { fault }) m₁) := by
  apply Outcome.refused h.sub h.yields
  rw [← hshape, ← hvs]
  exact stuck_values hnone

end Reached

end Mutation

/-! Operands. -/

namespace Run

/--
The run `x` is `r`, with something that is picked from its value; `P` says what. If nothing can be picked
it fails.
-/
structure Picks {α : Type} (x : Run α) (r : Run Value) (P : Store → Value → α → Prop) : Prop where
  ok : ∀ {m m' v}, r m = .ok v m' → (∃ a, x m = .ok a m' ∧ P m'.store v a) ∨
    ((∃ fault, x m = .error (.failure { fault }) m') ∧ ∀ a, ¬ P m'.store v a)
  error : ∀ {m m' i}, r m = .error i m' → x m = .error i m'

theorem picks_self (r : Run Value) : r.Picks r fun _ v a => v = a where
  ok h := .inl ⟨_, h, rfl⟩
  error h := h

theorem picks_option {α : Type} {x : Run α} {r : Run Value} {pick : Value → Option α}
    (fault : Value → Fault)
    (hx : x = r >>= fun v => match pick v with
      | some a => return a
      | none => fail (fault v)) : x.Picks r fun _ v a => pick v = some a where
  ok := by
    intro m m' v h
    rw [hx, bind_ok h]
    cases hpick : pick v with
    | none => exact .inr ⟨⟨fault v, rfl⟩, nofun⟩
    | some a => exact .inl ⟨a, rfl, rfl⟩
  error := by
    intro m m' i h
    rw [hx, bind_error h]

variable (run : Evaluator) (frame : Nat) (e : Expr Value)

theorem evalOperand_picks {α : Type} (pick : Value → Option α) (operation : String) :
    (evalOperand run pick operation frame e).Picks (run frame e) fun _ v a => pick v = some a :=
  picks_option (fun v => .operand operation v.kind) rfl

theorem evalPart_picks {α : Type} (pick : Value → Option α) (wanted : Kind) (role : String) :
    (evalPart run pick wanted role frame e).Picks (run frame e) fun _ v a => pick v = some a :=
  picks_option (fun v => .expression role wanted v.kind) rfl

theorem evalText_picks (operation : String) : (evalText run operation frame e).Picks (run frame e)
    fun s v operand => v.text? s = some (operand.chars s) where
  ok := by
    intro m m' v h
    cases htext : v.text? m'.store with
    | some text =>
      have hseen : v.seen? m'.store m'.store = some text := by
        rw [Value.seen?_eq_text? fun _ _ => rfl, htext]
      obtain ⟨operand, hoperand, rfl⟩ := evalText_ok operation h hseen
      exact .inl ⟨operand, hoperand, rfl⟩
    | none =>
      refine .inr ⟨⟨.operand operation v.kind, ?_⟩, nofun⟩
      rw [evalText, bind_ok h]
      cases v with
      | string ref => contradiction
      | char c => contradiction
      | _ => rfl
  error := by
    intro m m' i h
    rw [evalText, bind_error h]

theorem setCharAt_apply (ref : Nat) (i : Int64) (c : Char) (m : Machine) :
    setCharAt ref i c m = if 0 ≤ i.toInt ∧ i.toInt < (m.store.text ref).length
      then .ok () { m with store := m.store.setChar ref i.toInt.toNat c }
      else .error (.failure { fault := .index "string index" i.toInt (m.store.text ref).length }) m := by
  have hrun : setCharAt ref i c m
      = (ofPrimitive (Primitive.index "string index" i (m.store.text ref).length) >>=
          fun k => update (·.setChar ref k c)) m := by
    rw [Store.length_text]
    rfl
  rw [hrun, Primitive.index]
  split
  . rfl
  . rfl

theorem arraySet_apply (ref : Nat) (i : Int64) (v : Value) (m : Machine) :
    arraySet ref i v m = if 0 ≤ i.toInt ∧ i.toInt < (m.store.array ref).size
      then .ok () { m with store := m.store.setElement ref i.toInt.toNat v }
      else .error (.failure { fault := .index "array index" i.toInt (m.store.array ref).size }) m := by
  have hrun : arraySet ref i v m
      = (ofPrimitive (Primitive.index "array index" i (m.store.array ref).size) >>=
          fun k => update (·.setElement ref k v)) m := by
    rfl
  rw [hrun, Primitive.index]
  split
  . rfl
  . rfl

theorem setMember_apply (ref : Nat) (member : String) (v : Value) (m : Machine) :
    setMember ref member v m = if ((m.store.record ref).fields.lookup member).isSome
      then .ok () { m with store := m.store.setField ref member v }
      else .error (.failure { fault := .unknownMember (m.store.typeOf ref).name member }) m := by
  have hget : getMember ref member m
      = ofPrimitive (Primitive.getField m.store ref member) m := rfl
  rw [Primitive.getField] at hget
  cases hfield : (m.store.record ref).fields.lookup member with
  | some old =>
    rw [hfield] at hget
    rw [setMember, bind_ok hget]
    rfl
  | none =>
    rw [hfield] at hget
    rw [setMember, bind_error hget]
    rfl

end Run

namespace Mutation

variable {op : Mutation (Run Value)} {frame : Nat} {m m₁ : Machine} {done : List (Run Value × Value)}

/--
After the operands that have been evaluated, the next one is.
-/
theorem Outcome.next {α : Type} {x : Run α} {f : α → Run Value} {r : Run Value}
    {P : Store → Value → α → Prop} (h : op.Reached m done m₁) (hx : x.Picks r P)
    (hr : op.operands[done.length]? = some r)
    (hP : op.shape.expects[done.length]? = some fun s v => ∃ a, P s v a)
    (hf : ∀ v a m₂, P m₂.store v a → op.Reached m (done ++ [(r, v)]) m₂ →
      op.Outcome frame m (f a m₂)) :
    op.Outcome frame m ((x >>= f) m₁) := by
  cases hrun : r m₁ with
  | error i m₂ =>
    rw [Run.bind_error (hx.error hrun)]
    exact .interrupted (h.next hr) h.yields hrun
  | ok v m₂ =>
    have hreached := h.concat hr hrun
    rcases hx.ok hrun with ⟨a, hok, hP⟩ | ⟨⟨fault, herror⟩, hnone⟩
    . rw [Run.bind_ok hok]
      exact hf v a m₂ hP hreached
    . rw [Run.bind_error herror]
      refine .refused hreached.sub hreached.yields ?_
      rw [List.map_append]
      rw [← List.length_map Prod.snd] at hP
      apply stuck_operand hP
      rintro ⟨a, ha⟩
      exact hnone a ha

/-! Operations. -/

theorem define_outcome (name : String) (r : Run Value) : (define name r).Outcome frame m
    ((do let v ← r; Run.define frame name v; return v : Run Value) m) := by
  refine .next (.start _ m) r.picks_self rfl rfl ?_
  rintro v _ m₁ rfl hreached
  have happly := Run.define_apply frame name v m₁
  split at happly
  . next hbound =>
    rw [Run.bind_error happly]
    refine hreached.refused (.define name v) rfl rfl ?_
    intro object patch w hwrites
    cases hwrites with
    | define hnew => exact hnew hbound
  . next hnew =>
    rw [Run.bind_ok happly]
    exact .written (.define name (r, v)) rfl hreached.yields (.define hnew)
      (m₁.store.bind_patched frame name v)

theorem assign_outcome (name : String) (r : Run Value) : (assign name r).Outcome frame m
    ((do let v ← r; Run.assign frame name v; return v : Run Value) m) := by
  refine .next (.start _ m) r.picks_self rfl rfl ?_
  rintro v _ m₁ rfl hreached
  have happly := Run.assign_apply frame name v m₁
  split at happly
  . next target htarget =>
    rw [Run.bind_ok happly]
    exact .written (.assign name (r, v)) rfl hreached.yields
      (.assign htarget (.of_nearest htarget))
      (Store.rebind_patched (Store.isSome_nearest_binds htarget) v)
  . next hnone =>
    rw [Run.bind_error happly]
    refine hreached.refused (.assign name v) rfl rfl ?_
    intro object patch w hwrites
    cases hwrites with
    | assign htarget => cases hnone.symm.trans htarget

theorem setCharAt_outcome {x : Run Nat} {y : Run Int64} {z : Run Char} {r₁ r₂ r₃ : Run Value}
    (hx : x.Picks r₁ fun _ v a => v.string? = some a) (hy : y.Picks r₂ fun _ v a => v.integer? = some a)
    (hz : z.Picks r₃ fun _ v a => v.char? = some a) : (setCharAt r₁ r₂ r₃).Outcome frame m
      ((do
        let ref ← x
        let i ← y
        let c ← z
        Run.setCharAt ref i c
        return .string ref : Run Value) m) := by
  refine .next (.start _ m) hx rfl rfl ?_
  intro v₁ ref m₁ href hreached
  refine .next hreached hy rfl rfl ?_
  intro v₂ i m₂ hi hreached
  refine .next hreached hz rfl rfl ?_
  intro v₃ c m₃ hc hreached
  have happly := Run.setCharAt_apply ref i c m₃
  split at happly
  . next hin =>
    rw [Run.bind_ok happly]
    exact .written (.setCharAt (r₁, v₁) (r₂, v₂) (r₃, v₃)) rfl hreached.yields
      (.setCharAt href hi hc hin.1 hin.2) (Store.setChar_patched (by omega) c)
  . next hout =>
    rw [Run.bind_error happly]
    refine hreached.refused (.setCharAt v₁ v₂ v₃) rfl rfl ?_
    intro object patch w hwrites
    cases hwrites with
    | setCharAt href' hi' _ hlow hhigh =>
      cases href.symm.trans href'
      cases hi.symm.trans hi'
      exact hout ⟨hlow, hhigh⟩

theorem concat_outcome {x : Run Nat} {y : Run Run.TextOperand} {r₁ r₂ : Run Value}
    (hx : x.Picks r₁ fun _ v a => v.string? = some a)
    (hy : y.Picks r₂ fun s v operand => v.text? s = some (operand.chars s)) :
    (concat r₁ r₂).Outcome frame m
      ((do
        let ref ← x
        let suffix ← y
        Run.appendChars ref (← Run.inspect fun s => suffix.chars s)
        return .string ref : Run Value) m) := by
  refine .next (.start _ m) hx rfl rfl ?_
  intro v₁ ref m₁ href hreached
  refine .next hreached hy rfl rfl ?_
  intro v₂ suffix m₂ hsuffix hreached
  exact .written (.concat (r₁, v₁) (r₂, v₂)) rfl hreached.yields (.concat href hsuffix)
    (m₂.store.appendChars_patched ref _)

theorem arraySet_outcome {x : Run Nat} {y : Run Int64} {r₁ r₂ r₃ : Run Value}
    (hx : x.Picks r₁ fun _ v a => v.array? = some a) (hy : y.Picks r₂ fun _ v a => v.integer? = some a) :
    (arraySet r₁ r₂ r₃).Outcome frame m
      ((do
        let ref ← x
        let i ← y
        let v ← r₃
        Run.arraySet ref i v
        return v : Run Value) m) := by
  refine .next (.start _ m) hx rfl rfl ?_
  intro v₁ ref m₁ href hreached
  refine .next hreached hy rfl rfl ?_
  intro v₂ i m₂ hi hreached
  refine .next hreached r₃.picks_self rfl rfl ?_
  rintro v _ m₃ rfl hreached
  have happly := Run.arraySet_apply ref i v m₃
  split at happly
  . next hin =>
    rw [Run.bind_ok happly]
    exact .written (.arraySet (r₁, v₁) (r₂, v₂) (r₃, v)) rfl hreached.yields
      (.arraySet href hi hin.1 hin.2) (Store.setElement_patched (by omega) v)
  . next hout =>
    rw [Run.bind_error happly]
    refine hreached.refused (.arraySet v₁ v₂ v) rfl rfl ?_
    intro object patch w hwrites
    cases hwrites with
    | arraySet href' hi' hlow hhigh =>
      cases href.symm.trans href'
      cases hi.symm.trans hi'
      exact hout ⟨hlow, hhigh⟩

theorem arrayAdd_outcome {x : Run Nat} {r₁ r₂ : Run Value}
    (hx : x.Picks r₁ fun _ v a => v.array? = some a) : (arrayAdd r₁ r₂).Outcome frame m
      ((do let ref ← x; let v ← r₂; Run.arrayAdd ref v; return .array ref : Run Value) m) := by
  refine .next (.start _ m) hx rfl rfl ?_
  intro v₁ ref m₁ href hreached
  refine .next hreached r₂.picks_self rfl rfl ?_
  rintro v _ m₂ rfl hreached
  exact .written (.arrayAdd (r₁, v₁) (r₂, v)) rfl hreached.yields (.arrayAdd href)
    (m₂.store.pushElement_patched ref v)

theorem setMember_outcome {x : Run Nat} {r₁ r₂ : Run Value} (member : String)
    (hx : x.Picks r₁ fun _ v a => v.record? = some a) : (setMember r₁ member r₂).Outcome frame m
      ((do let ref ← x; let v ← r₂; Run.setMember ref member v; return v : Run Value) m) := by
  refine .next (.start _ m) hx rfl rfl ?_
  intro v₁ ref m₁ href hreached
  refine .next hreached r₂.picks_self rfl rfl ?_
  rintro v _ m₂ rfl hreached
  have happly := Run.setMember_apply ref member v m₂
  split at happly
  . next hmember =>
    rw [Run.bind_ok happly]
    exact .written (.setMember (r₁, v₁) member (r₂, v)) rfl hreached.yields
      (.setMember href hmember) (Store.setField_patched hmember v)
  . next hmissing =>
    rw [Run.bind_error happly]
    refine hreached.refused (.setMember v₁ member v) rfl rfl ?_
    intro object patch w hwrites
    cases hwrites with
    | setMember href' hmember =>
      cases href.symm.trans href'
      exact hmissing hmember

end Mutation

/-! Forms. -/

/--
What a form changes, if its parts are evaluated by `run`.
-/
def Form.mutation? (run : Run.Evaluator) (frame : Nat) : Form Value → Option (Mutation (Run Value))
  | .define name value | .function name value => some (.define name (run frame value))
  | .assign name value => some (.assign name (run frame value))
  | .setCharAt string index char => some (.setCharAt (run frame string) (run frame index) (run frame char))
  | .concat string suffix => some (.concat (run frame string) (run frame suffix))
  | .arraySet array index value => some (.arraySet (run frame array) (run frame index) (run frame value))
  | .arrayAdd array value => some (.arrayAdd (run frame array) (run frame value))
  | .setMember record member value => some (.setMember (run frame record) member (run frame value))
  | _ => none

theorem Run.perform_outcome {run : Evaluator} {fuel frame : Nat} {location : Option Location}
    {form : Form Value} {op : Mutation (Run Value)} (h : form.mutation? run frame = some op)
    (m : Machine) : op.Outcome frame m (perform run fuel frame location form m) := by
  cases form with
  | define name value | function name value =>
    cases h
    apply Mutation.define_outcome
  | assign name value =>
    cases h
    apply Mutation.assign_outcome
  | setCharAt string index char =>
    cases h
    exact Mutation.setCharAt_outcome (evalOperand_picks ..) (evalOperand_picks ..) (evalOperand_picks ..)
  | concat string suffix =>
    cases h
    exact Mutation.concat_outcome (evalOperand_picks ..) (evalText_picks ..)
  | arraySet array index value =>
    cases h
    exact Mutation.arraySet_outcome (evalOperand_picks ..) (evalOperand_picks ..)
  | arrayAdd array value =>
    cases h
    exact Mutation.arrayAdd_outcome (evalOperand_picks ..)
  | setMember record member value =>
    cases h
    exact Mutation.setMember_outcome member (evalPart_picks ..)
  | _ => contradiction

/--
A form that changes something either writes what its operands name, and nothing else, or leaves everything
as its operands have left it.
-/
theorem eval_mutation (context : Option Context) (fuel frame : Nat) (location : Option Location)
    {form : Form Value} {op : Mutation (Run Value)} (m : Machine)
    (h : form.mutation? (eval context fuel) frame = some op) :
    ∃ r, op.Outcome frame m r ∧
      eval context (fuel + 1) frame (.node location form) m = Run.located context location (fun _ => r) m :=
  ⟨_, Run.perform_outcome h m, rfl⟩

/--
A string that is an element of an array is added to itself.
-/
theorem eval_mutation_same :
    let m : Machine := { store := { strings := #[.ofList ['a', 'b']], arrays := #[#[.string 0]] } }
    let element := Expr.node none
      (.arrayGet (StringOp.valueExpr (.array 0)) (StringOp.valueExpr (.integer 0)))
    let string := StringOp.valueExpr (.string 0)
    let op := Mutation.concat (eval none 3 0 element) (eval none 3 0 string)
    ∃ m', eval none 4 0 (.node none (.concat element string)) m = .ok (.string 0) m' ∧
      op.Outcome 0 m (.ok (.string 0) m') ∧ m'.store.text 0 = ['a', 'b', 'a', 'b'] := by
  intro m element string op
  let m' : Machine := { m with store := m.store.appendChars 0 #['a', 'b'] }
  have hdone : eval none 4 0 (.node none (.concat element string)) m = .ok (.string 0) m' := by
    rfl
  obtain ⟨r, houtcome, heval⟩ := eval_mutation none 3 0 none m
    (show (Form.concat element string).mutation? (eval none 3) 0 = some op from rfl)
  rw [hdone] at heval
  cases r with
  | ok v m' =>
    cases heval
    exact ⟨m', hdone, houtcome, by decide⟩
  | error i m' => cases i <;> contradiction

end LispScript
