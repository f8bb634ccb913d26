import LispScript.Eval.Primitive
import LispScript.Proofs.Tree

/-!
This module contains what an evaluation can do to a machine in one step, and what it means that a
property survives all of these steps. A `Regime` says what holds of a store at all times, and of the
values, the frames and the trees that are in use. `Store.Change` lists the steps; those that bind a
name bind it in the frame `home`. A regime is `Lawful` if every step keeps it and everything that is
taken out of a store is good.
-/

namespace LispScript

structure Store.Grows (s t : Store) : Prop where
  strings : s.strings.size ≤ t.strings.size
  arrays : s.arrays.size ≤ t.arrays.size
  recordTypes : s.recordTypes.size ≤ t.recordTypes.size
  records : s.records.size ≤ t.records.size
  closures : s.closures.size ≤ t.closures.size
  frames : s.frames.size ≤ t.frames.size

namespace Store.Grows

theorem refl (s : Store) : s.Grows s := by
  constructor <;> apply Nat.le_refl

theorem trans {s t u : Store} (hst : s.Grows t) (htu : t.Grows u) : s.Grows u where
  strings := Nat.le_trans hst.strings htu.strings
  arrays := Nat.le_trans hst.arrays htu.arrays
  recordTypes := Nat.le_trans hst.recordTypes htu.recordTypes
  records := Nat.le_trans hst.records htu.records
  closures := Nat.le_trans hst.closures htu.closures
  frames := Nat.le_trans hst.frames htu.frames

end Store.Grows

/--
The value is there, and so is the object that it refers to.
-/
def Value.Within (s : Store) : Value → Prop
  | .absent => False
  | .string r => r < s.strings.size
  | .array r => r < s.arrays.size
  | .recordType r => r < s.recordTypes.size
  | .record r => r < s.records.size
  | .closure r => r < s.closures.size
  | _ => True

/--
The sorts of faults that the evaluation of an expression can raise.
-/
def FaultSort.isRaised : FaultSort → Bool
  | .unknownSymbol | .duplicateDefinition | .operandType | .expressionType => true
  | .incompatibleTypes | .divisionByZero | .outOfRange | .argumentCount => true
  | .unknownMember | .malformed => true
  | .unknownFile | .strayBreak | .other => false

structure Regime where
  store : Store → Prop
  value : Store → Value → Prop
  frame : Store → Nat → Prop
  node : Store → Option Location → Form Value → Prop

namespace Regime

variable (G : Regime)

def expr (s : Store) (e : Expr Value) : Prop :=
  e.Every (G.node s)

def fault (f : Fault) : Prop :=
  f.sort.isRaised ∨ (∃ s, G.value s .absent) ∧ ∃ form, f = .noValue form

def interrupt : Interrupt → Prop
  | .breakLoop _ => False
  | .failure f => f.origin = none ∧ G.fault f.fault
  | .exhausted => True

end Regime

namespace Store

inductive Change (G : Regime) (home : Option Nat) (s : Store) : Store → Prop where
  | bind {frame : Nat} {name : String} {v : Value} (hhome : home = some frame)
      (hv : G.value s v) : Change G home s (s.bind frame name v)
  | rebind {target : Nat} {name : String} {v : Value} (hv : G.value s v) :
      Change G home s (s.rebind target name v)
  | addString (b : TextBuffer) : Change G home s (s.addString b).2
  | setChar (ref i : Nat) (c : Char) : Change G home s (s.setChar ref i c)
  | appendChars (ref : Nat) (suffix : Array Char) : Change G home s (s.appendChars ref suffix)
  | addArray {elements : Array Value} (hvs : ∀ v ∈ elements, G.value s v) :
      Change G home s (s.addArray elements).2
  | setElement {ref i : Nat} {v : Value} (hv : G.value s v) :
      Change G home s (s.setElement ref i v)
  | pushElement {ref : Nat} {v : Value} (hv : G.value s v) : Change G home s (s.pushElement ref v)
  | addRecordType (t : RecordType) : Change G home s (s.addRecordType t).2
  | addBlankRecord {type : Nat} (ht : G.value s (.recordType type)) :
      Change G home s (s.addBlankRecord type).2
  | setField {ref : Nat} {member : String} {v : Value} (hv : G.value s v) :
      Change G home s (s.setField ref member v)
  | addClosure {c : Closure} (hframe : G.frame s c.frame) (hbody : G.expr s c.body) :
      Change G home s (s.addClosure c).2
  | clone {v : Value} (hv : G.value s v) : Change G home s (Value.clone s v).2

end Store

inductive Machine.Change (G : Regime) (home : Option Nat) (m : Machine) : Machine → Prop where
  | store {s : Store} (h : m.store.Change G home s) : Change G home m { m with store := s }
  | print (text : String) : Change G home m { m with output := m.output ++ text }
  | read {line : Text} {input : List Text} (h : m.input = line :: input) :
      Change G home m { m with input }

class Regime.Lawful (G : Regime) : Prop where
  value_grows {s t : Store} {v : Value} : s.Grows t → G.value s v → G.value t v
  frame_grows {s t : Store} {f : Nat} : s.Grows t → G.frame s f → G.frame t f
  node_grows {s t : Store} {location : Option Location} {form : Form Value} :
    s.Grows t → G.node s location form → G.node t location form
  value_of_within {s : Store} {v : Value} : v.Within s → G.value s v
  frame_of_lt {s : Store} {f : Nat} : f < s.frames.size → G.frame s f
  literal {s : Store} {location : Option Location} {v : Value} :
    G.node s location (.literal v) → G.value s v.orNull
  lookup {s : Store} {frame : Nat} {name : String} {v : Value} :
    G.store s → s.lookup frame name = some v → G.value s v
  element {s : Store} {ref i : Nat} {v : Value} :
    G.store s → (s.array ref)[i]? = some v → G.value s v
  field {s : Store} {ref : Nat} {member : String} {v : Value} :
    G.store s → (s.record ref).fields.lookup member = some v → G.value s v
  closure {s : Store} {ref : Nat} :
    G.store s → G.value s (.closure ref) →
      G.frame s (s.closure ref).frame ∧ G.expr s (s.closure ref).body
  clone {s : Store} {v : Value} :
    G.store s → G.value s v → G.value (Value.clone s v).2 (Value.clone s v).1
  change {s t : Store} {home : Option Nat} : G.store s → s.Change G home t → G.store t
  addFrame {s : Store} {parent : Nat} :
    G.store s → G.frame s parent → G.store (s.addFrame (some parent)).2

theorem Regime.Lawful.expr_grows {G : Regime} [G.Lawful] {s t : Store} {e : Expr Value}
    (hst : s.Grows t) (h : G.expr s e) : G.expr t e := by
  apply h.mono
  intro location form
  apply node_grows hst

end LispScript
