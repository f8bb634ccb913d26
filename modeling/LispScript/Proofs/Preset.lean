import LispScript.Proofs.Copying
import LispScript.Proofs.Safety

/-!
This module contains what becomes of a store, and of the operations on a machine, if a frame has one more
binding than it would have. The binding is older than all others of the frame. Every operation that does
not mention its name comes to the same, and leaves the binding where it is; a run of which this holds on
all machines is `Inert`.
-/

namespace LispScript

/--
A binding that a frame has from the beginning.
-/
structure Binding where
  frame : Nat
  name : String
  value : Value

def Frame.preset (f : Frame) (b : Binding) : Frame :=
  { f with bindings := f.bindings ++ [(b.name, b.value)] }

def Store.preset (s : Store) (b : Binding) : Store :=
  { s with frames := s.frames.modify b.frame (·.preset b) }

def Machine.preset (m : Machine) (b : Binding) : Machine :=
  { m with store := m.store.preset b }

variable {b : Binding} {name : String}

/-! Frames. -/

theorem Frame.lookup_preset (f : Frame) (hname : name ≠ b.name) :
    (f.preset b).lookup name = f.lookup name := by
  unfold Frame.lookup Frame.preset
  rw [List.lookup_append, List.lookup_cons, beq_false_of_ne hname]
  simp

theorem Frame.rebind_preset (f : Frame) (hname : name ≠ b.name) (v : Value) :
    { f.preset b with bindings := replaceValue name v (f.preset b).bindings }
      = Frame.preset { f with bindings := replaceValue name v f.bindings } b := by
  simp [replaceValue, Frame.preset, Ne.symm hname]

theorem modify_modify_comm {α : Type} {f g : α → α} (h : ∀ x, f (g x) = g (f x)) (xs : Array α)
    (i j : Nat) : (xs.modify i g).modify j f = (xs.modify j f).modify i g := by
  apply Array.ext
  . simp
  . intro k hk _
    simp only [Array.getElem_modify]
    split <;> split <;> simp [h]

theorem modify_push {α : Type} {f : α → α} {xs : Array α} {i : Nat} (h : i < xs.size) (x : α) :
    (xs.push x).modify i f = (xs.modify i f).push x := by
  apply Array.ext
  . simp
  . intro k hk _
    simp only [Array.getElem_modify, Array.getElem_push, Array.size_modify]
    split <;> split <;> simp_all

namespace Store

variable (s : Store)

theorem frame_preset (a : Nat) :
    (s.preset b).frame a = s.frame a ∨ (s.preset b).frame a = (s.frame a).preset b := by
  simp only [frame, preset, Array.getElem?_modify]
  split
  . cases s.frames[a]? with
    | none => exact .inl rfl
    | some f => exact .inr rfl
  . exact .inl rfl

theorem parent_frame_preset (a : Nat) : ((s.preset b).frame a).parent = (s.frame a).parent := by
  cases s.frame_preset (b := b) a with
  | inl h => rw [h]
  | inr h => rw [h, Frame.preset]

variable (hname : name ≠ b.name)

include hname

theorem lookup_frame_preset (a : Nat) : ((s.preset b).frame a).lookup name = (s.frame a).lookup name := by
  cases s.frame_preset (b := b) a with
  | inl h => rw [h]
  | inr h => rw [h, Frame.lookup_preset _ hname]

theorem binds_frame_preset (a : Nat) : ((s.preset b).frame a).binds name = (s.frame a).binds name := by
  unfold Frame.binds
  rw [s.lookup_frame_preset hname]

theorem nearest_preset (fuel a : Nat) : (s.preset b).nearest name fuel a = s.nearest name fuel a := by
  induction fuel generalizing a with
  | zero => rfl
  | succ fuel ih =>
    unfold nearest
    rw [s.binds_frame_preset hname, s.parent_frame_preset]
    simp only [ih]

theorem resolve_preset (a : Nat) : (s.preset b).resolve a name = s.resolve a name :=
  s.nearest_preset hname (a + 1) a

theorem lookup_preset (a : Nat) : (s.preset b).lookup a name = s.lookup a name := by
  simp only [lookup_eq, s.resolve_preset hname, s.lookup_frame_preset hname]

theorem isBound_preset (a : Nat) : (s.preset b).isBound a name = s.isBound a name := by
  rw [isBound_eq, isBound_eq, s.resolve_preset hname]

omit hname

theorem modify_preset {f : Frame → Frame} (hf : ∀ x, f (x.preset b) = (f x).preset b) (a : Nat) :
    { s.preset b with frames := (s.preset b).frames.modify a f }
      = Store.preset { s with frames := s.frames.modify a f } b := by
  simp only [preset, modify_modify_comm hf]

theorem bind_preset (a : Nat) (v : Value) : (s.preset b).bind a name v = (s.bind a name v).preset b :=
  s.modify_preset (fun _ => rfl) a

theorem rebind_preset (hname : name ≠ b.name) (a : Nat) (v : Value) :
    (s.preset b).rebind a name v = (s.rebind a name v).preset b :=
  s.modify_preset (fun f => f.rebind_preset hname v.orNull) a

theorem bind_eq_preset {a : Nat} (ha : (s.frame a).bindings = []) (v : Value) :
    s.bind a name v = s.preset { frame := a, name, value := v.orNull } := by
  have hframes : (s.bind a name v).frames
      = (s.preset { frame := a, name, value := v.orNull }).frames := by
    apply Array.ext
    . simp [bind, preset]
    . intro i hi _
      have hi : i < s.frames.size := by simpa [bind] using hi
      simp only [bind, preset, Array.getElem_modify]
      split
      . next hai =>
        subst hai
        have hempty : s.frames[a].bindings = [] := by simpa [frame, hi] using ha
        simp [Frame.preset, hempty]
      . rfl
  simp only [bind, preset] at hframes ⊢
  rw [hframes]

theorem addFrame_preset (hb : b.frame < s.frames.size) (parent : Option Nat) :
    (s.preset b).addFrame parent = ((s.addFrame parent).1, (s.addFrame parent).2.preset b) := by
  simp only [addFrame, preset, Array.size_modify, modify_push hb]

end Store

/-! Copies. -/

namespace Value

def Copying.preset (c : Copying) (b : Binding) : Copying :=
  { c with store := c.store.preset b }

theorem cloneFlat_preset (v : Value) (c : Copying) :
    cloneFlat v (c.preset b) = ((cloneFlat v c).1, (cloneFlat v c).2.preset b) := by
  cases v <;> rfl

theorem cloneAll_go_preset {clone : Value → Copying → Value × Copying}
    (hclone : ∀ v c, clone v (c.preset b) = ((clone v c).1, (clone v c).2.preset b))
    (vs copies : List Value) (c : Copying) :
    cloneAll.go clone vs copies (c.preset b)
      = ((cloneAll.go clone vs copies c).1, (cloneAll.go clone vs copies c).2.preset b) := by
  induction vs generalizing copies c with
  | nil => rfl
  | cons v vs ih => simp only [cloneAll.go, hclone, ih]

theorem cloneInto_preset (fuel : Nat) (v : Value) (c : Copying) :
    cloneInto fuel v (c.preset b) = ((cloneInto fuel v c).1, (cloneInto fuel v c).2.preset b) := by
  induction fuel generalizing v c with
  | zero => apply cloneFlat_preset
  | succ fuel ih =>
    cases v with
    | array r =>
      have hparts := cloneAll_go_preset ih ((c.store.addArray #[]).2.array r).toList []
        { c with store := (c.store.addArray #[]).2, arrays := (r, c.store.arrays.size) :: c.arrays }
      have hlookup : (c.preset b).arrays = c.arrays := rfl
      simp only [cloneInto, hlookup]
      split
      . rfl
      . exact congrArg (fun r : List Value × Copying => (Value.array c.store.arrays.size,
          { r.2 with
            store := { r.2.store with
              arrays := r.2.store.arrays.setIfInBounds c.store.arrays.size r.1.toArray } })) hparts
    | record r =>
      have hparts := cloneAll_go_preset ih ((c.store.record r).fields.map Prod.snd) []
        { c with
          store := (c.store.addRecord { type := (c.store.record r).type, fields := [] }).2
          records := (r, c.store.records.size) :: c.records }
      have hlookup : (c.preset b).records = c.records := rfl
      simp only [cloneInto, hlookup]
      split
      . rfl
      . exact congrArg (fun r' : List Value × Copying => (Value.record c.store.records.size,
          { r'.2 with
            store := { r'.2.store with
              records := r'.2.store.records.setIfInBounds c.store.records.size
                { type := (c.store.record r).type
                  fields := ((c.store.record r).fields.map Prod.fst).zip r'.1 } } })) hparts
    | _ => apply cloneFlat_preset

theorem clone_preset (s : Store) (v : Value) :
    clone (s.preset b) v = ((clone s v).1, (clone s v).2.preset b) := by
  have h := cloneInto_preset (b := b) (s.arrays.size + s.records.size + 1) v { store := s }
  exact congrArg (fun r => (r.1, r.2.store)) h

end Value

/-! Runs. -/

namespace Run

variable {α β : Type}

/--
The result of a run, with the binding in the machine.
-/
def presetResult (b : Binding) : EStateM.Result Interrupt Machine α → EStateM.Result Interrupt Machine α
  | .ok a m => .ok a (m.preset b)
  | .error i m => .error i (m.preset b)

/--
The run comes to the same with and without the binding, and does not change it.
-/
def Inert (b : Binding) (r : Run α) : Prop :=
  ∀ m : Machine, r (m.preset b) = presetResult b (r m)

namespace Inert

theorem pure (a : α) : Inert b (Pure.pure a) :=
  fun _ => rfl

theorem fail (fault : Fault) : Inert b (Run.fail fault : Run α) :=
  fun _ => rfl

theorem bind {x : Run α} {f : α → Run β} (hx : Inert b x) (hf : ∀ a, Inert b (f a)) :
    Inert b (x >>= f) := by
  intro m
  cases hm : x m with
  | ok a m' =>
    have hm' : x (m.preset b) = .ok a (m'.preset b) := by rw [hx, hm, presetResult]
    rw [bind_ok hm, bind_ok hm', hf]
  | error i m' =>
    have hm' : x (m.preset b) = .error i (m'.preset b) := by rw [hx, hm, presetResult]
    rw [bind_error hm, bind_error hm', presetResult]

theorem inspect {f : Store → α} (hf : ∀ s, f (s.preset b) = f s) : Inert b (Run.inspect f) := by
  intro m
  exact congrArg (fun a => EStateM.Result.ok a (m.preset b)) (hf m.store)

theorem update {f : Store → Store} (hf : ∀ s, f (s.preset b) = (f s).preset b) :
    Inert b (Run.update f) := by
  intro m
  exact congrArg (fun s => EStateM.Result.ok () { m with store := s }) (hf m.store)

theorem create {add : Store → α × Store}
    (hadd : ∀ s, add (s.preset b) = ((add s).1, (add s).2.preset b)) : Inert b (Run.create add) := by
  intro m
  exact congrArg (fun r => EStateM.Result.ok r.1 { m with store := r.2 }) (hadd m.store)

theorem ofPrimitive (x : Except Fault α) : Inert b (Run.ofPrimitive x) := by
  cases x with
  | ok a => exact .pure a
  | error fault => exact .fail fault

theorem consult {f : Store → Except Fault α} (hf : ∀ s, f (s.preset b) = f s) :
    Inert b (Run.consult f) := by
  intro m
  show Run.ofPrimitive (f (m.store.preset b)) (m.preset b)
    = presetResult b (Run.ofPrimitive (f m.store) m)
  rw [hf]
  apply ofPrimitive

theorem print (text : String) : Inert b (Run.print text) := by
  intro m
  obtain ⟨store, output, input, muted⟩ := m
  cases muted <;> rfl

theorem nextLine : Inert b Run.nextLine := by
  intro m
  obtain ⟨store, output, input, muted⟩ := m
  cases input <;> rfl

/-! Names. -/

theorem define (hname : name ≠ b.name) (a : Nat) (v : Value) : Inert b (Run.define a name v) := by
  apply bind (.inspect fun s => s.binds_frame_preset hname a)
  intro bound
  cases bound with
  | true => exact .fail _
  | false => exact update (f := (·.bind a name v)) fun s => s.bind_preset a v

theorem assign (hname : name ≠ b.name) (a : Nat) (v : Value) : Inert b (Run.assign a name v) := by
  rw [Run.assign_eq]
  apply bind (.inspect fun s => s.resolve_preset hname a)
  intro target
  cases target with
  | none => exact .fail _
  | some target => exact .update fun s => s.rebind_preset hname target v

theorem lookup (hname : name ≠ b.name) (a : Nat) : Inert b (Run.lookup a name) := by
  apply bind (.inspect fun s => s.lookup_preset hname a)
  intro v
  cases v with
  | none => exact .fail _
  | some v => exact .pure v

theorem bindAll (a : Nat) {ps : List (String × Value)} (hnames : ∀ p ∈ ps, p.1 ≠ b.name) :
    Inert b (Run.bindAll a ps) := by
  induction ps with
  | nil => exact .pure ()
  | cons p ps ih =>
    obtain ⟨name, v⟩ := p
    obtain ⟨hname, hnames⟩ := List.forall_mem_cons.1 hnames
    apply bind (.define hname a v)
    intro _
    exact ih hnames

/-! Objects. -/

theorem stringLength (a : Nat) : Inert b (Run.stringLength a) :=
  .inspect fun _ => rfl

theorem charAt (a : Nat) (i : Int64) : Inert b (Run.charAt a i) := by
  apply bind (.inspect fun _ => rfl)
  intro chars
  apply bind (.ofPrimitive _)
  intro i
  exact .pure _

theorem setCharAt (a : Nat) (i : Int64) (c : Char) : Inert b (Run.setCharAt a i c) := by
  apply bind (stringLength a)
  intro size
  apply bind (.ofPrimitive _)
  intro i
  exact .update fun _ => rfl

theorem appendChars (a : Nat) (suffix : List Char) : Inert b (Run.appendChars a suffix) :=
  .update fun _ => rfl

theorem substring (a : Nat) (start length : Int64) : Inert b (Run.substring a start length) := by
  apply bind (.consult fun _ => rfl)
  intro part
  exact .create fun _ => rfl

theorem chars (x : TextOperand) : Inert b (Run.inspect fun s => x.chars s) := by
  cases x with
  | char c => exact .inspect fun _ => rfl
  | view v => exact .inspect fun _ => rfl

theorem find (a : Nat) (x : TextOperand) (start : Int64) : Inert b (Run.find a x start) := by
  cases x with
  | char c => exact .consult fun _ => rfl
  | view v => exact .consult fun _ => rfl

theorem arrayLength (a : Nat) : Inert b (Run.arrayLength a) :=
  .inspect fun _ => rfl

theorem arrayGet (a : Nat) (i : Int64) : Inert b (Run.arrayGet a i) := by
  apply bind (.inspect fun _ => rfl)
  intro elements
  apply bind (.ofPrimitive _)
  intro i
  exact .pure _

theorem arraySet (a : Nat) (i : Int64) (v : Value) : Inert b (Run.arraySet a i v) := by
  apply bind (arrayLength a)
  intro size
  apply bind (.ofPrimitive _)
  intro i
  exact .update fun _ => rfl

theorem arrayAdd (a : Nat) (v : Value) : Inert b (Run.arrayAdd a v) :=
  .update fun _ => rfl

theorem getMember (a : Nat) (member : String) : Inert b (Run.getMember a member) :=
  .consult fun _ => rfl

theorem setMember (a : Nat) (member : String) (v : Value) : Inert b (Run.setMember a member v) := by
  apply bind (getMember a member)
  intro _
  exact .update fun _ => rfl

theorem clone (v : Value) : Inert b (Run.clone v) :=
  .create fun s => Value.clone_preset s v

theorem present (form : String) (v : Value) : Inert b (Run.present form v) := by
  cases v with
  | absent => exact .fail _
  | _ => exact .pure _

theorem readLiteral : Inert b Run.readLiteral := by
  apply bind nextLine
  intro line
  dsimp only
  split
  . exact .pure _
  . cases Literal.parse line.trim.chars with
    | error e => exact .fail _
    | ok l =>
      apply create
      intro s
      cases l <;> rfl

end Inert

end Run

end LispScript
