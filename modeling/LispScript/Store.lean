import LispScript.Expr
import LispScript.Names
import LispScript.TextBuffer
import LispScript.Value

/-!
The store: every string, array, record type, record, closure and frame of a run. Objects are never
removed; a reference is the index of an object among those of its sort.
-/

namespace LispScript

structure RecordType where
  name : String
  members : List String
  deriving DecidableEq, Repr, Inhabited

structure Record where
  type : Nat
  fields : List (String × Value)
  deriving Inhabited

/--
A closure: parameters and body as they stand at `site`, and the frame it was made in.
-/
structure Closure where
  params : List String
  body : Expr Value
  site : Nat
  frame : Nat
  deriving Inhabited

structure Frame where
  parent : Option Nat
  bindings : List (String × Value) := []
  deriving Inhabited

namespace Frame

def lookup (f : Frame) (name : String) : Option Value :=
  f.bindings.lookup name

def binds (f : Frame) (name : String) : Bool :=
  (f.lookup name).isSome

def names (f : Frame) : List String :=
  f.bindings.map Prod.fst

theorem mem_names_iff (f : Frame) (name : String) : name ∈ f.names ↔ f.binds name := by
  rw [names, binds, lookup, List.lookup_isSome_iff, List.mem_map]
  constructor
  . rintro ⟨p, hp, rfl⟩
    exact ⟨p, hp, beq_self_eq_true _⟩
  . rintro ⟨p, hp, heq⟩
    exact ⟨p, hp, (beq_iff_eq.1 heq).symm⟩

end Frame

def replaceValue (key : String) (v : Value) (pairs : List (String × Value)) :
    List (String × Value) :=
  pairs.map fun (k, old) => if k == key then (k, v) else (k, old)

theorem keys_replaceValue (key : String) (v : Value) (pairs : List (String × Value)) :
    (replaceValue key v pairs).map Prod.fst = pairs.map Prod.fst := by
  simp only [replaceValue, List.map_map]
  apply List.map_congr_left
  intro p _
  simp only [Function.comp]
  split
  . rfl
  . rfl

theorem lookup_cons (k name : String) (v : Value) (rest : List (String × Value)) :
    ((name, v) :: rest).lookup k = if k = name then some v else rest.lookup k := by
  rw [List.lookup_cons]
  split
  . next h => rw [if_pos (beq_iff_eq.1 h)]
  . next h => rw [if_neg (beq_eq_false_iff_ne.1 h)]

theorem lookup_replaceValue (key : String) (v : Value) (pairs : List (String × Value)) (k : String) :
    (replaceValue key v pairs).lookup k
      = if k = key then (pairs.lookup k).map fun _ => v else pairs.lookup k := by
  induction pairs with
  | nil => simp [replaceValue]
  | cons p rest ih =>
    obtain ⟨name, old⟩ := p
    have hrest : replaceValue key v ((name, old) :: rest)
        = (name, if name = key then v else old) :: replaceValue key v rest := by
      by_cases hname : name = key <;> simp [replaceValue, hname]
    rw [hrest, lookup_cons, lookup_cons, ih]
    by_cases hk : k = name
    . subst hk
      rw [if_pos rfl, if_pos rfl]
      split
      . rfl
      . rfl
    . rw [if_neg hk, if_neg hk]

structure Store where
  strings : Array TextBuffer := #[]
  arrays : Array (Array Value) := #[]
  recordTypes : Array RecordType := #[]
  records : Array Record := #[]
  closures : Array Closure := #[]
  frames : Array Frame := #[]
  /-- The number of sites of closures that have been given out. -/
  sites : Nat := 0
  deriving Inhabited

namespace Store

/-! Objects by reference. A reference that was never given out stands for an empty object. -/

def string (s : Store) (ref : Nat) : TextBuffer :=
  s.strings[ref]?.getD default

def array (s : Store) (ref : Nat) : Array Value :=
  s.arrays[ref]?.getD #[]

def recordType (s : Store) (ref : Nat) : RecordType :=
  s.recordTypes[ref]?.getD default

def record (s : Store) (ref : Nat) : Record :=
  s.records[ref]?.getD default

def closure (s : Store) (ref : Nat) : Closure :=
  s.closures[ref]?.getD default

def frame (s : Store) (ref : Nat) : Frame :=
  s.frames[ref]?.getD default

def typeOf (s : Store) (ref : Nat) : RecordType :=
  s.recordType (s.record ref).type

/-! New objects. -/

def addString (s : Store) (b : TextBuffer) : Value × Store :=
  (.string s.strings.size, { s with strings := s.strings.push b })

def addArray (s : Store) (elements : Array Value) : Value × Store :=
  (.array s.arrays.size, { s with arrays := s.arrays.push elements })

def addRecordType (s : Store) (t : RecordType) : Value × Store :=
  (.recordType s.recordTypes.size, { s with recordTypes := s.recordTypes.push t })

def addRecord (s : Store) (r : Record) : Value × Store :=
  (.record s.records.size, { s with records := s.records.push r })

def addClosure (s : Store) (c : Closure) : Value × Store :=
  (.closure s.closures.size, { s with closures := s.closures.push c })

def addFrame (s : Store) (parent : Option Nat) : Nat × Store :=
  (s.frames.size, { s with frames := s.frames.push { parent } })

def addSite (s : Store) : Nat × Store :=
  (s.sites, { s with sites := s.sites + 1 })

def addBlankRecord (s : Store) (type : Nat) : Value × Store :=
  s.addRecord { type, fields := (s.recordType type).members.map (·, .null) }

/-! Changes of one object. -/

def setChar (s : Store) (ref i : Nat) (c : Char) : Store :=
  { s with strings := s.strings.modify ref (·.set i c) }

def appendChars (s : Store) (ref : Nat) (suffix : Array Char) : Store :=
  { s with strings := s.strings.modify ref (·.append suffix) }

def setElement (s : Store) (ref i : Nat) (v : Value) : Store :=
  { s with arrays := s.arrays.modify ref (·.setIfInBounds i v) }

def pushElement (s : Store) (ref : Nat) (v : Value) : Store :=
  { s with arrays := s.arrays.modify ref (·.push v) }

def setField (s : Store) (ref : Nat) (member : String) (v : Value) : Store :=
  { s with
    records := s.records.modify ref fun r => { r with fields := replaceValue member v r.fields } }

/-! Names. -/

def bind (s : Store) (frame : Nat) (name : String) (v : Value) : Store :=
  { s with
    frames := s.frames.modify frame fun f => { f with bindings := (name, v.orNull) :: f.bindings } }

def rebind (s : Store) (frame : Nat) (name : String) (v : Value) : Store :=
  { s with
    frames := s.frames.modify frame fun f =>
      { f with bindings := replaceValue name v.orNull f.bindings } }

/-! Walks from a frame outward. Parents are older than their children, so that the walk from a frame
looks at no more frames than there are up to it. -/

def assign (s : Store) (frame : Nat) (name : String) (v : Value) : Bool × Store :=
  go (frame + 1) frame
where
  go : (fuel frame : Nat) → Bool × Store
    | 0, _ => (false, s)
    | fuel + 1, frame =>
      if (s.frame frame).binds name then (true, s.rebind frame name v)
      else
        match (s.frame frame).parent with
        | some parent => go fuel parent
        | none => (false, s)

def lookup (s : Store) (frame : Nat) (name : String) : Option Value :=
  go (frame + 1) frame
where
  go : (fuel frame : Nat) → Option Value
    | 0, _ => none
    | fuel + 1, frame =>
      match (s.frame frame).lookup name with
      | some v => some v
      | none =>
        match (s.frame frame).parent with
        | some parent => go fuel parent
        | none => none

def isBound (s : Store) (frame : Nat) (name : String) : Bool :=
  go (frame + 1) frame
where
  go : (fuel frame : Nat) → Bool
    | 0, _ => false
    | fuel + 1, frame =>
      if (s.frame frame).binds name then true
      else
        match (s.frame frame).parent with
        | some parent => go fuel parent
        | none => false

def nearest (s : Store) (name : String) : (fuel frame : Nat) → Option Nat
  | 0, _ => none
  | fuel + 1, frame =>
    if (s.frame frame).binds name then some frame
    else
      match (s.frame frame).parent with
      | some parent => s.nearest name fuel parent
      | none => none

/--
The frame in which a name is resolved from `frame`. This is where each of the walks ends.
-/
def resolve (s : Store) (frame : Nat) (name : String) : Option Nat :=
  s.nearest name (frame + 1) frame

theorem assign_eq (s : Store) (frame : Nat) (name : String) (v : Value) :
    s.assign frame name v
      = (s.resolve frame name).elim (false, s) fun target => (true, s.rebind target name v) := by
  have hwalk (fuel frame : Nat) : assign.go s name v fuel frame
      = (s.nearest name fuel frame).elim (false, s) fun target => (true, s.rebind target name v) := by
    induction fuel generalizing frame with
    | zero => rfl
    | succ fuel ih =>
      rw [assign.go, nearest]
      split
      . rfl
      . split
        . apply ih
        . rfl
  exact hwalk (frame + 1) frame

theorem lookup_eq (s : Store) (frame : Nat) (name : String) :
    s.lookup frame name = (s.resolve frame name).bind fun f => (s.frame f).lookup name := by
  have hwalk (fuel frame : Nat) : lookup.go s name fuel frame
      = (s.nearest name fuel frame).bind fun f => (s.frame f).lookup name := by
    induction fuel generalizing frame with
    | zero => rfl
    | succ fuel ih =>
      rw [lookup.go, nearest, Frame.binds]
      cases hlookup : (s.frame frame).lookup name with
      | some v => exact hlookup.symm
      | none =>
        dsimp only [Option.isSome_none]
        split
        . apply ih
        . rfl
  exact hwalk (frame + 1) frame

theorem isBound_eq (s : Store) (frame : Nat) (name : String) :
    s.isBound frame name = (s.resolve frame name).isSome := by
  have hwalk (fuel frame : Nat) : isBound.go s name fuel frame = (s.nearest name fuel frame).isSome := by
    induction fuel generalizing frame with
    | zero => rfl
    | succ fuel ih =>
      rw [isBound.go, nearest]
      split
      . rfl
      . split
        . apply ih
        . rfl
  exact hwalk (frame + 1) frame

def bindings (s : Store) (frame : Nat) : List (String × Value) :=
  let f := s.frame frame
  (sortNames f.names).map fun name => (name, (f.lookup name).getD .null)

/-! Closures. -/

/--
Do two closures share parameters, body and frame? Parameters and bodies are the same if they come from
the same site. Two closures without parameters and without a body share both.
-/
def sameClosure (s : Store) (a b : Nat) : Bool :=
  let x := s.closure a
  let y := s.closure b
  let bare (c : Closure) := c.params.isEmpty && c.body.isAbsent
  a == b || (x.frame == y.frame && (x.site == y.site || (bare x && bare y)))

end Store

end LispScript
