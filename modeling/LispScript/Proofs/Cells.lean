import LispScript.Proofs.Resolution
import LispScript.Proofs.StringCall

/-!
This module contains the cells of a store: the bindings of frames, the characters of strings, the elements
of arrays and the fields of records. Each operation that changes an object gives contents to one of its
cells, or to cells behind its end, and leaves all others as they are.
-/

namespace LispScript

inductive Cell where
  | binding (frame : Nat) (name : String)
  | character (string i : Nat)
  | element (array i : Nat)
  | field (record : Nat) (member : String)
  deriving DecidableEq

inductive Content where
  | value (v : Value)
  | char (c : Char)

/--
Contents for some cells.
-/
abbrev Patch :=
  Cell → Option Content

namespace Cell

/--
The object that the cell is a part of.
-/
def owner : Cell → Realm × Nat
  | binding frame _ => (.frames, frame)
  | character string _ => (.strings, string)
  | element array _ => (.arrays, array)
  | field record _ => (.records, record)

def put (c : Cell) (x : Content) : Patch :=
  fun d => if d = c then some x else none

/--
New characters at the end of a string that has `size` characters.
-/
def extend (string size : Nat) (suffix : List Char) : Patch
  | character r i => if r = string ∧ size ≤ i then suffix[i - size]?.map .char else none
  | _ => none

theorem owner_of_put {c d : Cell} {x y : Content} (h : c.put x d = some y) : d.owner = c.owner := by
  unfold put at h
  split at h
  . next hd => rw [hd]
  . contradiction

theorem owner_of_extend {string size : Nat} {suffix : List Char} {d : Cell} {y : Content}
    (h : extend string size suffix d = some y) : d.owner = (.strings, string) := by
  unfold extend at h
  split at h
  . split at h
    . next hd => rw [owner, hd.1]
    . contradiction
  . contradiction

end Cell

namespace Store

variable {s t : Store} {k : Realm} {a : Nat} {patch : Patch}

def content? (s : Store) : Cell → Option Content
  | .binding frame name => ((s.frame frame).lookup name).map .value
  | .character string i => ((s.text string)[i]?).map .char
  | .element array i => ((s.array array)[i]?).map .value
  | .field record member => ((s.record record).fields.lookup member).map .value

/--
The store `t` is `s` with the contents of the patch, all of which are for cells of one object. No other
object has changed, nor has what the object is besides its cells.
-/
structure Patched (s : Store) (object : Realm × Nat) (patch : Patch) (t : Store) : Prop where
  changes : Changes object.1 object.2 s t
  owner : ∀ c x, patch c = some x → c.owner = object
  content : ∀ c : Cell, c.owner.2 < s.extent c.owner.1 → t.content? c = (patch c).or (s.content? c)
  absent : ∀ c : Cell, s.extent c.owner.1 ≤ c.owner.2 → t.content? c = none
  parent : ∀ f, (t.frame f).parent = (s.frame f).parent
  type : ∀ r, (t.record r).type = (s.record r).type

theorem content?_of_le {c : Cell} (h : s.extent c.owner.1 ≤ c.owner.2) : s.content? c = none := by
  cases c with
  | binding frame name =>
    have hdefault : s.frame frame = default := frame_of_le h
    rw [content?, hdefault]
    rfl
  | character string i =>
    have hdefault : s.string string = default := by simp [Store.string, show s.strings.size ≤ string from h]
    rw [content?, text, hdefault]
    rfl
  | element array i =>
    have hdefault : s.array array = #[] := by simp [Store.array, show s.arrays.size ≤ array from h]
    rw [content?, hdefault]
    rfl
  | field record member =>
    have hdefault : s.record record = default := by simp [Store.record, show s.records.size ≤ record from h]
    rw [content?, hdefault]
    rfl

theorem content?_of_same {c : Cell} (h : s.SameAt t c.owner.1 c.owner.2) : t.content? c = s.content? c := by
  cases c with
  | binding frame name => exact congrArg (fun f : Frame => (f.lookup name).map Content.value) h
  | character string i => exact congrArg (fun b : TextBuffer => (b.chars.toList[i]?).map Content.char) h
  | element array i => exact congrArg (fun xs : Array Value => (xs[i]?).map Content.value) h
  | field record member => exact congrArg (fun r : Record => (r.fields.lookup member).map Content.value) h

/--
Only the cells of the object that changes have to be looked at.
-/
theorem Patched.of_changes (hchanges : Changes k a s t)
    (howner : ∀ c x, patch c = some x → c.owner = (k, a))
    (hcontent : a < s.extent k → ∀ c : Cell, c.owner = (k, a) →
      t.content? c = (patch c).or (s.content? c))
    (hparent : ∀ f, (t.frame f).parent = (s.frame f).parent)
    (htype : ∀ r, (t.record r).type = (s.record r).type) : s.Patched (k, a) patch t where
  changes := hchanges
  owner := howner
  content := by
    intro c hc
    by_cases hobject : c.owner = (k, a)
    . rw [hobject] at hc
      exact hcontent hc c hobject
    . have hpatch : patch c = none := by
        cases hx : patch c with
        | none => rfl
        | some x => exact absurd (howner c x hx) hobject
      rw [hpatch, content?_of_same (hchanges.same _ _ hobject)]
      rfl
  absent := by
    intro c hc
    apply content?_of_le
    rw [hchanges.extent]
    exact hc
  parent := hparent
  type := htype

/-! Frames. -/

theorem patched_frame {f : Frame → Frame} {e : Nat} {name : String} {v : Value}
    (hparent : ∀ x, (f x).parent = x.parent)
    (hlookup : ∀ k, (f (s.frame e)).lookup k = if k = name then some v else (s.frame e).lookup k) :
    s.Patched (.frames, e) ((Cell.binding e name).put (.value v))
      { s with frames := s.frames.modify e f } := by
  refine .of_changes (s.modify_frames_changes e f) (fun c x => Cell.owner_of_put) ?_
    (parent_modify hparent e) (fun _ => rfl)
  intro he c hc
  cases c with
  | binding frame other =>
    cases hc
    rw [content?, Store.frame, getD_modify_self he, ← Store.frame, hlookup]
    by_cases hk : other = name <;> simp [Cell.put, hk, content?]
  | _ => cases hc

theorem bind_patched (s : Store) (e : Nat) (name : String) (v : Value) :
    s.Patched (.frames, e) ((Cell.binding e name).put (.value v.orNull)) (s.bind e name v) := by
  apply patched_frame
  . intro _
    rfl
  . intro k
    exact lookup_cons k name v.orNull (s.frame e).bindings

theorem rebind_patched {e : Nat} {name : String} (he : (s.frame e).binds name) (v : Value) :
    s.Patched (.frames, e) ((Cell.binding e name).put (.value v.orNull)) (s.rebind e name v) := by
  apply patched_frame
  . intro _
    rfl
  . intro k
    obtain ⟨old, hold⟩ := Option.isSome_iff_exists.1 he
    unfold Frame.lookup at hold ⊢
    rw [lookup_replaceValue]
    split
    . next hk => rw [hk, hold, Option.map_some]
    . rfl

/-! Strings. -/

theorem patched_string {ref : Nat} {f : TextBuffer → TextBuffer}
    (howner : ∀ c x, patch c = some x → c.owner = (.strings, ref))
    (htext : ∀ i, ((f (s.string ref)).chars.toList[i]?).map Content.char
      = (patch (.character ref i)).or (s.content? (.character ref i))) :
    s.Patched (.strings, ref) patch { s with strings := s.strings.modify ref f } := by
  refine .of_changes (s.modify_strings_changes ref f) howner ?_ (fun _ => rfl) (fun _ => rfl)
  intro href c hc
  cases c with
  | character string i =>
    cases hc
    rw [← htext, content?, text, Store.string, getD_modify_self href]
    rfl
  | _ => cases hc

theorem setChar_patched {ref i : Nat} (hi : i < (s.text ref).length) (c : Char) :
    s.Patched (.strings, ref) ((Cell.character ref i).put (.char c)) (s.setChar ref i c) := by
  apply patched_string
  . intro d x
    apply Cell.owner_of_put
  . intro j
    rw [TextBuffer.chars_set, Array.toList_setIfInBounds, List.getElem?_set]
    by_cases hj : i = j
    . subst hj
      have hi : i < (s.string ref).chars.toList.length := hi
      rw [if_pos rfl, if_pos hi]
      simp [Cell.put]
    . rw [if_neg hj]
      simp [Cell.put, Ne.symm hj, content?, text]

theorem appendChars_patched (s : Store) (ref : Nat) (suffix : List Char) :
    s.Patched (.strings, ref) (Cell.extend ref (s.text ref).length suffix)
      (s.appendChars ref suffix.toArray) := by
  apply patched_string
  . intro d x
    apply Cell.owner_of_extend
  . intro j
    rw [TextBuffer.chars_append, Array.toList_append, Cell.extend, content?, ← text]
    by_cases hj : j < (s.text ref).length
    . rw [List.getElem?_append_left hj, if_neg fun h => absurd hj (Nat.not_lt.2 h.2)]
      rfl
    . have hj := Nat.le_of_not_lt hj
      rw [List.getElem?_append_right hj, if_pos ⟨rfl, hj⟩, List.getElem?_eq_none hj]
      simp

/-! Arrays. -/

theorem patched_array {ref i : Nat} {f : Array Value → Array Value} {v : Value}
    (helement : ∀ j, (f (s.array ref))[j]? = if j = i then some v else (s.array ref)[j]?) :
    s.Patched (.arrays, ref) ((Cell.element ref i).put (.value v))
      { s with arrays := s.arrays.modify ref f } := by
  refine .of_changes (s.modify_arrays_changes ref f) (fun c x => Cell.owner_of_put) ?_
    (fun _ => rfl) (fun _ => rfl)
  intro href c hc
  cases c with
  | element array j =>
    cases hc
    rw [content?, Store.array, getD_modify_self href, ← Store.array, helement]
    by_cases hj : j = i <;> simp [Cell.put, hj, content?]
  | _ => cases hc

theorem setElement_patched {ref i : Nat} (hi : i < (s.array ref).size) (v : Value) :
    s.Patched (.arrays, ref) ((Cell.element ref i).put (.value v)) (s.setElement ref i v) := by
  apply patched_array
  intro j
  rw [Array.getElem?_setIfInBounds]
  by_cases hj : i = j
  . subst hj
    rw [if_pos rfl, if_pos hi, if_pos rfl]
  . rw [if_neg hj, if_neg (Ne.symm hj)]

theorem pushElement_patched (s : Store) (ref : Nat) (v : Value) :
    s.Patched (.arrays, ref) ((Cell.element ref (s.array ref).size).put (.value v))
      (s.pushElement ref v) := by
  apply patched_array
  intro j
  rw [Array.getElem?_push]

/-! Records. -/

theorem setField_patched {ref : Nat} {member : String}
    (hmember : ((s.record ref).fields.lookup member).isSome) (v : Value) :
    s.Patched (.records, ref) ((Cell.field ref member).put (.value v)) (s.setField ref member v) := by
  refine .of_changes (s.modify_records_changes ref _) (fun c x => Cell.owner_of_put) ?_
    (fun _ => rfl) ?_
  . intro href c hc
    cases c with
    | field record other =>
      cases hc
      obtain ⟨old, hold⟩ := Option.isSome_iff_exists.1 hmember
      rw [content?, Store.record, setField, getD_modify_self href, ← Store.record]
      dsimp only
      rw [lookup_replaceValue]
      by_cases hk : other = member <;> simp [Cell.put, hk, content?, hold]
    | _ => cases hc
  . intro r
    simp only [Store.record, setField, Array.getElem?_modify]
    split
    . cases s.records[r]? with
      | none => rfl
      | some x => rfl
    . rfl

end Store

end LispScript
