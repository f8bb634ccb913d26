import LispScript.Proofs.Retention

/-!
This module contains what the string operations do, said of lists of characters and of integers that do
not wrap around. `StringCall` is an operation on operands that have been evaluated, and `Does` is what
becomes of it: an answer if the integers are in range, and a refusal which changes nothing otherwise.
-/

namespace LispScript

/-! Positions. -/

/--
The needle stands in the text at the position `k`.
-/
def StandsAt (needle text : List Char) (k : Nat) : Prop :=
  k + needle.length ≤ text.length ∧ (text.drop k).take needle.length = needle

theorem standsAt_zero {needle text : List Char} : StandsAt needle text 0 ↔ needle.isPrefixOf text := by
  rw [List.isPrefixOf_iff_prefix, List.prefix_iff_eq_take, StandsAt, List.drop_zero]
  constructor
  . rintro ⟨_, htake⟩
    exact htake.symm
  . intro htake
    have hlength := congrArg List.length htake
    rw [List.length_take] at hlength
    exact ⟨by omega, htake.symm⟩

theorem standsAt_cons {needle rest : List Char} {c : Char} {k : Nat} :
    StandsAt needle (c :: rest) (k + 1) ↔ StandsAt needle rest k := by
  unfold StandsAt
  rw [List.length_cons, List.drop_succ_cons]
  constructor
  . rintro ⟨hlength, htake⟩
    exact ⟨by omega, htake⟩
  . rintro ⟨hlength, htake⟩
    exact ⟨by omega, htake⟩

theorem standsAt_drop {needle text : List Char} {k j : Nat} (hk : k ≤ text.length) :
    StandsAt needle (text.drop k) j ↔ StandsAt needle text (k + j) := by
  unfold StandsAt
  rw [List.length_drop, List.drop_drop]
  constructor
  . rintro ⟨hlength, htake⟩
    exact ⟨by omega, htake⟩
  . rintro ⟨hlength, htake⟩
    exact ⟨by omega, htake⟩

/--
The search finds the first position, and gives up only if there is none.
-/
theorem Primitive.position?_cases (needle : List Char) (k : Nat) (text : List Char) :
    (∃ j, position? needle k text = some (k + j) ∧ StandsAt needle text j ∧
      ∀ i < j, ¬ StandsAt needle text i) ∨
    (position? needle k text = none ∧ ∀ j, ¬ StandsAt needle text j) := by
  induction text generalizing k with
  | nil =>
    unfold position?
    split
    . next hhere =>
      left
      exact ⟨0, rfl, standsAt_zero.2 hhere, by simp⟩
    . next hhere =>
      right
      refine ⟨rfl, ?_⟩
      rintro j ⟨hlength, htake⟩
      rw [List.length_nil] at hlength
      have hneedle : needle = [] := List.eq_nil_of_length_eq_zero (by omega)
      simp [hneedle] at hhere
  | cons c rest ih =>
    unfold position?
    split
    . next hhere =>
      left
      exact ⟨0, rfl, standsAt_zero.2 hhere, by simp⟩
    . next hhere =>
      rw [← standsAt_zero] at hhere
      rcases ih (k + 1) with ⟨j, hfound, hstands, hfirst⟩ | ⟨hnone, hnowhere⟩
      . left
        refine ⟨j + 1, ?_, standsAt_cons.2 hstands, ?_⟩
        . dsimp only
          rw [hfound, Nat.add_assoc, Nat.add_comm 1 j]
        . intro i hi
          cases i with
          | zero => apply hhere
          | succ i =>
            rw [standsAt_cons]
            apply hfirst i (by omega)
      . right
        refine ⟨hnone, ?_⟩
        intro j
        cases j with
        | zero => apply hhere
        | succ j =>
          rw [standsAt_cons]
          apply hnowhere

example : Primitive.find ['a', 'b'] [] 2 = .ok 2 := by
  rfl

theorem Primitive.index_error {role : String} {i : Int64} {size : Nat}
    (h : ¬ (0 ≤ i.toInt ∧ i.toInt < size)) : index role i size = .error (.index role i.toInt size) :=
  if_neg h

/-! Contents of strings. -/

namespace Store

/--
The characters of a string.
-/
def text (s : Store) (ref : Nat) : List Char :=
  (s.string ref).chars.toList

theorem length_text (s : Store) (ref : Nat) : (s.text ref).length = (s.string ref).chars.size :=
  Array.length_toList

/--
The string has the given characters now, and nothing else has changed.
-/
structure Rewrites (s : Store) (ref : Nat) (content : List Char) (s' : Store) : Prop where
  changes : Changes .strings ref s s'
  text : s'.text ref = content

/--
There is one more string, with the given characters, and nothing else has changed.
-/
structure Gains (s : Store) (content : List Char) (s' : Store) : Prop where
  adds : Adds .strings s s'
  text : s'.text s.strings.size = content

theorem setChar_rewrites {s : Store} {ref : Nat} (h : ref < s.strings.size) (i : Nat) (c : Char) :
    s.Rewrites ref ((s.text ref).set i c) (s.setChar ref i c) where
  changes := s.modify_strings_changes ref _
  text := by
    unfold Store.text setChar string
    rw [getD_modify_self h, TextBuffer.chars_set, Array.toList_setIfInBounds]

theorem appendChars_rewrites {s : Store} {ref : Nat} (h : ref < s.strings.size) (suffix : List Char) :
    s.Rewrites ref (s.text ref ++ suffix) (s.appendChars ref suffix.toArray) where
  changes := s.modify_strings_changes ref _
  text := by
    unfold Store.text appendChars string
    rw [getD_modify_self h, TextBuffer.chars_append, Array.toList_append]

theorem addString_gains (s : Store) (content : Array Char) :
    s.Gains content.toList (s.addString (.exact content)).2 where
  adds := s.addString_adds _
  text := by
    rw [Store.text, string_addString]
    rfl

end Store

/-! Operations on operands that have been evaluated. -/

inductive StringCall where
  | length (ref : Nat)
  | charAt (ref : Nat) (i : Int64)
  | setCharAt (ref : Nat) (i : Int64) (c : Char)
  | concat (ref : Nat) (suffix : List Char)
  | substring (ref : Nat) (start count : Int64)
  | find (ref : Nat) (needle : List Char) (start : Int64)

namespace StringCall

/--
The string that the operation works on.
-/
def ref : StringCall → Nat
  | .length ref | .charAt ref _ | .setCharAt ref _ _ | .concat ref _ => ref
  | .substring ref _ _ | .find ref _ _ => ref

def InRange (s : Store) : StringCall → Prop
  | .charAt ref i | .setCharAt ref i _ => 0 ≤ i.toInt ∧ i.toInt < (s.text ref).length
  | .substring ref start count =>
    0 ≤ start.toInt ∧ 0 ≤ count.toInt ∧ start.toInt + count.toInt ≤ (s.text ref).length
  | .find ref _ start => 0 ≤ start.toInt ∧ start.toInt ≤ (s.text ref).length
  | _ => True

/--
What an operation whose integers are in range yields, and what it makes of the store `s`.
-/
inductive Answers (s : Store) : StringCall → Value → Store → Prop where
  | length (ref : Nat) : Answers s (.length ref) (.integer (.ofNat (s.text ref).length)) s
  | charAt {ref : Nat} {i : Int64} {c : Char} (h : (s.text ref)[i.toInt.toNat]? = some c) :
      Answers s (.charAt ref i) (.char c) s
  | setCharAt {ref : Nat} {i : Int64} {c : Char} {s' : Store}
      (h : s.Rewrites ref ((s.text ref).set i.toInt.toNat c) s') :
      Answers s (.setCharAt ref i c) (.string ref) s'
  | concat {ref : Nat} {suffix : List Char} {s' : Store}
      (h : s.Rewrites ref (s.text ref ++ suffix) s') :
      Answers s (.concat ref suffix) (.string ref) s'
  | substring {ref : Nat} {start count : Int64} {s' : Store}
      (h : s.Gains (((s.text ref).drop start.toInt.toNat).take count.toInt.toNat) s') :
      Answers s (.substring ref start count) (.string s.strings.size) s'
  | found {ref : Nat} {needle : List Char} {start : Int64} {k : Nat} (hk : start.toInt ≤ k)
      (h : StandsAt needle (s.text ref) k)
      (hfirst : ∀ i : Nat, start.toInt ≤ i → i < k → ¬ StandsAt needle (s.text ref) i) :
      Answers s (.find ref needle start) (.integer (.ofNat k)) s
  | missing {ref : Nat} {needle : List Char} {start : Int64}
      (h : ∀ i : Nat, start.toInt ≤ i → ¬ StandsAt needle (s.text ref) i) :
      Answers s (.find ref needle start) (.integer (-1)) s

/--
What becomes of an operation.
-/
inductive Does (call : StringCall) (s : Store) : Except Fault Value → Store → Prop where
  | answers {v : Value} {s' : Store} (hrange : call.InRange s) (h : call.Answers s v s') :
      Does call s (.ok v) s'
  | outOfRange {fault : Fault} (hrange : ¬ call.InRange s) (hfault : fault.sort = .outOfRange) :
      Does call s (.error fault) s

/--
What is left to do of a form when its operands have been evaluated.
-/
def run : StringCall → Run Value
  | .length ref => do
    return .integer (.ofNat (← Run.stringLength ref))
  | .charAt ref i => do
    return .char (← Run.charAt ref i)
  | .setCharAt ref i c => do
    Run.setCharAt ref i c
    return .string ref
  | .concat ref suffix => do
    Run.appendChars ref suffix
    return .string ref
  | .substring ref start count => Run.substring ref start count
  | .find ref needle start => do
    return .integer (← Run.consult fun s => Primitive.find (s.string ref).chars.toList needle start)

end StringCall

/--
A run that comes to a result at once.
-/
def Run.ending : Except Fault Value → Run Value
  | .ok v => return v
  | .error fault => fail fault

namespace StringCall

/--
On the machine `m`, what becomes of the operation is what should become of it.
-/
def Meets (call : StringCall) (m : Machine) : Prop :=
  ∃ result s', call.Does m.store result s' ∧ call.run m = Run.ending result { m with store := s' }

variable {call : StringCall} {m : Machine}

theorem Meets.of_ok {v : Value} {s' : Store} (hrange : call.InRange m.store)
    (h : call.Answers m.store v s') (hrun : call.run m = .ok v { m with store := s' }) : call.Meets m :=
  ⟨.ok v, s', .answers hrange h, hrun⟩

theorem Meets.of_error {fault : Fault} (hrange : ¬ call.InRange m.store)
    (hrun : call.run m = .error (.failure { fault }) m) (hfault : fault.sort = .outOfRange) :
    call.Meets m :=
  ⟨.error fault, m.store, .outOfRange hrange hfault, hrun⟩

theorem length_meets (ref : Nat) : (length ref).Meets m := by
  have hrange : (length ref).InRange m.store := trivial
  apply Meets.of_ok hrange (.length ref)
  rw [Store.length_text]
  rfl

theorem charAt_meets (ref : Nat) (i : Int64) : (charAt ref i).Meets m := by
  have hrun : Run.charAt ref i m
      = (Run.ofPrimitive (Primitive.index "string index" i (m.store.string ref).chars.size) >>=
          fun k => pure ((m.store.string ref).chars.getD k default)) m := by
    rfl
  by_cases hrange : (charAt ref i).InRange m.store
  . have hrange' := hrange
    rw [InRange, Store.length_text] at hrange'
    have hindex : i.toInt.toNat < (m.store.string ref).chars.size := by omega
    rw [Run.index_ok _ hrange.1 hindex] at hrun
    have hchar : (m.store.text ref)[i.toInt.toNat]?
        = some ((m.store.string ref).chars.getD i.toInt.toNat default) := by
      rw [Store.text, Array.getElem?_toList, Array.getElem?_eq_getElem hindex,
        Array.getD_eq_getD_getElem?, Array.getElem?_eq_getElem hindex]
      rfl
    apply Meets.of_ok hrange (.charAt hchar)
    rw [StringCall.run, Run.bind_ok hrun]
    rfl
  . have hindex := hrange
    rw [InRange, Store.length_text] at hindex
    rw [Primitive.index_error hindex] at hrun
    exact Meets.of_error hrange (Run.bind_error hrun) rfl

theorem setCharAt_meets {ref : Nat} (href : ref < m.store.strings.size) (i : Int64) (c : Char) :
    (setCharAt ref i c).Meets m := by
  have hrun : Run.setCharAt ref i c m
      = (Run.ofPrimitive (Primitive.index "string index" i (m.store.string ref).chars.size) >>=
          fun k => Run.update (·.setChar ref k c)) m := by
    rfl
  by_cases hrange : (setCharAt ref i c).InRange m.store
  . have hrange' := hrange
    rw [InRange, Store.length_text] at hrange'
    rw [Run.index_ok _ hrange.1 (by omega)] at hrun
    apply Meets.of_ok hrange (.setCharAt (m.store.setChar_rewrites href _ c))
    rw [StringCall.run, Run.bind_ok hrun]
    rfl
  . have hindex := hrange
    rw [InRange, Store.length_text] at hindex
    rw [Primitive.index_error hindex] at hrun
    exact Meets.of_error hrange (Run.bind_error hrun) rfl

theorem concat_meets {ref : Nat} (href : ref < m.store.strings.size) (suffix : List Char) :
    (concat ref suffix).Meets m := by
  have hrange : (concat ref suffix).InRange m.store := trivial
  apply Meets.of_ok hrange (.concat (m.store.appendChars_rewrites href _))
  rfl

theorem substring_meets (ref : Nat) (start count : Int64) :
    (substring ref start count).Meets m := by
  have hrun : Run.substring ref start count m
      = (Run.ofPrimitive (Primitive.substring (m.store.string ref).chars start count) >>=
          fun part => Run.create (·.addString (.exact part))) m := by
    rfl
  rcases Run.substring_cases (m.store.string ref).chars start count with
    ⟨hpart, hlow, hcount, hhigh⟩ | ⟨fault, hpart, hfault⟩
  . have hrange : (substring ref start count).InRange m.store := by
      rw [InRange, Store.length_text]
      exact ⟨hlow, hcount, hhigh⟩
    have hcontent : ((m.store.string ref).chars.extract start.toInt.toNat
          (start.toInt.toNat + count.toInt.toNat)).toList
        = ((m.store.text ref).drop start.toInt.toNat).take count.toInt.toNat := by
      rw [Array.toList_extract, List.extract_eq_take_drop, Nat.add_sub_cancel_left]
      rfl
    rw [hpart] at hrun
    exact Meets.of_ok hrange (.substring (hcontent ▸ m.store.addString_gains _)) hrun
  . have hrange : ¬ (substring ref start count).InRange m.store := by
      rw [InRange, Store.length_text]
      rintro ⟨hlow, hcount, hhigh⟩
      obtain ⟨part, hok⟩ := Run.substring_ok hlow hcount hhigh
      rw [hpart] at hok
      contradiction
    rw [hpart] at hrun
    exact Meets.of_error hrange hrun hfault

theorem find_meets (ref : Nat) (needle : List Char) (start : Int64) :
    (find ref needle start).Meets m := by
  have hrun : Run.consult (fun s => Primitive.find (s.string ref).chars.toList needle start) m
      = Run.ofPrimitive (Primitive.find (m.store.text ref) needle start) m := by
    rfl
  by_cases hrange : (find ref needle start).InRange m.store
  . obtain ⟨hlow, hhigh⟩ := hrange
    have hindex : Primitive.index "search start" start ((m.store.text ref).length + 1)
        = .ok start.toInt.toNat := Run.index_ok _ hlow (by omega)
    rw [Primitive.find, hindex] at hrun
    -- A position in what is left of the text is one of the text from the start on.
    have hdrop : ∀ i : Nat, start.toInt ≤ i →
        (StandsAt needle (m.store.text ref) i ↔
          StandsAt needle ((m.store.text ref).drop start.toInt.toNat) (i - start.toInt.toNat)) := by
      intro i hi
      rw [standsAt_drop (by omega), Nat.add_sub_cancel' (by omega)]
    rcases Primitive.position?_cases needle start.toInt.toNat
      ((m.store.text ref).drop start.toInt.toNat) with ⟨j, hfound, hstands, hfirst⟩ | ⟨hnone, hnowhere⟩
    . rw [standsAt_drop (by omega)] at hstands
      refine Meets.of_ok ⟨hlow, hhigh⟩ (.found (by omega) hstands ?_) ?_
      . intro i hi hlt
        rw [hdrop i hi]
        apply hfirst
        omega
      . simp only [bind, Except.bind, hfound] at hrun
        apply Run.bind_ok hrun
    . refine Meets.of_ok ⟨hlow, hhigh⟩ (.missing ?_) ?_
      . intro i hi
        rw [hdrop i hi]
        apply hnowhere
      . simp only [bind, Except.bind, hnone] at hrun
        apply Run.bind_ok hrun
  . rcases Run.find_cases (m.store.text ref) needle start with
      ⟨n, hok, hin⟩ | ⟨fault, herror, hfault⟩
    . contradiction
    . rw [herror] at hrun
      exact Meets.of_error hrange (Run.bind_error hrun) hfault

/--
Every operation on a string that is there does what it should.
-/
theorem run_meets (call : StringCall) {m : Machine} (href : call.ref < m.store.strings.size) :
    call.Meets m := by
  cases call with
  | length ref => apply length_meets
  | charAt ref i => apply charAt_meets
  | setCharAt ref i c => apply setCharAt_meets href
  | concat ref suffix => apply concat_meets href
  | substring ref start count => apply substring_meets
  | find ref needle start => apply find_meets

end StringCall

end LispScript
