import LispScript.Eval

/-!
This module contains the proof that no operation looks outside of the object that it works on, on any
machine: it finds out first whether it can be done, and refuses if it cannot.
-/

namespace LispScript

namespace Run

/--
The operation refuses because of a fault of the given sort, and changes nothing, or `P` holds.
-/
def Guarded {α : Type} (r : Run α) (sort : FaultSort) (P : Machine → α → Machine → Prop) : Prop :=
  ∀ m, match r m with
    | .ok a m' => P m a m'
    | .error i m' => m' = m ∧ ∃ f : Fault, i = .failure { fault := f } ∧ f.sort = sort

theorem index_cases (role : String) (i : Int64) (size : Nat) :
    (Primitive.index role i size = .ok i.toInt.toNat ∧ 0 ≤ i.toInt ∧ i.toInt.toNat < size) ∨
      Primitive.index role i size = .error (.index role i.toInt size) := by
  unfold Primitive.index
  split
  . left
    refine ⟨rfl, ?_⟩
    omega
  . right
    rfl

theorem indexed_guarded {α : Type} {r : Run α} (role : String) {i : Int64} (size : Machine → Nat)
    (f : Machine → Nat → Run α) {P : Machine → α → Machine → Prop}
    (hr : ∀ m, r m = (ofPrimitive (Primitive.index role i (size m)) >>= f m) m)
    (hf : ∀ m, 0 ≤ i.toInt → i.toInt.toNat < size m →
      ∃ a m', f m i.toInt.toNat m = .ok a m' ∧ P m a m') :
    Guarded r .outOfRange P := by
  intro m
  rw [hr]
  -- The index is checked against the size on this machine before anything else is done.
  cases index_cases role i (size m) with
  | inl h =>
    obtain ⟨hindex, hlow, hhigh⟩ := h
    obtain ⟨a, m', hok, hP⟩ := hf m hlow hhigh
    have hrun : (ofPrimitive (Primitive.index role i (size m)) >>= f m) m = .ok a m' := by
      rw [hindex]
      apply hok
    rw [hrun]
    apply hP
  | inr h =>
    rw [h]
    exact ⟨rfl, _, rfl, rfl⟩

theorem charAt_guarded (ref : Nat) (i : Int64) :
    Guarded (charAt ref i) .outOfRange fun m c m' =>
      m' = m ∧ 0 ≤ i.toInt ∧ (m.store.string ref).chars[i.toInt.toNat]? = some c := by
  apply indexed_guarded "string index" (fun m => (m.store.string ref).chars.size)
    (fun m k => pure ((m.store.string ref).chars.getD k default))
  . intro m
    rfl
  . intro m hlow hhigh
    refine ⟨_, m, rfl, rfl, hlow, ?_⟩
    rw [Array.getD_eq_getD_getElem?, Array.getElem?_eq_getElem hhigh]
    rfl

theorem setCharAt_guarded (ref : Nat) (i : Int64) (c : Char) :
    Guarded (setCharAt ref i c) .outOfRange fun m _ m' =>
      0 ≤ i.toInt ∧ i.toInt.toNat < (m.store.string ref).chars.size ∧
        m' = { m with store := m.store.setChar ref i.toInt.toNat c } := by
  apply indexed_guarded "string index" (fun m => (m.store.string ref).chars.size)
    (fun _ k => update (·.setChar ref k c))
  . intro m
    rfl
  . intro m hlow hhigh
    exact ⟨(), _, rfl, hlow, hhigh, rfl⟩

theorem arrayGet_guarded (ref : Nat) (i : Int64) :
    Guarded (arrayGet ref i) .outOfRange fun m v m' =>
      m' = m ∧ 0 ≤ i.toInt ∧ (m.store.array ref)[i.toInt.toNat]? = some v := by
  apply indexed_guarded "array index" (fun m => (m.store.array ref).size)
    (fun m k => pure ((m.store.array ref).getD k .absent))
  . intro m
    rfl
  . intro m hlow hhigh
    refine ⟨_, m, rfl, rfl, hlow, ?_⟩
    rw [Array.getD_eq_getD_getElem?, Array.getElem?_eq_getElem hhigh]
    rfl

theorem arraySet_guarded (ref : Nat) (i : Int64) (v : Value) :
    Guarded (arraySet ref i v) .outOfRange fun m _ m' =>
      0 ≤ i.toInt ∧ i.toInt.toNat < (m.store.array ref).size ∧
        m' = { m with store := m.store.setElement ref i.toInt.toNat v } := by
  apply indexed_guarded "array index" (fun m => (m.store.array ref).size)
    (fun _ k => update (·.setElement ref k v))
  . intro m
    rfl
  . intro m hlow hhigh
    exact ⟨(), _, rfl, hlow, hhigh, rfl⟩

theorem find_cases (s needle : List Char) (start : Int64) :
    (∃ n, Primitive.find s needle start = .ok n ∧ 0 ≤ start.toInt ∧ start.toInt ≤ s.length) ∨
      ∃ f, Primitive.find s needle start = .error f ∧ f.sort = .outOfRange := by
  unfold Primitive.find
  cases index_cases "search start" start (s.length + 1) with
  | inl h =>
    left
    obtain ⟨hindex, hlow, hhigh⟩ := h
    have hin : start.toInt ≤ s.length := by omega
    rw [hindex]
    simp only [bind, Except.bind]
    split
    . exact ⟨_, rfl, hlow, hin⟩
    . exact ⟨_, rfl, hlow, hin⟩
  | inr h =>
    right
    rw [h]
    exact ⟨_, rfl, rfl⟩

theorem find_guarded (ref : Nat) (needle : TextOperand) (start : Int64) :
    Guarded (find ref needle start) .outOfRange fun m _ m' =>
      m' = m ∧ 0 ≤ start.toInt ∧ start.toInt ≤ (m.store.string ref).chars.size := by
  intro m
  have hrun : find ref needle start m = ofPrimitive
      (Primitive.find (m.store.string ref).chars.toList (needle.chars m.store) start) m := rfl
  rw [hrun]
  cases find_cases (m.store.string ref).chars.toList (needle.chars m.store) start with
  | inl h =>
    obtain ⟨n, hfind, hlow, hhigh⟩ := h
    rw [hfind]
    exact ⟨rfl, hlow, hhigh⟩
  | inr h =>
    obtain ⟨f, hfind, hf⟩ := h
    rw [hfind]
    exact ⟨rfl, f, rfl, hf⟩

theorem substring_cases (s : Array Char) (start length : Int64) :
    (Primitive.substring s start length =
        .ok (s.extract start.toInt.toNat (start.toInt.toNat + length.toInt.toNat)) ∧
      0 ≤ start.toInt ∧ 0 ≤ length.toInt ∧ start.toInt + length.toInt ≤ s.size) ∨
      ∃ f, Primitive.substring s start length = .error f ∧ f.sort = .outOfRange := by
  unfold Primitive.substring
  cases index_cases "substring start" start (s.size + 1) with
  | inl h =>
    obtain ⟨hindex, hlow, hhigh⟩ := h
    rw [hindex]
    simp only [bind, Except.bind]
    split
    . left
      refine ⟨rfl, hlow, ?_⟩
      omega
    . right
      exact ⟨_, rfl, rfl⟩
  | inr h =>
    right
    rw [h]
    exact ⟨_, rfl, rfl⟩

theorem substring_guarded (ref : Nat) (start length : Int64) :
    Guarded (substring ref start length) .outOfRange fun m _ _ =>
      0 ≤ start.toInt ∧ 0 ≤ length.toInt ∧
        start.toInt + length.toInt ≤ (m.store.string ref).chars.size := by
  intro m
  have hrun : substring ref start length m = (ofPrimitive
      (Primitive.substring (m.store.string ref).chars start length) >>= fun part =>
        create (·.addString (.exact part))) m := rfl
  rw [hrun]
  cases substring_cases (m.store.string ref).chars start length with
  | inl h =>
    obtain ⟨hpart, hin⟩ := h
    rw [hpart]
    apply hin
  | inr h =>
    obtain ⟨f, hpart, hf⟩ := h
    rw [hpart]
    exact ⟨rfl, f, rfl, hf⟩

/--
What the operations of the language never do: look outside of a string, an array or the arguments of a
call, and divide by zero.
-/
structure AllGuarded : Prop where
  charAt : ∀ ref i, Guarded (charAt ref i) .outOfRange fun m c m' =>
    m' = m ∧ 0 ≤ i.toInt ∧ (m.store.string ref).chars[i.toInt.toNat]? = some c
  setCharAt : ∀ ref i c, Guarded (setCharAt ref i c) .outOfRange fun m _ m' =>
    0 ≤ i.toInt ∧ i.toInt.toNat < (m.store.string ref).chars.size ∧
      m' = { m with store := m.store.setChar ref i.toInt.toNat c }
  substring : ∀ ref start length, Guarded (substring ref start length) .outOfRange fun m _ _ =>
    0 ≤ start.toInt ∧ 0 ≤ length.toInt ∧
      start.toInt + length.toInt ≤ (m.store.string ref).chars.size
  find : ∀ ref needle start, Guarded (find ref needle start) .outOfRange fun m _ m' =>
    m' = m ∧ 0 ≤ start.toInt ∧ start.toInt ≤ (m.store.string ref).chars.size
  arrayGet : ∀ ref i, Guarded (arrayGet ref i) .outOfRange fun m v m' =>
    m' = m ∧ 0 ≤ i.toInt ∧ (m.store.array ref)[i.toInt.toNat]? = some v
  arraySet : ∀ ref i v, Guarded (arraySet ref i v) .outOfRange fun m _ m' =>
    0 ≤ i.toInt ∧ i.toInt.toNat < (m.store.array ref).size ∧
      m' = { m with store := m.store.setElement ref i.toInt.toNat v }
  arguments : ∀ run ref args (m : Machine), args.size ≠ (m.store.closure ref).params.length →
    ∃ wanted got, callClosure run ref args m =
      .error (.failure { fault := .argumentCount wanted got }) m
  quotient : ∀ l v, Primitive.integerArith .div l 0 ≠ .ok v
  remainder : ∀ l v, Primitive.integerArith .mod l 0 ≠ .ok v

theorem allGuarded : AllGuarded where
  charAt := charAt_guarded
  setCharAt := setCharAt_guarded
  substring := substring_guarded
  find := find_guarded
  arrayGet := arrayGet_guarded
  arraySet := arraySet_guarded
  arguments := by
    intro run ref args m h
    refine ⟨(m.store.closure ref).params.length, args.size, ?_⟩
    unfold callClosure
    show (if args.size ≠ (m.store.closure ref).params.length then _ else _ : Run Value) m = _
    rw [if_pos h]
    rfl
  quotient := by simp [Primitive.integerArith]
  remainder := by simp [Primitive.integerArith]

end Run

end LispScript
