import LispScript.Proofs.Scope
import LispScript.Proofs.Twin

/-!
This module contains the proof that every operation on a machine does the same to machines that are
alike, and fails on both of them or on neither.
-/

namespace LispScript

variable {L : Likeness} {ρ ρ' : Renaming}

/-! Objects after a change. -/

theorem forall₂_set {α β : Type} {R : α → β → Prop} {xs : List α} {ys : List β}
    (h : List.Forall₂ R xs ys) {a : α} {b : β} (hab : R a b) (i : Nat) :
    List.Forall₂ R (xs.set i a) (ys.set i b) := by
  induction h generalizing i with
  | nil => exact .nil
  | cons hxy hrest ih =>
    cases i with
    | zero => exact .cons hab hrest
    | succ i => exact .cons hxy (ih i)

theorem EntriesAlike.replaceValue {ps qs : List (String × Value)} (h : EntriesAlike ρ ps qs)
    (key : String) {v w : Value} (hvw : v.Alike ρ w) :
    EntriesAlike ρ (replaceValue key v ps) (replaceValue key w qs) := by
  unfold LispScript.replaceValue
  rw [EntriesAlike, List.forall₂_map_left_iff, List.forall₂_map_right_iff]
  apply h.imp
  rintro ⟨name, old⟩ ⟨name', old'⟩ ⟨rfl, hold⟩
  dsimp only
  split
  . exact ⟨rfl, hvw⟩
  . exact ⟨rfl, hold⟩

namespace Frame.Alike

variable {f f' : Frame} {name : String} {v w : Value}

theorem bind (h : f.Alike L ρ f') (hname : L.name name) (hvw : v.Alike ρ w) :
    Frame.Alike L ρ { f with bindings := (name, v) :: f.bindings }
      { f' with bindings := (name, w) :: f'.bindings } where
  parent := h.parent
  lookup := by
    intro key hkey
    unfold Frame.lookup
    rw [lookup_cons, lookup_cons]
    split
    . exact .some hvw
    . exact h.lookup hkey
  left := List.forall_mem_cons.2 ⟨L.bound_of_name name hname, h.left⟩
  right := List.forall_mem_cons.2 ⟨L.bound_of_name name hname, h.right⟩

theorem rebind (h : f.Alike L ρ f') (name : String) (hvw : v.Alike ρ w) :
    Frame.Alike L ρ { f with bindings := replaceValue name v f.bindings }
      { f' with bindings := replaceValue name w f'.bindings } where
  parent := h.parent
  lookup := by
    intro key hkey
    unfold Frame.lookup
    rw [lookup_replaceValue, lookup_replaceValue]
    split
    . obtain ⟨hx, hy⟩ | ⟨x, y, hx, hy, _⟩ := rel_cases (h.lookup hkey)
      . rw [← Frame.lookup, ← Frame.lookup, hx, hy]
        exact .none
      . rw [← Frame.lookup, ← Frame.lookup, hx, hy]
        exact .some hvw
    . exact h.lookup hkey
  left := by
    rw [Store.Confined.names_replaceValue]
    exact h.left
  right := by
    rw [Store.Confined.names_replaceValue]
    exact h.right

end Frame.Alike

namespace Store

variable {s t : Store} {a b : Nat}

theorem match_modify_arrays (h : s.Alike L ρ t) (hab : ρ .arrays a b)
    {f g : Array Value → Array Value}
    (hfg : ∀ x y, ValuesAlike ρ x.toList y.toList → ValuesAlike ρ (f x).toList (g y).toList) :
    { s with arrays := s.arrays.modify a f }.Match L ρ { t with arrays := t.arrays.modify b g }
      .arrays a b := by
  have hbounds := h.bounds hab
  have harray := h.objects hab
  simp only [Match, array] at harray ⊢
  rw [getD_modify_self hbounds.1, getD_modify_self hbounds.2]
  exact hfg _ _ harray

theorem match_modify_records (h : s.Alike L ρ t) (hab : ρ .records a b) {f g : Record → Record}
    (hfg : ∀ x y : Record, x.Alike ρ y → (f x).Alike ρ (g y)) :
    { s with records := s.records.modify a f }.Match L ρ { t with records := t.records.modify b g }
      .records a b := by
  have hbounds := h.bounds hab
  have hrecord := h.record hab
  simp only [Match, record] at hrecord ⊢
  rw [getD_modify_self hbounds.1, getD_modify_self hbounds.2]
  exact hfg _ _ hrecord

theorem match_modify_frames (h : s.Alike L ρ t) (hab : ρ .frames a b) {f g : Frame → Frame}
    (hfg : ∀ x y : Frame, x.Alike L ρ y → (f x).Alike L ρ (g y))
    (hf : ∀ x, (f x).parent = x.parent) (hg : ∀ y, (g y).parent = y.parent) :
    { s with frames := s.frames.modify a f }.Match L ρ { t with frames := t.frames.modify b g }
      .frames a b := by
  have hbounds := h.bounds hab
  have hframe := h.objects hab
  simp only [Match, frame, Frame.Older] at hframe ⊢
  rw [getD_modify_self hbounds.1, getD_modify_self hbounds.2, hf, hg]
  exact ⟨hfg _ _ hframe.1, hframe.2⟩

end Store

namespace Run.Twin

variable {a b : Nat} {v w : Value}

/-! Names. -/

theorem define {name : String} (hab : ρ .frames a b) (hname : L.name name) (hvw : v.Alike ρ w) :
    Twin L ρ (Run.define a name v) (Run.define b name w) (fun _ _ _ => True) := by
  apply bind (Q := fun _ x y => x = y)
  . apply inspect
    intro s t halike
    exact (halike.frame hab).binds hname
  . rintro ρ' x _ hρ rfl
    cases x with
    | true => exact .fail _
    | false =>
      apply update (hρ _ _ _ hab) nofun (fun s => s.modify_frames_changes _ _)
        (fun t => t.modify_frames_changes _ _)
      intro s t halike
      apply Store.match_modify_frames halike (hρ _ _ _ hab)
      . intro f f' hframe
        exact hframe.bind hname (hvw.mono hρ).orNull
      . intro f
        rfl
      . intro f
        rfl

theorem assign {name : String} (hab : ρ .frames a b) (hname : L.name name) (hvw : v.Alike ρ w) :
    Twin L ρ (Run.assign a name v) (Run.assign b name w) (fun _ _ _ => True) := by
  rw [assign_eq, assign_eq]
  apply bind (Q := fun ρ' => Option.Rel (ρ' .frames))
  . apply inspect
    intro s t halike
    exact halike.resolve hname hab
  . intro ρ' x y hρ hxy
    cases hxy with
    | none => exact .fail _
    | some htarget =>
      apply update htarget nofun (fun s => s.modify_frames_changes _ _)
        (fun t => t.modify_frames_changes _ _)
      intro s t halike
      apply Store.match_modify_frames halike htarget
      . intro f f' hframe
        exact hframe.rebind name (hvw.mono hρ).orNull
      . intro f
        rfl
      . intro f
        rfl

theorem lookup {name : String} (hab : ρ .frames a b) (hname : L.name name) :
    Twin L ρ (Run.lookup a name) (Run.lookup b name) Value.Alike := by
  apply bind (Q := fun ρ' => Option.Rel (Value.Alike ρ'))
  . apply inspect
    intro s t halike
    exact halike.lookup hname hab
  . intro ρ' x y hρ hxy
    cases hxy with
    | none => exact .fail _
    | some hvw => exact .pure hvw

/-! Strings. -/

/--
A look at the strings gives the same, since strings that stand for each other hold the same.
-/
theorem inspectChars {α : Type} (hab : ρ .strings a b) (f : Array Char → α) :
    Twin L ρ (Run.inspect fun s => f (s.string a).chars) (Run.inspect fun s => f (s.string b).chars)
      (fun _ x y => x = y) := by
  apply inspect
  intro s t halike
  rw [halike.chars hab]

/--
A primitive that does not look at the store, followed by something.
-/
theorem primitive {α β γ : Type} {Q : Renaming → β → γ → Prop} {P : α → Prop} {x : Except Fault α}
    (hx : Primitive.Sane P x) {f : α → Run β} {g : α → Run γ}
    (h : ∀ a, P a → Twin L ρ (f a) (g a) Q) :
    Twin L ρ (Run.ofPrimitive x >>= f) (Run.ofPrimitive x >>= g) Q := by
  cases x with
  | ok a => exact h a hx
  | error fault => exact fun _ _ halike => .error (.refl halike) (.failure (.refl L _))

theorem stringLength (hab : ρ .strings a b) :
    Twin L ρ (Run.stringLength a) (Run.stringLength b) (fun _ x y => x = y) :=
  inspectChars hab Array.size

theorem charAt (hab : ρ .strings a b) (i : Int64) :
    Twin L ρ (Run.charAt a i) (Run.charAt b i) (fun _ x y => x = y) := by
  apply bind (inspectChars hab id)
  rintro ρ' chars _ hρ rfl
  apply primitive (Primitive.index_sane _ _ _)
  intro i _
  exact .pure rfl

theorem setCharAt (hab : ρ .strings a b) (i : Int64) (c : Char) :
    Twin L ρ (Run.setCharAt a i c) (Run.setCharAt b i c) (fun _ _ _ => True) := by
  apply bind (stringLength hab)
  rintro ρ' size _ hρ rfl
  apply primitive (Primitive.index_sane _ _ _)
  intro i _
  exact updateString (hρ _ _ _ hab) (.set i c)

theorem appendChars (hab : ρ .strings a b) (suffix : List Char) :
    Twin L ρ (Run.appendChars a suffix) (Run.appendChars b suffix) (fun _ _ _ => True) :=
  updateString hab (.append suffix.toArray)

theorem addString (buffer : TextBuffer) :
    Twin L ρ (Run.create (·.addString buffer)) (Run.create (·.addString buffer)) Value.Alike := by
  apply create .strings (fun s => s.addString_adds _) (fun t => t.addString_adds _)
  . intro s t _
    simp only [Store.Match, Store.extent, Store.string_addString]
    exact .refl buffer
  . intro ρ' s t hnew
    exact .string hnew

theorem substring (hab : ρ .strings a b) (start length : Int64) :
    Twin L ρ (Run.substring a start length) (Run.substring b start length) Value.Alike := by
  apply bind (Q := fun _ x y => x = y)
  . apply consult
    intro s t halike
    rw [halike.chars hab]
    apply Primitive.Agrees.refl (Primitive.substring_sane _ _ _)
    intro part _
    rfl
  . rintro ρ' part _ hρ rfl
    exact addString _

end Run.Twin

namespace Run

/--
Texts that show the same from now on, however the two runs go on.
-/
def TextOperand.Alike (L : Likeness) (ρ : Renaming) (s t : Store) (x y : TextOperand) : Prop :=
  ∀ {ρ' s' t'}, s.Passage L ρ ρ' t s' t' → x.chars s' = y.chars t'

namespace TextOperand.Alike

variable {s t s' t' : Store} {x y : TextOperand} {a b : Nat}

theorem char (c : Char) : TextOperand.Alike L ρ s t (.char c) (.char c) :=
  fun _ => rfl

theorem view (h : s.Alike L ρ t) (hab : ρ .strings a b) :
    TextOperand.Alike L ρ s t (.view ((s.string a).view a)) (.view ((t.string b).view b)) := by
  intro ρ' s' t' hpassage
  have hlater := hpassage.alike.string (hpassage.le _ _ _ hab)
  exact (hpassage.moves hab).seen (h.string hab) hlater a b

theorem after (h : x.Alike L ρ s t y) (hpassage : s.Passage L ρ ρ' t s' t') :
    x.Alike L ρ' s' t' y :=
  fun hlater => h (hpassage.trans hlater)

theorem chars (h : x.Alike L ρ s t y) (halike : s.Alike L ρ t) : x.chars s = y.chars t :=
  h (.refl halike)

end TextOperand.Alike

end Run

theorem Run.TwinAt.find {a b : Nat} {s t : Store} (halike : s.Alike L ρ t) (hab : ρ .strings a b)
    {x y : TextOperand} (hxy : x.Alike L ρ s t y) (start : Int64) :
    TwinAt L ρ s t (Run.find a x start) (Run.find b y start) (fun _ i j => i = j) := by
  apply TwinAt.consult
  rw [halike.chars hab, hxy.chars halike]
  apply Primitive.Agrees.refl (Primitive.find_sane _ _ _)
  intro i _
  rfl

namespace Run.Twin

variable {a b : Nat} {v w : Value}

/-! Arrays. -/

theorem arrayLength (hab : ρ .arrays a b) :
    Twin L ρ (Run.arrayLength a) (Run.arrayLength b) (fun _ x y => x = y) := by
  apply inspect
  intro s t halike
  have harray : ValuesAlike ρ (s.array a).toList (t.array b).toList := halike.objects hab
  simpa using harray.length_eq

theorem arrayGet (hab : ρ .arrays a b) (i : Int64) :
    Twin L ρ (Run.arrayGet a i) (Run.arrayGet b i) Value.Alike := by
  apply bind (Q := fun ρ' x y => ValuesAlike ρ' x.toList y.toList)
  . apply inspect
    intro s t halike
    exact halike.objects hab
  . intro ρ' x y hρ hxy
    have hsize : x.size = y.size := by simpa using hxy.length_eq
    rw [hsize]
    apply primitive (Primitive.index_sane _ _ _)
    intro i hi
    apply pure
    have hi' : i < x.size := by omega
    have := hxy.get (i := i) (by simpa using hi') (by simpa using hi)
    simpa [Array.getD, hi, hi'] using this

theorem arraySet (hab : ρ .arrays a b) (i : Int64) (hvw : v.Alike ρ w) :
    Twin L ρ (Run.arraySet a i v) (Run.arraySet b i w) (fun _ _ _ => True) := by
  apply bind (arrayLength hab)
  rintro ρ' size _ hρ rfl
  apply primitive (Primitive.index_sane _ _ _)
  intro i _
  apply update (hρ _ _ _ hab) nofun (fun s => s.modify_arrays_changes _ _)
    (fun t => t.modify_arrays_changes _ _)
  intro s t halike
  apply Store.match_modify_arrays halike (hρ _ _ _ hab)
  intro x y hxy
  simp only [Array.toList_setIfInBounds]
  exact forall₂_set hxy (hvw.mono hρ) i

theorem arrayAdd (hab : ρ .arrays a b) (hvw : v.Alike ρ w) :
    Twin L ρ (Run.arrayAdd a v) (Run.arrayAdd b w) (fun _ _ _ => True) := by
  apply update hab nofun (fun s => s.modify_arrays_changes _ _) (fun t => t.modify_arrays_changes _ _)
  intro s t halike
  apply Store.match_modify_arrays halike hab
  intro x y hxy
  simp only [Array.toList_push]
  exact List.rel_append hxy (.cons hvw .nil)

theorem addArray {vs ws : Array Value} (hvs : ValuesAlike ρ vs.toList ws.toList) :
    Twin L ρ (Run.create (·.addArray vs)) (Run.create (·.addArray ws)) Value.Alike := by
  apply create .arrays (fun s => s.addArray_adds _) (fun t => t.addArray_adds _)
  . intro s t _
    simp only [Store.Match, Store.extent, Store.array_addArray]
    exact ValuesAlike.mono hvs (ρ.le_add _ _ _)
  . intro ρ' s t hnew
    exact .array hnew

/-! Records. -/

theorem getMember (hab : ρ .records a b) (member : String) :
    Twin L ρ (Run.getMember a member) (Run.getMember b member) Value.Alike := by
  apply consult
  intro s t halike
  unfold Primitive.getField
  obtain ⟨hv, hw⟩ | ⟨v, w, hv, hw, hvw⟩ :=
    rel_cases (EntriesAlike.lookup (halike.record hab).fields member)
  . rw [hv, hw, halike.typeOf hab]
    exact .error _
  . rw [hv, hw]
    exact .ok hvw

theorem setMember (hab : ρ .records a b) (member : String) (hvw : v.Alike ρ w) :
    Twin L ρ (Run.setMember a member v) (Run.setMember b member w) (fun _ _ _ => True) := by
  apply bind (getMember hab member)
  intro ρ' _ _ hρ _
  apply update (hρ _ _ _ hab) nofun (fun s => s.modify_records_changes _ _)
    (fun t => t.modify_records_changes _ _)
  intro s t halike
  apply Store.match_modify_records halike (hρ _ _ _ hab)
  intro x y hxy
  exact ⟨hxy.type, EntriesAlike.replaceValue hxy.fields member (hvw.mono hρ)⟩

theorem addBlankRecord (hab : ρ .recordTypes a b) :
    Twin L ρ (Run.create (·.addBlankRecord a)) (Run.create (·.addBlankRecord b)) Value.Alike := by
  apply create .records (fun s => s.addRecord_adds _) (fun t => t.addRecord_adds _)
  . intro s t halike
    simp only [Store.Match, Store.extent, Store.record_addRecord, halike.recordType hab]
    refine ⟨ρ.le_add _ _ _ _ _ _ hab, ?_⟩
    rw [EntriesAlike, List.forall₂_map_left_iff, List.forall₂_map_right_iff, List.forall₂_same]
    intro member _
    exact ⟨rfl, .null⟩
  . intro ρ' s t hnew
    exact .record hnew

theorem addRecordType {type : RecordType} (htype : L.type type) :
    Twin L ρ (Run.create (·.addRecordType type)) (Run.create (·.addRecordType type)) Value.Alike := by
  apply create .recordTypes (fun s => s.addRecordType_adds _) (fun t => t.addRecordType_adds _)
  . intro s t _
    simp only [Store.Match, Store.extent, Store.recordType_addRecordType]
    exact ⟨trivial, htype⟩
  . intro ρ' s t hnew
    exact .recordType hnew

/-! Closures, frames and copies. -/

theorem addClosure {c c' : Closure} (h : c.Alike L ρ c') :
    Twin L ρ (Run.create (·.addClosure c)) (Run.create (·.addClosure c')) Value.Alike := by
  apply create .closures (fun s => s.addClosure_adds _) (fun t => t.addClosure_adds _)
  . intro s t _
    simp only [Store.Match, Store.extent, Store.closure_addClosure]
    exact h.mono (ρ.le_add _ _ _)
  . intro ρ' s t hnew
    exact .closure hnew

theorem addFrame (hab : ρ .frames a b) :
    Twin L ρ (Run.create (·.addFrame (some a))) (Run.create (·.addFrame (some b)))
      (fun ρ' => ρ' .frames) := by
  apply create .frames (fun s => s.addFrame_adds _) (fun t => t.addFrame_adds _)
  . intro s t halike
    have hbounds := halike.bounds hab
    simp only [Store.Match, Store.extent, Store.frame_addFrame] at hbounds ⊢
    refine ⟨⟨.some (ρ.le_add _ _ _ _ _ _ hab), fun _ => .none, by simp [Frame.names],
      by simp [Frame.names]⟩, ?_, ?_⟩
    . rintro p ⟨⟩
      exact hbounds.1
    . rintro p ⟨⟩
      exact hbounds.2
  . intro ρ' s t hnew
    exact hnew

theorem clone (hvw : v.Alike ρ w) : Twin L ρ (Run.clone v) (Run.clone w) Value.Alike := by
  apply transform
  intro s t halike
  exact halike.clone hvw

end Run.Twin

end LispScript
