import LispScript.Proofs.Isolation
import LispScript.Proofs.Stable

/-!
This module contains the proof that nothing that a machine has is ever taken away. Strings and arrays do
not get shorter, records keep their type and members, closures and record types stay as they are, and
frames keep their parent and their names; what was printed stays, and input is read line by line from the
front. It follows that what can be done once with an index, a member or a name can be done at all later
moments of a run.
-/

namespace LispScript

/-! Stores. -/

namespace Store

variable {s t u : Store}

/--
The object of `s` is there in `t`, with all that it had.
-/
def KeptAt (s t : Store) : Realm → Nat → Prop
  | .strings, a => (s.string a).chars.size ≤ (t.string a).chars.size
  | .arrays, a => (s.array a).size ≤ (t.array a).size
  | .recordTypes, a => t.recordType a = s.recordType a
  | .records, a => (t.record a).type = (s.record a).type ∧
      (t.record a).fields.map Prod.fst = (s.record a).fields.map Prod.fst
  | .closures, a => t.closure a = s.closure a
  | .frames, a => (t.frame a).parent = (s.frame a).parent ∧ (s.frame a).names ⊆ (t.frame a).names
  | .sites, _ => True

theorem SameAt.kept {k : Realm} {a : Nat} (h : s.SameAt t k a) : s.KeptAt t k a := by
  cases k <;> simp only [SameAt] at h <;> simp [KeptAt, h]

theorem KeptAt.trans {k : Realm} {a : Nat} (hst : s.KeptAt t k a) (htu : t.KeptAt u k a) :
    s.KeptAt u k a := by
  cases k with
  | strings => exact Nat.le_trans hst htu
  | arrays => exact Nat.le_trans hst htu
  | recordTypes => exact Eq.trans htu hst
  | records => exact ⟨htu.1.trans hst.1, htu.2.trans hst.2⟩
  | closures => exact Eq.trans htu hst
  | frames => exact ⟨htu.1.trans hst.1, List.Subset.trans hst.2 htu.2⟩
  | sites => trivial

structure Retains (s t : Store) : Prop where
  grows : ∀ k, s.extent k ≤ t.extent k
  kept : ∀ k a, a < s.extent k → s.KeptAt t k a

namespace Retains

theorem refl (s : Store) : s.Retains s where
  grows := fun _ => Nat.le_refl _
  kept := fun k a _ => (SameAt.refl s k a).kept

theorem trans (hst : s.Retains t) (htu : t.Retains u) : s.Retains u where
  grows := fun k => Nat.le_trans (hst.grows k) (htu.grows k)
  kept := by
    intro k a ha
    apply (hst.kept k a ha).trans
    apply htu.kept k a (Nat.lt_of_lt_of_le ha (hst.grows k))

end Retains

theorem Spares.retains (h : s.Spares (fun _ _ => False) t) : s.Retains t where
  grows := h.grows
  kept := fun k a ha => (h.same k a ha id).kept

theorem Adds.retains {k : Realm} (h : Adds k s t) : s.Retains t :=
  (h.spares fun _ _ => False).retains

theorem Changes.retains {k : Realm} {a : Nat} (h : Changes k a s t)
    (hkept : a < s.extent k → s.KeptAt t k a) : s.Retains t where
  grows := fun j => Nat.le_of_eq (h.extent j).symm
  kept := by
    intro j b hb
    by_cases hhere : (j, b) = (k, a)
    . cases hhere
      apply hkept hb
    . apply (h.same j b hhere).kept

end Store

/-! Copies. -/

namespace Value

open Store (Spares)

theorem cloneFlat_spares (v : Value) (c : Copying) :
    c.store.Spares (fun _ _ => False) (cloneFlat v c).2.store := by
  cases v with
  | string r => exact (c.store.addString_adds _).spares _
  | recordType r => exact (c.store.addRecordType_adds _).spares _
  | closure r => exact (c.store.addClosure_adds _).spares _
  | _ => apply Spares.refl

theorem cloneAll_go_spares {clone : Value → Copying → Value × Copying}
    (hclone : ∀ v (c : Copying), c.store.Spares (fun _ _ => False) (clone v c).2.store)
    (vs copies : List Value) (c : Copying) :
    c.store.Spares (fun _ _ => False) (cloneAll.go clone vs copies c).2.store := by
  induction vs generalizing copies c with
  | nil => apply Spares.refl
  | cons v vs ih =>
    simp only [cloneAll.go]
    exact (hclone v c).trans (ih _ _) fun _ _ _ => id

theorem cloneInto_spares (fuel : Nat) (v : Value) (c : Copying) :
    c.store.Spares (fun _ _ => False) (cloneInto fuel v c).2.store := by
  induction fuel generalizing v c with
  | zero => apply cloneFlat_spares
  | succ fuel ih =>
    cases v with
    | array r =>
      simp only [cloneInto]
      split
      . apply Spares.refl
      . -- The only array that is overwritten is the one that was added before.
        have hadd := (c.store.addArray_adds #[]).spares fun _ _ => False
        have hparts := cloneAll_go_spares ih ((c.store.addArray #[]).2.array r).toList []
          { c with store := (c.store.addArray #[]).2, arrays := (r, c.store.arrays.size) :: c.arrays }
        apply (hadd.trans hparts fun _ _ _ => id).trans
        . apply (Store.set_arrays_changes _ _ _).spares (P := fun k a =>
            k = .arrays ∧ a = c.store.arrays.size) ⟨rfl, rfl⟩
        . rintro k a ha ⟨rfl, rfl⟩
          exact Nat.lt_irrefl _ ha
    | record r =>
      simp only [cloneInto]
      split
      . apply Spares.refl
      . have hadd := (c.store.addRecord_adds { type := (c.store.record r).type, fields := [] }).spares
          fun _ _ => False
        have hparts := cloneAll_go_spares ih ((c.store.record r).fields.map Prod.snd) []
          { c with
            store := (c.store.addRecord { type := (c.store.record r).type, fields := [] }).2
            records := (r, c.store.records.size) :: c.records }
        apply (hadd.trans hparts fun _ _ _ => id).trans
        . apply (Store.set_records_changes _ _ _).spares (P := fun k a =>
            k = .records ∧ a = c.store.records.size) ⟨rfl, rfl⟩
        . rintro k a ha ⟨rfl, rfl⟩
          exact Nat.lt_irrefl _ ha
    | _ => apply cloneFlat_spares

theorem clone_spares (s : Store) (v : Value) : s.Spares (fun _ _ => False) (clone s v).2 :=
  cloneInto_spares (s.arrays.size + s.records.size + 1) v { store := s }

end Value

/-! Steps. -/

theorem Store.Change.retains {G : Regime} {home : Option Nat} {s t : Store}
    (h : s.Change G home t) : s.Retains t := by
  cases h with
  | @bind target name v =>
    apply (s.modify_frames_changes target _).retains
    intro htarget
    simp only [KeptAt, frame, getD_modify_self htarget]
    exact ⟨trivial, List.subset_cons_self _ _⟩
  | @rebind target name v =>
    apply (s.modify_frames_changes target _).retains
    intro htarget
    simp only [KeptAt, frame, getD_modify_self htarget, Confined.names_replaceValue]
    exact ⟨trivial, List.Subset.refl _⟩
  | addString b => exact (s.addString_adds b).retains
  | setChar ref i c =>
    apply (s.modify_strings_changes ref _).retains
    intro href
    simp [KeptAt, string, getD_modify_self href]
  | appendChars ref suffix =>
    apply (s.modify_strings_changes ref _).retains
    intro href
    simp [KeptAt, string, getD_modify_self href]
  | @addArray elements => exact (s.addArray_adds elements).retains
  | @setElement ref i v =>
    apply (s.modify_arrays_changes ref _).retains
    intro href
    simp [KeptAt, array, getD_modify_self href]
  | @pushElement ref v =>
    apply (s.modify_arrays_changes ref _).retains
    intro href
    simp [KeptAt, array, getD_modify_self href]
  | addRecordType type => exact (s.addRecordType_adds type).retains
  | addBlankRecord => exact (s.addRecord_adds _).retains
  | @setField ref member v =>
    apply (s.modify_records_changes ref _).retains
    intro href
    simp only [KeptAt, record, getD_modify_self href, keys_replaceValue, and_self]
  | @addClosure c => exact (s.addClosure_adds c).retains
  | @clone v => exact (Value.clone_spares s v).retains

structure Machine.Retains (m n : Machine) : Prop where
  store : m.store.Retains n.store
  output : ∃ text, n.output = m.output ++ text
  /-- What is left of the input is what was there without some lines at the front. -/
  input : n.input <:+ m.input

theorem Machine.Retains.of_store {m : Machine} {s : Store} (h : m.store.Retains s) :
    m.Retains { m with store := s } where
  store := h
  output := ⟨"", by simp⟩
  input := List.suffix_refl _

theorem Machine.retains_stable : Machine.Stable Machine.Retains where
  refl := fun m => .of_store (.refl m.store)
  trans := by
    intro l m n hlm hmn
    obtain ⟨text, htext⟩ := hlm.output
    obtain ⟨text', htext'⟩ := hmn.output
    refine ⟨hlm.store.trans hmn.store, ⟨text ++ text', ?_⟩, hmn.input.trans hlm.input⟩
    rw [htext', htext, String.append_assoc]
  change := by
    intro G home m n h
    cases h with
    | store h => exact .of_store h.retains
    | print text => exact ⟨.refl _, ⟨text, rfl⟩, List.suffix_refl _⟩
    | read h =>
      refine ⟨.refl _, ⟨"", by simp⟩, ?_⟩
      rw [h]
      apply List.suffix_cons
  addFrame := fun m parent => .of_store (m.store.addFrame_adds parent).retains

/-! What can be done again. -/

def Run.Succeeds {α : Type} (r : Run α) (m : Machine) : Prop :=
  ∃ a m', r m = .ok a m'

/--
Every index, member and name that is taken on the machine `m` is taken on `n`.
-/
structure Machine.Admits (m n : Machine) : Prop where
  charAt : ∀ ref i, (Run.charAt ref i).Succeeds m → (Run.charAt ref i).Succeeds n
  setCharAt : ∀ ref i c, (Run.setCharAt ref i c).Succeeds m → (Run.setCharAt ref i c).Succeeds n
  substring : ∀ ref start length,
    (Run.substring ref start length).Succeeds m → (Run.substring ref start length).Succeeds n
  find : ∀ ref needle start,
    (Run.find ref needle start).Succeeds m → (Run.find ref needle start).Succeeds n
  arrayGet : ∀ ref i, (Run.arrayGet ref i).Succeeds m → (Run.arrayGet ref i).Succeeds n
  arraySet : ∀ ref i v, (Run.arraySet ref i v).Succeeds m → (Run.arraySet ref i v).Succeeds n
  getMember : ∀ ref member,
    (Run.getMember ref member).Succeeds m → (Run.getMember ref member).Succeeds n
  setMember : ∀ ref member v,
    (Run.setMember ref member v).Succeeds m → (Run.setMember ref member v).Succeeds n
  lookup : ∀ frame name, (Run.lookup frame name).Succeeds m → (Run.lookup frame name).Succeeds n
  assign : ∀ frame name v, (Run.assign frame name v).Succeeds m → (Run.assign frame name v).Succeeds n
  isBound : ∀ frame name, m.store.isBound frame name → n.store.isBound frame name

namespace Run

theorem Succeeds.guarded {α : Type} {r : Run α} {sort : FaultSort} {P : Machine → α → Machine → Prop}
    {m : Machine} (hr : Guarded r sort P) (h : r.Succeeds m) : ∃ a m', P m a m' := by
  obtain ⟨a, m', hok⟩ := h
  have := hr m
  rw [hok] at this
  exact ⟨a, m', this⟩

theorem not_succeeds {α : Type} {r : Run α} {m m' : Machine} {i : Interrupt} (h : r m = .error i m') :
    ¬ r.Succeeds m := by
  rintro ⟨a, m'', hok⟩
  rw [h] at hok
  contradiction

theorem index_ok (role : String) {i : Int64} {size : Nat} (hlow : 0 ≤ i.toInt)
    (hhigh : i.toInt.toNat < size) : Primitive.index role i size = .ok i.toInt.toNat := by
  unfold Primitive.index
  rw [if_pos]
  omega

/--
An operation that looks at an index first, and can then be done.
-/
theorem Succeeds.indexed {α : Type} {r : Run α} (role : String) {i : Int64} (size : Machine → Nat)
    (f : Machine → Nat → Run α)
    (hr : ∀ m, r m = (ofPrimitive (Primitive.index role i (size m)) >>= f m) m)
    (hf : ∀ m k, (f m k).Succeeds m) {m n : Machine} (hsize : size m ≤ size n) (h : r.Succeeds m) :
    r.Succeeds n := by
  obtain ⟨a, m', hok⟩ := h
  rw [hr] at hok
  unfold Succeeds
  rw [hr]
  cases index_cases role i (size m) with
  | inl hin =>
    rw [index_ok role hin.2.1 (Nat.lt_of_lt_of_le hin.2.2 hsize)]
    apply hf
  | inr hout =>
    rw [hout] at hok
    contradiction

theorem substring_ok {s : Array Char} {start length : Int64} (hstart : 0 ≤ start.toInt)
    (hlength : 0 ≤ length.toInt) (hend : start.toInt + length.toInt ≤ s.size) :
    ∃ part, Primitive.substring s start length = .ok part := by
  have hindex : Primitive.index "substring start" start (s.size + 1) = .ok start.toInt.toNat :=
    index_ok _ hstart (by omega)
  unfold Primitive.substring
  rw [hindex]
  simp only [bind, Except.bind]
  rw [if_pos (by omega)]
  exact ⟨_, rfl⟩

theorem find_ok {s : List Char} (needle : List Char) {start : Int64} (hlow : 0 ≤ start.toInt)
    (hhigh : start.toInt ≤ s.length) : ∃ i, Primitive.find s needle start = .ok i := by
  have hindex : Primitive.index "search start" start (s.length + 1) = .ok start.toInt.toNat :=
    index_ok _ hlow (by omega)
  unfold Primitive.find
  rw [hindex]
  simp only [bind, Except.bind]
  split
  . exact ⟨_, rfl⟩
  . exact ⟨_, rfl⟩

end Run

theorem isSome_lookup_iff {key : String} {pairs : List (String × Value)} :
    (pairs.lookup key).isSome ↔ key ∈ pairs.map Prod.fst := by
  rw [List.lookup_isSome_iff, List.mem_map]
  constructor
  . rintro ⟨p, hp, hkey⟩
    exact ⟨p, hp, (eq_of_beq hkey).symm⟩
  . rintro ⟨p, hp, rfl⟩
    exact ⟨p, hp, beq_self_eq_true _⟩

namespace Store.Retains

variable {s t : Store} (h : s.Retains t)

include h

theorem string (a : Nat) : (s.string a).chars.size ≤ (t.string a).chars.size := by
  by_cases ha : a < s.strings.size
  . exact h.kept .strings a ha
  . have hdefault : s.string a = default := by simp [Store.string, ha]
    rw [hdefault]
    apply Nat.zero_le

theorem array (a : Nat) : (s.array a).size ≤ (t.array a).size := by
  by_cases ha : a < s.arrays.size
  . exact h.kept .arrays a ha
  . have hdefault : s.array a = #[] := by simp [Store.array, ha]
    rw [hdefault]
    apply Nat.zero_le

theorem field {a : Nat} {member : String} (hs : ((s.record a).fields.lookup member).isSome) :
    ((t.record a).fields.lookup member).isSome := by
  rw [isSome_lookup_iff] at hs ⊢
  by_cases ha : a < s.records.size
  . rw [(h.kept .records a ha).2]
    apply hs
  . have hdefault : s.record a = default := by simp [Store.record, ha]
    rw [hdefault] at hs
    contradiction

theorem frame {a : Nat} (ha : a < s.frames.size) :
    (t.frame a).parent = (s.frame a).parent ∧ (s.frame a).names ⊆ (t.frame a).names :=
  h.kept .frames a ha

theorem binds {a : Nat} {name : String} (hs : (s.frame a).binds name) : (t.frame a).binds name := by
  unfold Frame.binds Frame.lookup at hs ⊢
  rw [isSome_lookup_iff] at hs ⊢
  by_cases ha : a < s.frames.size
  . apply (h.frame ha).2 hs
  . have hdefault : s.frame a = default := by simp [Store.frame, ha]
    rw [hdefault] at hs
    contradiction

theorem parent {a p : Nat} (hs : (s.frame a).parent = some p) : (t.frame a).parent = some p := by
  by_cases ha : a < s.frames.size
  . rw [(h.frame ha).1]
    apply hs
  . have hdefault : s.frame a = default := by simp [Store.frame, ha]
    rw [hdefault] at hs
    contradiction

/--
A name that was found is found again, in the same frame or in a nearer one.
-/
theorem nearest {name : String} {fuel a : Nat} (hs : (s.nearest name fuel a).isSome) :
    (t.nearest name fuel a).isSome := by
  induction fuel generalizing a with
  | zero => contradiction
  | succ fuel ih =>
    unfold Store.nearest at hs ⊢
    by_cases htbinds : (t.frame a).binds name
    . rw [if_pos htbinds]
      rfl
    . rw [if_neg htbinds]
      rw [if_neg fun hsbinds => htbinds (h.binds hsbinds)] at hs
      cases hparent : (s.frame a).parent with
      | none =>
        rw [hparent] at hs
        contradiction
      | some p =>
        rw [hparent] at hs
        rw [h.parent hparent]
        apply ih hs

theorem isBound {a : Nat} {name : String} (hs : s.isBound a name) : t.isBound a name := by
  rw [isBound_eq] at hs ⊢
  exact h.nearest hs

end Store.Retains

theorem Store.isSome_nearest_binds {s : Store} {name : String} {fuel a b : Nat}
    (h : s.nearest name fuel a = some b) : (s.frame b).binds name := by
  induction fuel generalizing a with
  | zero => contradiction
  | succ fuel ih =>
    unfold Store.nearest at h
    split at h
    . next hbinds =>
      cases h
      apply hbinds
    . split at h
      . apply ih h
      . contradiction

theorem Store.isSome_lookup {s : Store} {a : Nat} {name : String} :
    (s.lookup a name).isSome = s.isBound a name := by
  rw [lookup_eq, isBound_eq]
  cases hresolve : s.resolve a name with
  | none => rfl
  | some b => apply isSome_nearest_binds hresolve

namespace Run

theorem getMember_succeeds_iff {ref : Nat} {member : String} {m : Machine} :
    (getMember ref member).Succeeds m ↔ ((m.store.record ref).fields.lookup member).isSome := by
  have hrun : getMember ref member m = ofPrimitive (Primitive.getField m.store ref member) m := rfl
  rw [Primitive.getField] at hrun
  cases hfield : (m.store.record ref).fields.lookup member with
  | none =>
    rw [hfield] at hrun
    exact iff_of_false (not_succeeds hrun) Bool.false_ne_true
  | some v =>
    rw [hfield] at hrun
    exact iff_of_true ⟨v, m, hrun⟩ rfl

theorem setMember_succeeds_iff {ref : Nat} {member : String} {v : Value} {m : Machine} :
    (setMember ref member v).Succeeds m ↔ (getMember ref member).Succeeds m := by
  cases hget : getMember ref member m with
  | ok a m' => exact iff_of_true ⟨(), _, bind_ok hget⟩ ⟨a, m', hget⟩
  | error i m' => exact iff_of_false (not_succeeds (bind_error hget)) (not_succeeds hget)

theorem lookup_succeeds_iff {frame : Nat} {name : String} {m : Machine} :
    (lookup frame name).Succeeds m ↔ m.store.isBound frame name := by
  have hinspect : inspect (·.lookup frame name) m = .ok (m.store.lookup frame name) m := rfl
  rw [← Store.isSome_lookup]
  cases hlookup : m.store.lookup frame name with
  | none =>
    rw [hlookup] at hinspect
    exact iff_of_false (not_succeeds (bind_ok hinspect)) Bool.false_ne_true
  | some v =>
    rw [hlookup] at hinspect
    exact iff_of_true ⟨v, m, bind_ok hinspect⟩ rfl

theorem assign_succeeds_iff {frame : Nat} {name : String} {v : Value} {m : Machine} :
    (assign frame name v).Succeeds m ↔ m.store.isBound frame name := by
  have happly := assign_apply frame name v m
  rw [Store.isBound_eq]
  cases hresolve : m.store.resolve frame name with
  | none =>
    rw [hresolve] at happly
    exact iff_of_false (not_succeeds happly) Bool.false_ne_true
  | some target =>
    rw [hresolve] at happly
    exact iff_of_true ⟨(), _, happly⟩ rfl

end Run

namespace Machine.Retains

theorem admits {m n : Machine} (h : m.Retains n) : m.Admits n where
  charAt := fun ref i => .indexed "string index" (fun m => (m.store.string ref).chars.size) _
    (fun _ => rfl) (fun _ _ => ⟨_, _, rfl⟩) (h.store.string ref)
  setCharAt := fun ref i c => .indexed "string index" (fun m => (m.store.string ref).chars.size)
    (fun _ k => Run.update (·.setChar ref k c)) (fun _ => rfl) (fun _ _ => ⟨_, _, rfl⟩)
    (h.store.string ref)
  substring := by
    intro ref start length hm
    obtain ⟨_, m', hstart, hlength, hend⟩ := hm.guarded (Run.substring_guarded ref start length)
    have hsize := h.store.string ref
    obtain ⟨part, hpart⟩ := Run.substring_ok hstart hlength
      (s := (n.store.string ref).chars) (by omega)
    have hrun : Run.substring ref start length n = (Run.ofPrimitive
        (Primitive.substring (n.store.string ref).chars start length) >>= fun part =>
          Run.create (·.addString (.exact part))) n := rfl
    unfold Run.Succeeds
    rw [hrun, hpart]
    exact ⟨_, _, rfl⟩
  find := by
    intro ref needle start hm
    obtain ⟨_, m', _, hlow, hhigh⟩ := hm.guarded (Run.find_guarded ref needle start)
    have hsize := h.store.string ref
    have hin : start.toInt ≤ (n.store.string ref).chars.toList.length := by
      rw [Array.length_toList]
      omega
    obtain ⟨i, hi⟩ := Run.find_ok (needle.chars n.store) hlow hin
    have hrun : Run.find ref needle start n = Run.ofPrimitive
        (Primitive.find (n.store.string ref).chars.toList (needle.chars n.store) start) n := rfl
    refine ⟨i, n, ?_⟩
    rw [hrun, hi]
    rfl
  arrayGet := fun ref i => .indexed "array index" (fun m => (m.store.array ref).size) _
    (fun _ => rfl) (fun _ _ => ⟨_, _, rfl⟩) (h.store.array ref)
  arraySet := fun ref i v => .indexed "array index" (fun m => (m.store.array ref).size)
    (fun _ k => Run.update (·.setElement ref k v)) (fun _ => rfl) (fun _ _ => ⟨_, _, rfl⟩)
    (h.store.array ref)
  getMember := by
    intro ref member hm
    rw [Run.getMember_succeeds_iff] at hm ⊢
    apply h.store.field hm
  setMember := by
    intro ref member v hm
    rw [Run.setMember_succeeds_iff, Run.getMember_succeeds_iff] at hm ⊢
    apply h.store.field hm
  lookup := by
    intro frame name hm
    rw [Run.lookup_succeeds_iff] at hm ⊢
    apply h.store.isBound hm
  assign := by
    intro frame name v hm
    rw [Run.assign_succeeds_iff] at hm ⊢
    apply h.store.isBound hm
  isBound := fun frame name => h.store.isBound

end Machine.Retains

/-! Whole runs. -/

theorem eval_retains (context : Option Context) (fuel frame : Nat) (e : Expr Value) (m : Machine) :
    m.Retains (Run.machine (eval context fuel frame e m)) :=
  eval_stable Machine.retains_stable context fuel frame e m

theorem Machine.evaluate_machine (m : Machine) (context : Option Context) (frame : Nat)
    (e : Expr Value) :
    (m.evaluate context frame e).2 = Run.machine (eval context unbounded frame e m) := by
  unfold evaluate run Run.refuseBreak
  generalize eval context unbounded frame e m = r
  cases r with
  | ok v m' => rfl
  | error i m' => cases i <;> rfl

namespace Job

variable {files : Files} {root : Nat}

/--
The workspace after a form at top level has been evaluated to `v`: there may be a record of it.
-/
def noted (e : Expr Value) (v : Value) (w : Workspace) : Workspace :=
  if w.verbose then
    let record : LogRecord :=
      { level := .debug
        message := "evaluated form"
        fields := [("location", (e.location?.map Location.text).getD "<unknown>"),
          ("result", v.text w.machine.store)] }
    { w with notices := .log record :: w.notices }
  else w

theorem machine_noted (e : Expr Value) (v : Value) (w : Workspace) :
    (noted e v w).machine = w.machine := by
  unfold noted
  split
  . rfl
  . rfl

theorem evalForms_go_cons {context : Context} {last v : Value} {e : Expr Value}
    {rest : List (Expr Value)} {w : Workspace} (h : (w.machine.evaluate context root e).1 = .ok v) :
    (evalForms.go context root last (e :: rest)).result files w
      = (evalForms.go context root v rest).result files
        (noted e v { w with machine := (w.machine.evaluate context root e).2 }) := by
  rw [evalForms.go, result_bind, result_onMachine, h]
  dsimp only
  generalize (w.machine.evaluate context root e).2 = m
  obtain ⟨machine, notices, verbose⟩ := w
  rw [result_bind]
  cases verbose with
  | true =>
    show (store >>= fun s => log .debug _ [_, ("result", v.text s)] >>= fun _ => _).result _ _ = _
    rw [result_bind, result_bind]
    rfl
  | false => rfl

theorem evalForms_go_append {context : Context} {last v : Value} {before : List (Expr Value)}
    {w : Workspace} (h : ((evalForms.go context root last before).result files w).1 = .ok v)
    (rest : List (Expr Value)) :
    (evalForms.go context root last (before ++ rest)).result files w
      = (evalForms.go context root v rest).result files
        ((evalForms.go context root last before).result files w).2 := by
  induction before generalizing last w with
  | nil =>
    cases h
    rfl
  | cons e before ih =>
    cases hr : (w.machine.evaluate context root e).1 with
    | error f =>
      rw [evalForms_go_error hr] at h
      contradiction
    | ok u =>
      rw [evalForms_go_cons hr] at h
      rw [List.cons_append, evalForms_go_cons hr, evalForms_go_cons hr]
      apply ih h

theorem evalForms_go_cons_retains {context : Context} {rest : List (Expr Value)}
    (hrest : ∀ v (w : Workspace), w.machine.Retains
      ((evalForms.go context root v rest).result files w).2.machine)
    (last : Value) (e : Expr Value) (w : Workspace) :
    (Run.machine (eval context unbounded root e w.machine)).Retains
      ((evalForms.go context root last (e :: rest)).result files w).2.machine := by
  rw [← Machine.evaluate_machine]
  cases hr : (w.machine.evaluate context root e).1 with
  | error f =>
    rw [evalForms_go_error hr]
    apply Machine.retains_stable.refl
  | ok v =>
    rw [evalForms_go_cons hr]
    have := hrest v (noted e v { w with machine := (w.machine.evaluate context root e).2 })
    rw [machine_noted] at this
    apply this

theorem evalForms_go_retains (context : Context) (forms : List (Expr Value)) (last : Value)
    (w : Workspace) :
    w.machine.Retains ((evalForms.go context root last forms).result files w).2.machine := by
  induction forms generalizing last w with
  | nil => apply Machine.retains_stable.refl
  | cons e rest ih =>
    apply Machine.retains_stable.trans (eval_retains context unbounded root e w.machine)
    apply evalForms_go_cons_retains ih

theorem loaded_retains (w : Workspace) (forms : List (Expr Literal)) :
    w.machine.Retains (loaded w forms).machine := by
  -- Nothing that is there stands for anything, so nothing of it may change.
  have halike : w.machine.Alike .exact (fun _ _ _ => False) w.machine :=
    ⟨⟨nofun, nofun, nofun⟩, rfl, rfl, rfl⟩
  obtain ⟨ρ, hpassage, _⟩ := loaded_twin (fun e (_ : e ∈ forms) => e.mentions_exact) halike
  apply Machine.Retains.of_store
  apply Store.Spares.retains
  refine ⟨hpassage.store.left.grows, ?_⟩
  intro k a ha _
  apply hpassage.store.left.same k a ha
  rintro ⟨b, hb⟩
  exact hb

theorem evalSource_retains (file : String) (source : Text) (w : Workspace) :
    w.machine.Retains ((evalSource root file source).result files w).2.machine := by
  cases hparse : Expr.parse file source.chars with
  | error e =>
    rw [evalSource_error hparse]
    apply Machine.retains_stable.refl
  | ok forms =>
    rw [evalSource_ok hparse]
    apply Machine.retains_stable.trans (loaded_retains w forms)
    apply evalForms_go_retains

theorem evalSources_retains (texts : List (String × Text)) (w : Workspace) :
    w.machine.Retains ((evalSources root texts).result files w).2.machine := by
  induction texts generalizing w with
  | nil => apply Machine.retains_stable.refl
  | cons text rest ih =>
    obtain ⟨file, source⟩ := text
    rw [evalSources, result_bind, result_bind]
    apply Machine.retains_stable.trans (evalSource_retains file source w) (ih _)

/--
A form that is evaluated at top level is evaluated between the beginning and the end of the run.
-/
theorem Evaluates.between {texts : List (String × Text)} {w : Workspace} {context : Context}
    {e : Expr Value} {m : Machine} (h : Evaluates files root texts w context e m) :
    w.machine.Retains m ∧
      (Run.machine (eval context unbounded root e m)).Retains
        ((evalSources root texts).result files w).2.machine := by
  induction h with
  | @first file source rest w forms before after e v hparse hload hbefore =>
    constructor
    . apply Machine.retains_stable.trans (loaded_retains w forms)
      apply evalForms_go_retains
    . rw [evalSources, result_bind, result_bind, evalSource_ok hparse, hload]
      apply Machine.retains_stable.trans _ (evalSources_retains rest _)
      unfold evalForms
      rw [evalForms_go_append hbefore]
      apply evalForms_go_cons_retains (evalForms_go_retains _ _)
  | later _ ih =>
    rw [evalSources, result_bind, result_bind]
    exact ⟨Machine.retains_stable.trans (evalSource_retains _ _ _) ih.1, ih.2⟩

end Job

/--
Whatever an evaluation comes to, the machine at its end has all that the machine at its beginning had. In
a run of source texts this holds from the beginning of the run to that of any evaluation in it, and from
the end of that evaluation to the end of the run.
-/
theorem runs_retain (files : Files) (root : Nat) :
    (∀ (context : Option Context) (fuel frame : Nat) (e : Expr Value) (m : Machine),
      let after := Run.machine (eval context fuel frame e m)
      m.Retains after ∧ m.Admits after) ∧
    ∀ (texts : List (String × Text)) (w : Workspace) (context : Context) (e e' : Expr Value)
      (m m' : Machine) (fuel frame : Nat), Job.Evaluates files root texts w context e m →
      Occurs (some context) unbounded root e m fuel frame e' m' →
      let after := Run.machine (eval context fuel frame e' m')
      let final := ((Job.evalSources root texts).result files w).2.machine
      (w.machine.Retains m' ∧ w.machine.Admits m') ∧ after.Retains final ∧ after.Admits final := by
  constructor
  . intro context fuel frame e m after
    have hretains := eval_retains context fuel frame e m
    exact ⟨hretains, hretains.admits⟩
  . intro texts w context e e' m m' fuel frame hevaluates hoccurs after final
    obtain ⟨hbegin, hend⟩ := hevaluates.between
    obtain ⟨hbefore, hafter⟩ := hoccurs.between Machine.retains_stable
    have hfirst := Machine.retains_stable.trans hbegin hbefore
    have hlast := Machine.retains_stable.trans hafter hend
    exact ⟨⟨hfirst, hfirst.admits⟩, hlast, hlast.admits⟩

theorem runs_retain_read :
    let w : Workspace :=
      { machine := { store := { frames := #[{ parent := none }] }, input := [.ofChars ['1']] } }
    let source : Text := .ofChars ['(', 'r', 'e', 'a', 'd', ')']
    let final :=
      ((Job.evalSources 0 [("a", source)]).result Files.none w).2.machine
    ∃ e m, Job.Evaluates Files.none 0 [("a", source)] w { file := "a", source } e m ∧
      Occurs (some { file := "a", source }) unbounded 0 e m unbounded 0 e m ∧
      w.machine.Retains m ∧
        (Run.machine (eval (some { file := "a", source }) unbounded 0 e m)).Retains final := by
  intro w source final
  have hevaluates := @Job.Evaluates.first Files.none 0 "a" source [] w _ [] [] _ .null
    rfl rfl rfl
  have h := (runs_retain Files.none 0).2 _ _ _ _ _ _ _ _ _ hevaluates .here
  exact ⟨_, _, hevaluates, .here, h.1.1, h.2.1⟩

end LispScript
