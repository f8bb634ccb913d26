import LispScript.Proofs.Fields
import LispScript.Proofs.Naming

/-!
This module contains the proof that the store is tidy whatever source texts have been evaluated: frames
are inside of older ones, records have the members of their types, and whatever is bound has a name that
can be written down. A run is compared with itself, under a likeness that admits no other names and no
other types, and a renaming that every object takes part in.
-/

namespace LispScript

variable {s : Store}

/--
Frames bind nothing but names that can be written down, and no type has a member twice.
-/
def Likeness.strict : Likeness where
  placed := True
  name := fun name => decide (Nameable name)
  bound := Nameable
  bound_of_name := fun _ h => of_decide_eq_true h
  type := fun t => t.members.Nodup
  type_of_nodup := fun _ h => h

theorem Expr.Named.mentions {α : Type} {e : Expr α} (h : e.Named) : e.Mentions .strict :=
  h.mono fun _ _ hnames name hname => decide_eq_true (hnames name hname)

/-! Source texts. -/

/--
Every object of the store takes part in a renaming that makes the store alike to itself.
-/
def Store.Strict (root : Nat) (s : Store) : Prop :=
  ∃ ρ : Renaming, s.Alike .strict ρ s ∧ ρ.Covers s s ∧ ρ .frames root root

theorem Job.evalSource_strict {files : Files} {root : Nat} (file : String)
    (source : Text) {w : Workspace} (h : w.machine.store.Strict root) :
    ((evalSource root file source).result files w).2.machine.store.Strict root := by
  obtain ⟨ρ, halike, hcovers, hroot⟩ := h
  have hnamed := Expr.parse_named file source.chars
  have hforms : ∀ forms, Expr.parse file source.chars = .ok forms → ∀ e ∈ forms, e.Mentions .strict := by
    intro forms hforms e he
    rw [hforms] at hnamed
    exact (hnamed e he).mentions
  have hmachine : w.machine.Alike .strict ρ w.machine := ⟨halike, rfl, rfl, rfl⟩
  obtain ⟨ρ', hpassage, _⟩ := Job.evalSource_twin hforms hroot hmachine
  exact ⟨ρ', hpassage.store.alike, hpassage.store.covers hcovers, hpassage.store.le _ _ _ hroot⟩

theorem Job.evalSources_strict {files : Files} {root : Nat}
    (texts : List (String × Text)) {w : Workspace} (h : w.machine.store.Strict root) :
    ((evalSources root texts).result files w).2.machine.store.Strict root := by
  induction texts generalizing w with
  | nil => exact h
  | cons text rest ih =>
    rw [evalSources, result_bind, result_bind]
    exact ih (evalSource_strict text.1 text.2 h)

namespace Store.Strict

variable {root : Nat}

theorem frame (h : s.Strict root) {f : Nat} (hf : f < s.frames.size) :
    (s.frame f).Older f ∧ ∀ name ∈ (s.frame f).names, Nameable name := by
  obtain ⟨ρ, halike, hcovers, _⟩ := h
  obtain ⟨b, hfb⟩ := (hcovers .frames).1 f hf
  obtain ⟨hframe, holder, _⟩ := halike.objects hfb
  exact ⟨holder, hframe.left⟩

theorem members (h : s.Strict root) {t : Nat} (ht : t < s.recordTypes.size) :
    (s.recordType t).members.Nodup := by
  obtain ⟨ρ, halike, hcovers, _⟩ := h
  obtain ⟨b, htb⟩ := (hcovers .recordTypes).1 t ht
  exact (halike.objects htb).2

end Store.Strict

/-! Names. -/

namespace Store

theorem frame_of_le {f : Nat} (hf : s.frames.size ≤ f) : s.frame f = default := by
  simp [frame, hf]

theorem older_of_lt (h : ∀ f < s.frames.size, (s.frame f).Older f) (f : Nat) : (s.frame f).Older f := by
  by_cases hf : f < s.frames.size
  . exact h f hf
  . rw [frame_of_le (Nat.le_of_not_gt hf)]
    nofun

/--
Parents are older, so a search that may look at more frames than there are finds nothing else.
-/
theorem nearest_eq (h : ∀ f, (s.frame f).Older f) (name : String) {fuel fuel' f : Nat}
    (hfuel : f < fuel) (hfuel' : f < fuel') : s.nearest name fuel f = s.nearest name fuel' f := by
  induction fuel generalizing fuel' f with
  | zero => omega
  | succ fuel ih =>
    cases fuel' with
    | zero => omega
    | succ fuel' =>
      rw [nearest, nearest]
      cases hparent : (s.frame f).parent with
      | none => rfl
      | some p =>
        have hp := h f p hparent
        dsimp only
        rw [ih (by omega) (show p < fuel' by omega)]

theorem resolve_eq (h : ∀ f, (s.frame f).Older f) (f : Nat) (name : String) :
    s.resolve f name = if (s.frame f).binds name then some f
      else (s.frame f).parent.bind (s.resolve · name) := by
  rw [resolve, nearest]
  cases hparent : (s.frame f).parent with
  | none => rfl
  | some p =>
    dsimp only [Option.bind_some]
    rw [nearest_eq h name (h f p hparent) (Nat.lt_succ_self p)]
    rfl

end Store

/-! Members. -/

namespace Store.KeyedAt

variable {r : Nat} {member : String}

theorem getField_ok (h : s.KeyedAt r) (hmember : member ∈ (s.typeOf r).members) :
    ∃ v, Primitive.getField s r member = .ok v := by
  rw [← h.keys] at hmember
  unfold Primitive.getField
  split
  . next v _ => exact ⟨v, rfl⟩
  . next hnone =>
    obtain ⟨p, hp, rfl⟩ := List.mem_map.1 hmember
    have := List.lookup_eq_none_iff.1 hnone p hp
    simp at this

theorem getField_error (h : s.KeyedAt r) (hmember : member ∉ (s.typeOf r).members) :
    Primitive.getField s r member = .error (.unknownMember (s.typeOf r).name member) := by
  rw [← h.keys] at hmember
  unfold Primitive.getField
  split
  . next v hsome => exact absurd (List.mem_map_of_mem (Store.mem_of_lookup hsome)) hmember
  . rfl

end Store.KeyedAt

theorem Run.consult_apply {α : Type} (f : Store → Except Fault α) (m : Machine) :
    Run.consult f m = match f m.store with
      | .ok a => .ok a m
      | .error fault => .error (.failure { fault }) m := by
  show Run.ofPrimitive (f m.store) m = _
  cases f m.store <;> rfl

theorem Store.KeyedAt.getMember {r : Nat} {m : Machine} (h : m.store.KeyedAt r) (member : String) :
    if member ∈ (m.store.typeOf r).members then ∃ v, Run.getMember r member m = .ok v m
    else Run.getMember r member m =
      .error (.failure { fault := .unknownMember (m.store.typeOf r).name member }) m := by
  split
  . next hmember =>
    obtain ⟨v, hv⟩ := h.getField_ok hmember
    exact ⟨v, by rw [Run.getMember, Run.consult_apply, hv]⟩
  . next hmember => rw [Run.getMember, Run.consult_apply, h.getField_error hmember]

theorem Store.KeyedAt.setMember {r : Nat} {m : Machine} (h : m.store.KeyedAt r) (member : String)
    (v : Value) : Run.setMember r member v m =
      if member ∈ (m.store.typeOf r).members then .ok () { m with store := m.store.setField r member v }
      else .error (.failure { fault := .unknownMember (m.store.typeOf r).name member }) m := by
  have hget := h.getMember member
  unfold Run.setMember
  split at hget
  . next hmember =>
    obtain ⟨old, hold⟩ := hget
    rw [if_pos hmember, Run.bind_ok hold]
    rfl
  . next hmember => rw [if_neg hmember, Run.bind_error hget]

/--
What holds of a store between two source texts. By `resolve`, the search for a name goes outward from
frame to frame and ends: it never runs out of the frames that it may look at.
-/
structure Store.Tidy (s : Store) : Prop where
  parents : ∀ f < s.frames.size, ∀ p, (s.frame f).parent = some p → p < f
  resolve : ∀ f < s.frames.size, ∀ name, s.resolve f name =
    if (s.frame f).binds name then some f else (s.frame f).parent.bind (s.resolve · name)
  types : ∀ r < s.records.size, (s.record r).type < s.recordTypes.size
  keys : ∀ r < s.records.size, (s.record r).fields.map Prod.fst = (s.typeOf r).members
  members : ∀ t < s.recordTypes.size, (s.recordType t).members.Nodup
  get : ∀ m : Machine, m.store = s → ∀ r < s.records.size, ∀ member,
    if member ∈ (s.typeOf r).members then ∃ v, Run.getMember r member m = .ok v m
    else Run.getMember r member m =
      .error (.failure { fault := .unknownMember (s.typeOf r).name member }) m
  set : ∀ m : Machine, m.store = s → ∀ r < s.records.size, ∀ member v,
    Run.setMember r member v m =
      if member ∈ (s.typeOf r).members then .ok () { m with store := s.setField r member v }
      else .error (.failure { fault := .unknownMember (s.typeOf r).name member }) m
  names : ∀ f < s.frames.size, ∀ name ∈ (s.frame f).names, name ∉ ["true", "false", "null"] ∧
    ∀ file, ∃ l, Expr.parse file name.toList = .ok [.node (some l) (.symbol name)]

theorem Store.Tidy.of_strict {root : Nat} (hstrict : s.Strict root) (hkeyed : s.Keyed) : s.Tidy where
  parents := fun f hf => (hstrict.frame hf).1
  resolve := fun f _ => resolve_eq (older_of_lt fun f hf => (hstrict.frame hf).1) f
  types := fun r hr => (hkeyed r hr).type
  keys := fun r hr => (hkeyed r hr).keys
  members := fun t => hstrict.members
  get := by
    rintro m rfl r hr
    exact (hkeyed r hr).getMember
  set := by
    rintro m rfl r hr
    exact (hkeyed r hr).setMember
  names := by
    intro f hf name hname
    have hnameable := (hstrict.frame hf).2 name hname
    exact ⟨hnameable.ne_reserved, hnameable.parse⟩

/--
Whatever source texts are evaluated in a new environment, and whether or not they fail, the store is tidy.
-/
theorem evalSources_tidy (files : Files) (w : Workspace)
    (texts : List (String × Text)) :
    let fresh : Workspace := { w with machine := { w.machine with store := {} } }
    let start := Job.newRoot.result files fresh
    ((Job.evalSources start.1 texts).result files start.2).2.machine.store.Tidy := by
  intro fresh start
  have hroot : start.1 < start.2.machine.store.frames.size := Nat.zero_lt_one
  have hfit : start.2.machine.Fit start.1 := ⟨Store.Sound.empty.addFrame nofun, hroot⟩
  have hkeyed : start.2.machine.store.Keyed := nofun
  have hstrict : start.2.machine.store.Strict start.1 := by
    have hcovers (k : Realm) (a : Nat) (ha : a < start.2.machine.store.extent k) :
        Renaming.single start.1 start.1 k a a := by
      cases k with
      | frames => exact ⟨rfl, Nat.lt_one_iff.1 ha, Nat.lt_one_iff.1 ha⟩
      | _ => contradiction
    refine ⟨.single start.1 start.1, Store.alike_single hroot hroot rfl rfl, ?_, ⟨rfl, rfl, rfl⟩⟩
    intro k
    exact ⟨fun a ha => ⟨a, hcovers k a ha⟩, fun a ha => ⟨a, hcovers k a ha⟩⟩
  exact .of_strict (Job.evalSources_strict texts hstrict) (Job.evalSources_keyed texts hfit hkeyed)

end LispScript
