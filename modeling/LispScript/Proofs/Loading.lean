import LispScript.Load
import LispScript.Proofs.Reading
import LispScript.Proofs.Sound

/-!
This module contains the proof that loading adds to a sound store and yields trees that are sound in
it. Whatever the form is, it first takes what it needs for itself, and then its parts are loaded in
order.
-/

namespace LispScript

structure Store.Loads (s t : Store) : Prop where
  sound : s.Sound → t.Sound
  grows : s.Grows t
  records : t.records = s.records
  recordTypes : t.recordTypes = s.recordTypes

namespace Store.Loads

theorem refl (s : Store) : s.Loads s where
  sound := id
  grows := .refl s
  records := rfl
  recordTypes := rfl

theorem trans {s t u : Store} (hst : s.Loads t) (htu : t.Loads u) : s.Loads u where
  sound := fun hs => htu.sound (hst.sound hs)
  grows := hst.grows.trans htu.grows
  records := htu.records.trans hst.records
  recordTypes := htu.recordTypes.trans hst.recordTypes

theorem literal (s : Store) (l : Literal) : s.Loads (l.toValue s).2 := by
  cases l with
  | string content =>
    have hst : s.Grows (s.addString (.ofList content.toList)).2 := by
      constructor <;> simp [Store.addString]
    constructor
    . intro hs
      apply hs.plain hst <;> rfl
    . apply hst
    . rfl
    . rfl
  | _ => apply refl

theorem site (s : Store) : s.Loads s.addSite.2 := by
  have hst : s.Grows s.addSite.2 := by
    constructor <;> simp [Store.addSite]
  constructor
  . intro hs
    apply hs.plain hst <;> rfl
  . apply hst
  . rfl
  . rfl

end Store.Loads

namespace Form

/--
What loading a form at `s` comes to: its parts are loaded from `t` on.
-/
structure LoadsFrom (form : Form Literal) (s t : Store) : Prop where
  own : s.Loads t
  parts : (form.load s).1.parts = (Expr.loadAll form.parts t).1
  store : (form.load s).2 = (Expr.loadAll form.parts t).2
  literal : ∀ v, (form.load s).1 = .literal v → v.Within t

theorem loadCases_parts (cases : List (Expr Literal × Expr Literal)) (s : Store) :
    (Form.cond (Expr.loadCases cases s).1).parts = (Expr.loadAll (Form.cond cases).parts s).1 ∧
      (Expr.loadCases cases s).2 = (Expr.loadAll (Form.cond cases).parts s).2 := by
  induction cases generalizing s with
  | nil => exact ⟨rfl, rfl⟩
  | cons c rest ih =>
    obtain ⟨predicate, result⟩ := c
    obtain ⟨hparts, hstore⟩ := ih (result.load (predicate.load s).2).2
    constructor
    . apply congrArg (fun es => (predicate.load s).1 :: (result.load (predicate.load s).2).1 :: es)
      apply hparts
    . apply hstore

theorem load_parts (form : Form Literal) (s : Store) : ∃ t, form.LoadsFrom s t := by
  -- Only literals and closures take something for themselves.
  cases form with
  | literal l =>
    exists (l.toValue s).2
    refine ⟨.literal s l, rfl, rfl, ?_⟩
    intro v hv
    cases hv
    apply Run.toValue_within
  | lambda site params body =>
    exists s.addSite.2
    refine ⟨.site s, ?_, ?_, ?_⟩
    . rfl
    . rfl
    . intro v hv
      contradiction
  | cond cases =>
    exists s
    obtain ⟨hparts, hstore⟩ := loadCases_parts cases s
    refine ⟨.refl s, hparts, hstore, ?_⟩
    intro v hv
    contradiction
  | _ =>
    exists s
    refine ⟨.refl s, ?_, ?_, ?_⟩
    . rfl
    . rfl
    . intro v hv
      contradiction

end Form

namespace Expr

structure Loaded (s : Store) (r : Expr Value × Store) : Prop where
  loads : s.Loads r.2
  expr : r.1.Every r.2.SoundNode

structure LoadedAll (s : Store) (r : List (Expr Value) × Store) : Prop where
  loads : s.Loads r.2
  exprs : ∀ e ∈ r.1, e.Every r.2.SoundNode

theorem loadAll_loaded {es : List (Expr Literal)} (h : ∀ e ∈ es, ∀ s, Loaded s (e.load s))
    (s : Store) : LoadedAll s (loadAll es s) := by
  induction es generalizing s with
  | nil =>
    constructor
    . apply Store.Loads.refl
    . intro e he
      contradiction
  | cons e es ih =>
    have hhead := h e List.mem_cons_self s
    have hrest : LoadedAll (e.load s).2 (loadAll es (e.load s).2) := by
      apply ih
      intro e' he'
      apply h e' (List.mem_cons_of_mem e he')
    constructor
    . apply hhead.loads.trans hrest.loads
    . have hload : loadAll (e :: es) s
          = ((e.load s).1 :: (loadAll es (e.load s).2).1, (loadAll es (e.load s).2).2) := rfl
      rw [hload, List.forall_mem_cons]
      constructor
      . apply hhead.expr.mono
        intro location form
        apply Store.SoundNode.grows hrest.loads.grows
      . apply hrest.exprs

theorem load_loaded {e : Expr Literal} (h : e.Located) (s : Store) : Loaded s (e.load s) := by
  unfold Located at h
  induction h generalizing s with
  | absent =>
    constructor
    . apply Store.Loads.refl
    . apply Every.absent
  | @node location form hlocation _ ih =>
    obtain ⟨t, hform⟩ := form.load_parts s
    have hparts := loadAll_loaded ih t
    have hstore : ((node location form).load s).2 = (loadAll form.parts t).2 := hform.store
    constructor
    . rw [hstore]
      apply hform.own.trans hparts.loads
    . rw [hstore]
      apply Every.node
      . refine ⟨hlocation, ?_⟩
        intro v hv
        apply (hform.literal v hv).grows hparts.loads.grows
      . intro e he
        rw [hform.parts] at he
        apply hparts.exprs e he

end Expr

end LispScript
