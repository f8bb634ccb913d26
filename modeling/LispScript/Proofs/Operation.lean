import LispScript.Proofs.Plan

/-!
This module contains the plans of the operations on the machine, and of the ways in which forms
evaluate their parts.
-/

namespace LispScript

namespace Run

theorem bind_ok {α β : Type} {x : Run α} {f : α → Run β} {m m' : Machine} {a : α} (h : x m = .ok a m') :
    (x >>= f) m = f a m' := by
  show EStateM.bind x f m = _
  unfold EStateM.bind
  rw [h]

theorem bind_error {α β : Type} {x : Run α} {f : α → Run β} {m m' : Machine} {i : Interrupt}
    (h : x m = .error i m') : (x >>= f) m = .error i m' := by
  show EStateM.bind x f m = _
  unfold EStateM.bind
  rw [h]

/--
The walk that changes a binding ends in the frame that the name is resolved in.
-/
theorem assign_apply (frame : Nat) (name : String) (v : Value) (m : Machine) :
    assign frame name v m = match m.store.resolve frame name with
      | some target => .ok () { m with store := m.store.rebind target name v }
      | none => .error (.failure { fault := .unknownSymbol name }) m := by
  have hwalk : create (·.assign frame name v) m
      = .ok (m.store.assign frame name v).1 { m with store := (m.store.assign frame name v).2 } := rfl
  rw [assign, bind_ok hwalk, Store.assign_eq]
  cases m.store.resolve frame name with
  | none => rfl
  | some target => rfl

theorem assign_eq (frame : Nat) (name : String) (v : Value) :
    assign frame name v = (do
      match ← inspect (·.resolve frame name) with
      | some target => update (·.rebind target name v)
      | none => fail (.unknownSymbol name)) := by
  funext m
  have hinspect : inspect (·.resolve frame name) m = .ok (m.store.resolve frame name) m := rfl
  rw [assign_apply, bind_ok hinspect]
  cases m.store.resolve frame name with
  | none => rfl
  | some target => rfl

variable {G : Regime} {calls : Nat → Expr Value → Prop} {s : Store} {home : Option Nat}
  {frame : Nat} {e : Expr Value} {es : List (Expr Value)}

theorem evalText_plan {operation : String} (h : Ready G calls s frame (e :: es)) :
    Plan G calls s (some frame) (fun run => evalText run operation frame e) (fun _ _ => True) := by
  apply Plan.bind
  . apply h.head
  . intro t v hst hv
    split
    . apply Plan.bind
      . apply Plan.inspect (Q := fun _ _ => True) fun _ _ _ => trivial
      . intros
        apply Plan.pure fun _ _ => trivial
    . apply Plan.pure fun _ _ => trivial
    . apply Plan.fail (.inl rfl)

theorem index_plan {role : String} {i : Int64} {size : Nat} :
    Plan G calls s home (fun _ => ofPrimitive (Primitive.index role i size))
      (fun _ k => k < size) :=
  Plan.ofPrimitive (Primitive.index_sane role i size) fun _ _ hk => hk

theorem charAt_plan {ref : Nat} {i : Int64} :
    Plan G calls s home (fun _ => charAt ref i) (fun _ _ => True) := by
  apply Plan.bind
  . apply Plan.inspect (Q := fun _ _ => True) fun _ _ _ => trivial
  . intros
    apply Plan.bind
    . apply index_plan
    . intros
      apply Plan.pure fun _ _ => trivial

theorem setCharAt_plan {ref : Nat} {i : Int64} {c : Char} :
    Plan G calls s home (fun _ => setCharAt ref i c) (fun _ _ => True) := by
  apply Plan.bind
  . apply Plan.inspect (Q := fun _ _ => True) fun _ _ _ => trivial
  . intros
    apply Plan.bind
    . apply index_plan
    . intros
      apply Plan.update fun t _ _ => .setChar _ _ _

theorem find_plan {ref : Nat} {needle : TextOperand} {start : Int64} :
    Plan G calls s home (fun _ => find ref needle start) (fun _ _ => True) :=
  Plan.consult fun _ _ _ => Primitive.find_sane _ _ start

variable [G.Lawful]

open Regime.Lawful

theorem evalSequence_go_plan {last : Value} (h : Ready G calls s frame es)
    (hlast : G.value s last) :
    Plan G calls s (some frame) (fun run => evalSequence.go run frame last es) G.value := by
  induction es generalizing s last with
  | nil =>
    apply Plan.pure
    intro t hst
    apply value_grows hst hlast
  | cons e es ih =>
    apply Plan.bind
    . apply h.head
    . intro t v hst hv
      apply ih (h.tail.grows hst) hv

theorem evalSequence_plan (h : Ready G calls s frame es) :
    Plan G calls s (some frame) (fun run => evalSequence run frame es) G.value :=
  evalSequence_go_plan h (value_of_within trivial)

theorem evalAll_go_plan {vs : Array Value} (h : Ready G calls s frame es)
    (hvs : ∀ v ∈ vs, G.value s v) :
    Plan G calls s (some frame) (fun run => evalAll.go run frame vs es)
      (fun t vs => ∀ v ∈ vs, G.value t v) := by
  induction es generalizing s vs with
  | nil =>
    apply Plan.pure
    intro t hst v hv
    apply value_grows hst (hvs v hv)
  | cons e es ih =>
    apply Plan.bind
    . apply h.head
    . intro t v hst hv
      apply ih (h.tail.grows hst)
      intro w hw
      cases Array.mem_push.1 hw with
      | inl hw => apply value_grows hst (hvs w hw)
      | inr hw =>
        rw [hw]
        apply hv

theorem evalAll_plan (h : Ready G calls s frame es) :
    Plan G calls s (some frame) (fun run => evalAll run frame es)
      (fun t vs => ∀ v ∈ vs, G.value t v) := by
  apply evalAll_go_plan h
  intro v hv
  simp at hv

theorem picked_plan {α : Type} {pick : Value → Option α} {fault : Value → Fault}
    (hfault : ∀ v, (fault v).sort.isRaised) (h : Ready G calls s frame (e :: es)) :
    Plan G calls s (some frame)
      (fun run => run frame e >>= fun v =>
        match pick v with
        | some a => pure a
        | none => fail (fault v))
      (fun t a => ∃ v, G.value t v ∧ pick v = some a) := by
  apply Plan.bind
  . apply h.head
  . intro t v hst hv
    cases hpick : pick v with
    | none => apply Plan.fail (.inl (hfault v))
    | some a =>
      apply Plan.pure
      intro u htu
      exact ⟨v, value_grows htu hv, hpick⟩

theorem evalOperand_plan {α : Type} {pick : Value → Option α} {operation : String}
    (h : Ready G calls s frame (e :: es)) :
    Plan G calls s (some frame) (fun run => evalOperand run pick operation frame e)
      (fun t a => ∃ v, G.value t v ∧ pick v = some a) := by
  apply picked_plan (fun _ => rfl) h

theorem evalPart_plan {α : Type} {pick : Value → Option α} {wanted : Kind} {role : String}
    (h : Ready G calls s frame (e :: es)) :
    Plan G calls s (some frame) (fun run => evalPart run pick wanted role frame e)
      (fun t a => ∃ v, G.value t v ∧ pick v = some a) := by
  apply picked_plan (fun _ => rfl) h

theorem evalCondition_plan {role : String} (h : Ready G calls s frame (e :: es)) :
    Plan G calls s (some frame) (fun run => evalCondition run role frame e)
      (fun t b => ∃ v, G.value t v ∧ Value.boolean? v = some b) := by
  unfold evalCondition
  split
  . apply Plan.fail (.inl rfl)
  . apply evalPart_plan h

theorem evalCases_plan {cases : List (Expr Value × Expr Value)}
    (h : Ready G calls s frame (Form.cond cases).parts) :
    Plan G calls s (some frame) (fun run => evalCases run frame cases) G.value := by
  induction cases generalizing s with
  | nil => exact Plan.pure fun _ _ => value_of_within trivial
  | cons c rest ih =>
    obtain ⟨predicate, result⟩ := c
    apply Plan.bind
    . apply evalCondition_plan h
    . intro t matched hst _
      cases matched with
      | true => apply (h.grows hst).tail.head
      | false => apply ih (h.grows hst).tail.tail

theorem evalLoop_plan {condition advance body : Expr Value} {fuel : Nat} {last : Value}
    (h : Ready G calls s frame [condition, advance, body]) (hlast : G.value s last) :
    Plan G calls s (some frame)
      (fun run => evalLoop run frame condition advance body fuel last) G.value := by
  induction fuel generalizing s last with
  | zero => apply Plan.exhausted
  | succ fuel ih =>
    apply Plan.bind
    . apply evalCondition_plan h
    . intro t turns hst _
      cases turns with
      | false => apply Plan.pure fun u htu => value_grows (hst.trans htu) hlast
      | true =>
        apply Plan.bind
        . apply (h.grows hst).tail.tail.head
        . intro u v htu hv
          apply Plan.bind
          . apply (h.grows (hst.trans htu)).tail.head
          . intro w _ huw _
            apply ih
            . apply h.grows ((hst.trans htu).trans huw)
            . apply value_grows huw hv

theorem define_plan {name : String} {v : Value} (hv : G.value s v) :
    Plan G calls s (some frame) (fun _ => define frame name v) (fun _ _ => True) := by
  apply Plan.bind
  . apply Plan.inspect (Q := fun _ _ => True) fun _ _ _ => trivial
  . intro t bound hst _
    cases bound with
    | true => apply Plan.fail (.inl rfl)
    | false => apply Plan.update fun u _ htu => .bind rfl (value_grows (hst.trans htu) hv)

theorem assign_plan {name : String} {v : Value} (hv : G.value s v) :
    Plan G calls s home (fun _ => assign frame name v) (fun _ _ => True) := by
  simp only [assign_eq]
  apply Plan.bind
  . apply Plan.inspect (Q := fun _ _ => True) fun _ _ _ => trivial
  . intro t target hst _
    cases target with
    | none => apply Plan.fail (.inl rfl)
    | some target => apply Plan.update fun u _ htu => .rebind (value_grows (hst.trans htu) hv)

theorem lookup_plan {name : String} :
    Plan G calls s home (fun _ => lookup frame name) G.value := by
  apply Plan.bind
  . apply Plan.inspect (Q := fun t v => ∀ a, v = some a → G.value t a)
    intro t hstore _ v hv
    apply Regime.Lawful.lookup hstore hv
  . intro t v hst hv
    cases v with
    | none => apply Plan.fail (.inl rfl)
    | some v => apply Plan.pure fun u htu => value_grows htu (hv v rfl)

theorem bindAll_plan {pairs : List (String × Value)} (hpairs : ∀ p ∈ pairs, G.value s p.2) :
    Plan G calls s (some frame) (fun _ => bindAll frame pairs) (fun _ _ => True) := by
  induction pairs generalizing s with
  | nil => apply Plan.pure fun _ _ => trivial
  | cons p rest ih =>
    obtain ⟨name, v⟩ := p
    apply Plan.bind
    . apply define_plan (hpairs (name, v) List.mem_cons_self)
    . intro t _ hst _
      apply ih
      intro p hp
      apply value_grows hst (hpairs p (List.mem_cons_of_mem _ hp))

theorem callClosure_plan {ref : Nat} {args : Array Value} (hcalls : ∀ f e, calls f e)
    (href : G.value s (.closure ref)) (hargs : ∀ v ∈ args, G.value s v) :
    Plan G calls s home (fun run => callClosure run ref args) G.value := by
  apply Plan.bind
  . apply Plan.inspect (Q := fun t c => G.frame t c.frame ∧ G.expr t c.body)
    intro t hstore hst
    apply Regime.Lawful.closure hstore (value_grows hst href)
  . intro t c hst hc
    split
    . apply Plan.fail (.inl rfl)
    . apply Plan.within hc.1
      intro u scope htu hscope
      apply Plan.bind
      . apply bindAll_plan
        intro p hp
        have hmem : p.2 ∈ args := by
          have := (List.of_mem_zip hp).2
          simpa using this
        apply value_grows (hst.trans htu) (hargs p.2 hmem)
      . intro w _ huw _
        apply Plan.call
        . apply hcalls
        . apply frame_grows huw hscope
        . apply expr_grows (htu.trans huw) hc.2

theorem evalCall_plan {ref : Nat} (hcalls : ∀ f e, calls f e) (h : Ready G calls s frame es)
    (href : G.value s (.closure ref)) :
    Plan G calls s home (fun run => evalCall run frame ref es) G.value := by
  apply Plan.within h.here
  intro t scope hst hscope
  apply Plan.bind
  . apply evalAll_plan
    exact ⟨hscope, fun e _ => hcalls scope e, (h.grows hst).exprs⟩
  . intro u args htu hargs
    apply callClosure_plan hcalls (value_grows (hst.trans htu) href) hargs

theorem present_plan {form : String} {v : Value} (hv : G.value s v) :
    Plan G calls s home (fun _ => present form v) G.value := by
  cases v with
  | absent => apply Plan.fail (.inr ⟨⟨s, hv⟩, form, rfl⟩)
  | _ => apply Plan.pure fun t hst => value_grows hst hv

theorem toValue_within (l : Literal) (t : Store) : (l.toValue t).1.Within (l.toValue t).2 := by
  cases l with
  | string content => simp [Literal.toValue, Store.addString, Value.Within]
  | _ => trivial

theorem readLiteral_plan : Plan G calls s home (fun _ => readLiteral) G.value := by
  apply Plan.bind
  . apply Plan.nextLine
  . intro t line hst _
    dsimp only
    split
    . exact Plan.pure fun _ _ => value_of_within trivial
    . split
      . next l _ =>
        apply Plan.operate
        intro m _ _
        refine ⟨?_, value_of_within (toValue_within l m.store)⟩
        cases l with
        | string content => exact .inr (.store (.addString _))
        | _ => exact .inl rfl
      . apply Plan.fail (.inl rfl)

/-! The operations on objects. -/

theorem substring_plan {ref : Nat} {start length : Int64} :
    Plan G calls s home (fun _ => substring ref start length) G.value := by
  apply Plan.bind
  . apply Plan.consult fun _ _ _ => Primitive.substring_sane _ start length
  . intros
    apply Plan.create
    . exact fun t _ _ => .addString _
    . intro t _ _
      apply value_of_within
      simp [Store.addString, Value.Within]

theorem arrayGet_plan {ref : Nat} {i : Int64} :
    Plan G calls s home (fun _ => arrayGet ref i) G.value := by
  apply Plan.bind
  . apply Plan.inspect (Q := fun t elements => ∀ v ∈ elements, G.value t v)
    intro t hstore _ v hv
    obtain ⟨k, hk⟩ := Array.mem_iff_getElem?.1 hv
    apply Regime.Lawful.element hstore hk
  . intro t elements hst helements
    apply Plan.bind
    . apply index_plan
    . intro u k htu hk
      apply Plan.pure
      intro w huw
      have hget : elements.getD k .absent ∈ elements := by
        rw [Array.getD_eq_getD_getElem?, Array.getElem?_eq_getElem hk]
        apply Array.getElem_mem hk
      apply value_grows (htu.trans huw) (helements _ hget)

theorem arraySet_plan {ref : Nat} {i : Int64} {v : Value} (hv : G.value s v) :
    Plan G calls s home (fun _ => arraySet ref i v) (fun _ _ => True) := by
  apply Plan.bind
  . apply Plan.inspect (Q := fun _ _ => True) fun _ _ _ => trivial
  . intro t size hst _
    apply Plan.bind
    . apply index_plan
    . intro u k htu _
      apply Plan.update fun w _ huw =>
        .setElement (value_grows ((hst.trans htu).trans huw) hv)

theorem getMember_plan {ref : Nat} {member : String} :
    Plan G calls s home (fun _ => getMember ref member) G.value := by
  apply Plan.consult
  intro t hstore _
  apply (Primitive.getField_sane t ref member).mono
  intro v hv
  apply Regime.Lawful.field hstore hv

theorem setMember_plan {ref : Nat} {member : String} {v : Value} (hv : G.value s v) :
    Plan G calls s home (fun _ => setMember ref member v) (fun _ _ => True) := by
  apply Plan.bind
  . apply getMember_plan
  . intro t _ hst _
    apply Plan.update fun u _ htu => .setField (value_grows (hst.trans htu) hv)

theorem closure_plan {site : Nat} {params : List String} {body : Expr Value}
    (h : Ready G calls s frame (body :: es)) :
    Plan G calls s home (fun _ => create (·.addClosure { params, body, site, frame })) G.value := by
  apply Plan.create
  . intro t _ hst
    exact .addClosure (h.grows hst).here ((h.grows hst).exprs body List.mem_cons_self)
  . intro t _ _
    apply value_of_within
    simp [Store.addClosure, Value.Within]

theorem clone_plan {v : Value} (hv : G.value s v) :
    Plan G calls s home (fun _ => clone v) G.value := by
  apply Plan.create
  . intro t _ hst
    exact .clone (value_grows hst hv)
  . intro t hstore hst
    apply Regime.Lawful.clone hstore (value_grows hst hv)

end Run

end LispScript
