import LispScript.Proofs.Footprint
import LispScript.Proofs.Isolation
import LispScript.Proofs.Preset

/-!
This module contains the proof that a binding is of no account to programs that do not mention its name.
A program may come upon closures and frames that others have made, so a run is `Blind` to a binding under
a renaming of the objects that it can come upon: if none of these mentions the name, the run comes to the
same with and without the binding. That nothing else is come upon is what `Run.Twin` says of two copies of
the run.
-/

namespace LispScript

/--
All names count but one.
-/
def Likeness.without (name : String) : Likeness where
  placed := True
  name := fun n => n != name
  bound := fun _ => True
  bound_of_name := fun _ _ => trivial
  type := fun _ => True
  type_of_nodup := fun _ _ => trivial

variable {b : Binding} {ρ : Renaming}

theorem Likeness.ne_of_name {name other : String} (h : (without other).name name) : name ≠ other := by
  simpa [without] using h

theorem Store.Alike.preset {s : Store} (h : s.Alike (.without b.name) ρ s) :
    s.Alike (.without b.name) ρ (s.preset b) where
  bounds := by
    intro k a c hac
    have hextent : (s.preset b).extent k = s.extent k := by
      cases k <;> simp [extent, Store.preset]
    rw [hextent]
    exact h.bounds hac
  unique := h.unique
  objects := by
    intro k a c hac
    have hobjects := h.objects hac
    cases k with
    | frames =>
      obtain ⟨hframe, holder, holder'⟩ := hobjects
      refine ⟨⟨?_, ?_, fun _ _ => trivial, fun _ _ => trivial⟩, holder, ?_⟩
      . rw [s.parent_frame_preset]
        exact hframe.parent
      . intro name hname
        rw [s.lookup_frame_preset (Likeness.ne_of_name hname)]
        exact hframe.lookup hname
      . unfold Frame.Older
        rw [s.parent_frame_preset]
        exact holder'
    | _ => exact hobjects

namespace Run

variable {α β : Type}

/--
If nothing that is renamed mentions the name of the binding, the run comes to the same with and without
it, and does not change it.
-/
def Blind (b : Binding) (ρ : Renaming) (r : Run α) : Prop :=
  ∀ m : Machine, m.Alike (.without b.name) ρ m → b.frame < m.store.frames.size →
    r (m.preset b) = presetResult b (r m)

/--
The run is blind to the binding, and what it comes to does not mention its name either.
-/
structure Unaware (b : Binding) (ρ : Renaming) (r : Run α) (Q : Renaming → α → α → Prop) : Prop where
  blind : Blind b ρ r
  twin : Twin (.without b.name) ρ r r Q

theorem Inert.blind {r : Run α} (h : Inert b r) : Blind b ρ r :=
  fun m _ _ => h m

theorem Unaware.bind {Q : Renaming → α → α → Prop} {x : Run α} {f : α → Run β}
    (hx : Unaware b ρ x Q) (hf : ∀ ρ' a, ρ ≤ ρ' → Q ρ' a a → Blind b ρ' (f a)) :
    Blind b ρ (x >>= f) := by
  intro m halike hframe
  have hends := hx.twin m m halike
  have hsame := hx.blind m halike hframe
  cases hm : x m with
  | ok a m' =>
    rw [hm] at hends hsame
    obtain ⟨ρ', hpassage, hQ⟩ := hends.of_ok
    have hgrows := hpassage.store.left.grows .frames
    rw [bind_ok hm, bind_ok hsame]
    exact hf ρ' a hpassage.store.le hQ m' hpassage.alike (Nat.lt_of_lt_of_le hframe hgrows)
  | error i m' =>
    rw [hm] at hsame
    rw [bind_error hm, bind_error hsame]
    rfl

theorem Unaware.bindInert {Q : Renaming → α → α → Prop} {x : Run α} {f : α → Run β}
    (hx : Unaware b ρ x Q) (hf : ∀ a, Inert b (f a)) : Blind b ρ (x >>= f) :=
  hx.bind fun _ a _ _ => (hf a).blind

namespace Blind

theorem inspect {f : Store → α}
    (hf : ∀ s, Store.Alike (.without b.name) ρ s s → f (s.preset b) = f s) :
    Blind b ρ (Run.inspect f) := by
  intro m halike _
  exact congrArg (fun a => EStateM.Result.ok a (m.preset b)) (hf m.store halike.store)

theorem consult {f : Store → Except Fault α}
    (hf : ∀ s, Store.Alike (.without b.name) ρ s s → f (s.preset b) = f s) :
    Blind b ρ (Run.consult f) := by
  intro m halike _
  show Run.ofPrimitive (f (m.store.preset b)) (m.preset b)
    = presetResult b (Run.ofPrimitive (f m.store) m)
  rw [hf _ halike.store]
  apply Inert.ofPrimitive

theorem catchBreak {r : Run Value} (hr : Blind b ρ r) : Blind b ρ (Run.catchBreak r) := by
  intro m halike hframe
  unfold Run.catchBreak
  rw [hr m halike hframe]
  generalize r m = result
  cases result with
  | ok v m' => rfl
  | error i m' => cases i <;> rfl

theorem located {r : Run α} (hr : Blind b ρ r) (context : Option Context) (location : Option Location) :
    Blind b ρ (Run.located context location r) := by
  intro m halike hframe
  unfold Run.located
  rw [hr m halike hframe]
  generalize r m = result
  cases result with
  | ok v m' => rfl
  | error i m' => cases i <;> rfl

end Blind

/--
A form that is blind to the binding when it is performed in the given frame.
-/
def BlindForm (b : Binding) (ρ : Renaming) (run : Evaluator) (frame : Nat) (form : Form Value) : Prop :=
  ∀ (fuel : Nat) (location : Option Location), Blind b ρ (Run.perform run fuel frame location form)

namespace Blind

variable {run : Evaluator} {frame : Nat}

theorem isBound_blind {name : String} (hname : (Likeness.without b.name).name name) :
    BlindForm b ρ run frame (.isBound name) := by
  intro fuel location
  apply Inert.blind
  apply Inert.bind (.inspect fun s => s.isBound_preset (Likeness.ne_of_name hname) frame)
  intro bound
  exact .pure _

theorem lambda_blind (site : Nat) (params : List String) (e : Expr Value) :
    BlindForm b ρ run frame (.lambda site params e) := by
  intro fuel location
  rw [Run.perform]
  apply Inert.blind
  exact .create fun _ => rfl

theorem recordType_blind (name : String) (members : List String) :
    BlindForm b ρ run frame (.recordType name members) := by
  intro fuel location
  apply Inert.blind
  apply Inert.bind (.ofPrimitive _)
  intro type
  exact .create fun _ => rfl

end Blind

theorem Unaware.addFrame {a : Nat} (ha : ρ .frames a a) :
    Unaware b ρ (Run.create (·.addFrame (some a))) (fun ρ' => ρ' .frames) where
  blind := by
    intro m _ hframe
    exact congrArg (fun r => EStateM.Result.ok r.1 { m with store := r.2 })
      (m.store.addFrame_preset hframe (some a))
  twin := .addFrame ha

/--
Evaluators that are blind to the binding on trees that do not mention its name.
-/
structure Evaluator.Unaware (b : Binding) (run : Evaluator) : Prop where
  blind : ∀ {ρ : Renaming} {frame : Nat} {e : Expr Value}, ρ .frames frame frame →
    e.Alike (.without b.name) ρ e → Blind b ρ (run frame e)
  twin : Evaluator.Twin (.without b.name) run run

section Parts

variable {run : Evaluator} (hrun : Evaluator.Unaware b run) {frame : Nat} {e : Expr Value}
  {es : List (Expr Value)}

include hrun

theorem Evaluator.Unaware.call (hframe : ρ .frames frame frame) (he : e.Alike (.without b.name) ρ e) :
    Run.Unaware b ρ (run frame e) Value.Alike :=
  ⟨hrun.blind hframe he, hrun.twin hframe he⟩

namespace Blind

theorem evalSequence_go (hframe : ρ .frames frame frame)
    (hes : ExprsAlike (.without b.name) ρ es es) (last : Value) :
    Blind b ρ (evalSequence.go run frame last es) := by
  induction es generalizing ρ last with
  | nil => exact (Inert.pure last).blind
  | cons e es ih =>
    cases hes with
    | cons he hes =>
      apply (hrun.call hframe he).bind
      intro ρ' v hρ _
      exact ih (hρ _ _ _ hframe) (ExprsAlike.mono hes hρ) v

theorem evalAll_go (hframe : ρ .frames frame frame) (hes : ExprsAlike (.without b.name) ρ es es)
    (vs : Array Value) : Blind b ρ (evalAll.go run frame vs es) := by
  induction es generalizing ρ vs with
  | nil => exact (Inert.pure vs).blind
  | cons e es ih =>
    cases hes with
    | cons he hes =>
      apply (hrun.call hframe he).bind
      intro ρ' v hρ _
      exact ih (hρ _ _ _ hframe) (ExprsAlike.mono hes hρ) _

end Blind

namespace Unaware

theorem evalAll (hframe : ρ .frames frame frame) (hes : ExprsAlike (.without b.name) ρ es es) :
    Unaware b ρ (Run.evalAll run frame es) (fun ρ' x y => ValuesAlike ρ' x.toList y.toList) where
  blind := Blind.evalAll_go hrun hframe hes #[]
  twin := .evalAll hrun.twin hframe hes

variable {pick : Value → Option α} {P : Renaming → α → α → Prop}
  (hpick : ∀ {ρ : Renaming} {v w : Value}, v.Alike ρ w → Option.Rel (P ρ) (pick v) (pick w))

include hpick

theorem evalOperand (operation : String) (hframe : ρ .frames frame frame)
    (he : e.Alike (.without b.name) ρ e) :
    Unaware b ρ (Run.evalOperand run pick operation frame e) P where
  blind := by
    apply (hrun.call hframe he).bindInert
    intro v
    split
    . exact .pure _
    . exact .fail _
  twin := .evalOperand hrun.twin hpick operation hframe he

theorem evalPart (wanted : Kind) (role : String) (hframe : ρ .frames frame frame)
    (he : e.Alike (.without b.name) ρ e) :
    Unaware b ρ (Run.evalPart run pick wanted role frame e) P where
  blind := by
    apply (hrun.call hframe he).bindInert
    intro v
    split
    . exact .pure _
    . exact .fail _
  twin := .evalPart hrun.twin hpick wanted role hframe he

omit hpick

theorem evalCondition (role : String) (hframe : ρ .frames frame frame)
    (he : e.Alike (.without b.name) ρ e) :
    Unaware b ρ (Run.evalCondition run role frame e) (fun _ x y => x = y) where
  blind := by
    unfold Run.evalCondition
    split
    . exact (Inert.fail _).blind
    . exact (evalPart hrun (fun h => h.boolean?) .boolean role hframe he).blind
  twin := .evalCondition hrun.twin role hframe he

theorem evalText (operation : String) (hframe : ρ .frames frame frame)
    (he : e.Alike (.without b.name) ρ e) :
    Unaware b ρ (Run.evalText run operation frame e) (fun _ _ _ => True) where
  blind := by
    apply (hrun.call hframe he).bindInert
    intro v
    cases v with
    | string r => exact .bind (.inspect fun _ => rfl) fun _ => .pure _
    | char c => exact .pure _
    | _ => exact .fail _
  twin := .evalText hrun.twin operation hframe he

end Unaware

namespace Blind

theorem evalCases {cases : List (Expr Value × Expr Value)} (hframe : ρ .frames frame frame)
    (hcases : List.Forall₂ (fun c d => c.1.Alike (.without b.name) ρ d.1 ∧
      c.2.Alike (.without b.name) ρ d.2) cases cases) :
    Blind b ρ (Run.evalCases run frame cases) := by
  induction cases generalizing ρ with
  | nil => exact (Inert.pure _).blind
  | cons c cases ih =>
    cases hcases with
    | cons hc hcases =>
      apply (Unaware.evalCondition hrun _ hframe hc.1).bind
      intro ρ' matched hρ _
      cases matched with
      | true => exact hrun.blind (hρ _ _ _ hframe) (hc.2.mono hρ)
      | false =>
        apply ih (hρ _ _ _ hframe)
        exact hcases.imp fun _ _ hd => ⟨hd.1.mono hρ, hd.2.mono hρ⟩

theorem evalLoop {condition advance body : Expr Value} (hframe : ρ .frames frame frame)
    (hcondition : condition.Alike (.without b.name) ρ condition)
    (hadvance : advance.Alike (.without b.name) ρ advance) (hbody : body.Alike (.without b.name) ρ body)
    (fuel : Nat) (last : Value) :
    Blind b ρ (Run.evalLoop run frame condition advance body fuel last) := by
  induction fuel generalizing ρ last with
  | zero => exact fun _ _ _ => rfl
  | succ fuel ih =>
    apply (Unaware.evalCondition hrun _ hframe hcondition).bind
    intro ρ₁ turns hρ₁ _
    cases turns with
    | false => exact (Inert.pure _).blind
    | true =>
      apply (hrun.call (hρ₁ _ _ _ hframe) (hbody.mono hρ₁)).bind
      intro ρ₂ v hρ₂ _
      have hρ₂' := le_trans hρ₁ hρ₂
      apply (hrun.call (hρ₂' _ _ _ hframe) (hadvance.mono hρ₂')).bind
      intro ρ₃ _ hρ₃ _
      have hρ := le_trans hρ₂' hρ₃
      exact ih (hρ _ _ _ hframe) (hcondition.mono hρ) (hadvance.mono hρ) (hbody.mono hρ) v

theorem callClosure {a : Nat} (ha : ρ .closures a a) {args : Array Value}
    (hargs : ValuesAlike ρ args.toList args.toList) : Blind b ρ (Run.callClosure run a args) := by
  have hclosure : Unaware b ρ (Run.inspect (·.closure a))
      (fun ρ' => Closure.Alike (.without b.name) ρ') :=
    ⟨(Inert.inspect fun _ => rfl).blind, .inspect fun s t halike => halike.closure ha⟩
  apply hclosure.bind
  intro ρ₁ c hρ₁ hc
  split
  . exact (Inert.fail _).blind
  . apply (Unaware.addFrame hc.frame).bind
    intro ρ₂ scope hρ₂ hscope
    have hnames : ∀ p ∈ c.params.zip args.toList, (Likeness.without b.name).name p.1 :=
      fun p hp => hc.names p.1 (List.of_mem_zip hp).1
    have hentries : EntriesAlike ρ₂ (c.params.zip args.toList) (c.params.zip args.toList) :=
      CopyingAlike.zip_entries (ValuesAlike.mono hargs (le_trans hρ₁ hρ₂))
    have hbind : Unaware b ρ₂ (Run.bindAll scope (c.params.zip args.toList)) (fun _ _ _ => True) :=
      ⟨(Inert.bindAll scope fun p hp => Likeness.ne_of_name (hnames p hp)).blind,
        .bindAll hscope hentries hnames⟩
    apply hbind.bind
    intro ρ₃ _ hρ₃ _
    exact hrun.blind (hρ₃ _ _ _ hscope) (hc.body.mono (le_trans hρ₂ hρ₃))

theorem evalCall {a : Nat} (hframe : ρ .frames frame frame) (ha : ρ .closures a a)
    (hes : ExprsAlike (.without b.name) ρ es es) : Blind b ρ (Run.evalCall run frame a es) := by
  apply (Unaware.addFrame hframe).bind
  intro ρ₁ scope hρ₁ hscope
  apply (Unaware.evalAll hrun hscope (ExprsAlike.mono hes hρ₁)).bind
  intro ρ₂ args hρ₂ hargs
  exact callClosure hrun (hρ₂ _ _ _ (hρ₁ _ _ _ ha)) hargs

/-! Forms. -/

/--
Operands are evaluated in turn, and then something is done with their values that is blind to the binding.
-/
theorem two {f : Value → Value → Run Value} {e₁ e₂ : Expr Value} (hframe : ρ .frames frame frame)
    (h₁ : e₁.Alike (.without b.name) ρ e₁) (h₂ : e₂.Alike (.without b.name) ρ e₂)
    (h : ∀ ρ' v w, ρ ≤ ρ' → v.Alike ρ' v → w.Alike ρ' w → Blind b ρ' (f v w)) :
    Blind b ρ (run frame e₁ >>= fun v => run frame e₂ >>= fun w => f v w) := by
  apply (hrun.call hframe h₁).bind
  intro ρ₁ v hρ₁ hv
  apply (hrun.call (hρ₁ _ _ _ hframe) (h₂.mono hρ₁)).bind
  intro ρ₂ w hρ₂ hw
  exact h ρ₂ v w (le_trans hρ₁ hρ₂) (hv.mono hρ₂) hw

/--
A form that works at an index of an object.
-/
theorem indexed {r : Realm} {pick : Value → Option Nat}
    (hpick : ∀ {ρ : Renaming} {v w : Value}, v.Alike ρ w → Option.Rel (ρ r) (pick v) (pick w))
    (operation : String) {f : Nat → Int64 → Run Value} {e₁ e₂ : Expr Value}
    (hframe : ρ .frames frame frame) (h₁ : e₁.Alike (.without b.name) ρ e₁)
    (h₂ : e₂.Alike (.without b.name) ρ e₂) (h : ∀ ρ' a i, ρ ≤ ρ' → Blind b ρ' (f a i)) :
    Blind b ρ (Run.evalOperand run pick operation frame e₁ >>= fun a =>
      Run.evalOperand run Value.integer? operation frame e₂ >>= fun i => f a i) := by
  apply (Unaware.evalOperand hrun hpick operation hframe h₁).bind
  intro ρ₁ a hρ₁ _
  apply (Unaware.evalOperand hrun (fun h => h.integer?) operation (hρ₁ _ _ _ hframe) (h₂.mono hρ₁)).bind
  intro ρ₂ i hρ₂ _
  exact h ρ₂ a i (le_trans hρ₁ hρ₂)

variable {name : String} {e₁ e₂ e₃ e₄ : Expr Value} (hframe : ρ .frames frame frame)

include hframe

theorem define_blind (hname : (Likeness.without b.name).name name) (he : e.Alike (.without b.name) ρ e) :
    BlindForm b ρ run frame (.define name e) := by
  intro fuel location
  apply (hrun.call hframe he).bindInert
  intro v
  exact .bind (.define (Likeness.ne_of_name hname) frame v) fun _ => .pure v

theorem assign_blind (hname : (Likeness.without b.name).name name) (he : e.Alike (.without b.name) ρ e) :
    BlindForm b ρ run frame (.assign name e) := by
  intro fuel location
  apply (hrun.call hframe he).bindInert
  intro v
  exact .bind (.assign (Likeness.ne_of_name hname) frame v) fun _ => .pure v

theorem clone_blind (he : e.Alike (.without b.name) ρ e) :
    BlindForm b ρ run frame (.clone e) := by
  intro fuel location
  apply (hrun.call hframe he).bindInert
  intro v
  exact .clone v

theorem block_blind (hes : ExprsAlike (.without b.name) ρ es es) :
    BlindForm b ρ run frame (.block es) := by
  intro fuel location
  apply (Unaware.addFrame hframe).bind
  intro ρ₁ scope hρ₁ hscope
  exact evalSequence_go hrun hscope (ExprsAlike.mono hes hρ₁) .null

theorem arith_blind (op : ArithOp) (h₁ : e₁.Alike (.without b.name) ρ e₁)
    (h₂ : e₂.Alike (.without b.name) ρ e₂) :
    BlindForm b ρ run frame (.arith op e₁ e₂) := by
  intro fuel location
  apply two hrun hframe h₁ h₂
  intro ρ' v w _ _ _
  exact (Inert.ofPrimitive _).blind

theorem compare_blind (op : CompareOp) (h₁ : e₁.Alike (.without b.name) ρ e₁)
    (h₂ : e₂.Alike (.without b.name) ρ e₂) :
    BlindForm b ρ run frame (.compare op e₁ e₂) := by
  intro fuel location
  apply two hrun hframe h₁ h₂
  intro ρ' v w _ hv hw
  apply consult
  intro s halike
  exact (halike.preset.compare _ hv hw).symm

theorem logic_blind (op : LogicOp) (h₁ : e₁.Alike (.without b.name) ρ e₁)
    (h₂ : e₂.Alike (.without b.name) ρ e₂) :
    BlindForm b ρ run frame (.logic op e₁ e₂) := by
  intro fuel location
  apply two hrun hframe h₁ h₂
  intro ρ' v w _ _ _
  exact (Inert.ofPrimitive _).blind

theorem negate_blind (he : e.Alike (.without b.name) ρ e) :
    BlindForm b ρ run frame (.negate e) := by
  intro fuel location
  apply (Unaware.evalOperand hrun (fun h => h.boolean?) _ hframe he).bindInert
  intro x
  exact .pure _

theorem branch_blind (h₁ : e₁.Alike (.without b.name) ρ e₁) (h₂ : e₂.Alike (.without b.name) ρ e₂)
    (h₃ : e₃.Alike (.without b.name) ρ e₃) :
    BlindForm b ρ run frame (.branch e₁ e₂ e₃) := by
  intro fuel location
  apply (Unaware.addFrame hframe).bind
  intro ρ₁ scope hρ₁ hscope
  apply (Unaware.evalCondition hrun _ hscope (h₁.mono hρ₁)).bind
  intro ρ₂ x hρ₂ _
  have hscope := hρ₂ _ _ _ hscope
  have hρ := le_trans hρ₁ hρ₂
  cases x with
  | true => exact hrun.blind hscope (h₂.mono hρ)
  | false => exact hrun.blind hscope (h₃.mono hρ)

theorem loop_blind (h₁ : e₁.Alike (.without b.name) ρ e₁) (h₂ : e₂.Alike (.without b.name) ρ e₂)
    (h₃ : e₃.Alike (.without b.name) ρ e₃) (h₄ : e₄.Alike (.without b.name) ρ e₄) :
    BlindForm b ρ run frame (.loop e₁ e₂ e₃ e₄) := by
  intro fuel location
  apply (Unaware.addFrame hframe).bind
  intro ρ₁ scope hρ₁ hscope
  apply catchBreak
  apply (hrun.call hscope (h₁.mono hρ₁)).bind
  intro ρ₂ _ hρ₂ _
  have hρ := le_trans hρ₁ hρ₂
  exact evalLoop hrun (hρ₂ _ _ _ hscope) (h₂.mono hρ) (h₃.mono hρ) (h₄.mono hρ) fuel .null

theorem apply_blind (he : e.Alike (.without b.name) ρ e) (hes : ExprsAlike (.without b.name) ρ es es) :
    BlindForm b ρ run frame (.apply e es) := by
  intro fuel location
  apply (Unaware.evalPart hrun (fun h => h.closure?) _ _ hframe he).bind
  intro ρ₁ a hρ₁ ha
  exact evalCall hrun (hρ₁ _ _ _ hframe) ha (ExprsAlike.mono hes hρ₁)

theorem call_blind (hname : (Likeness.without b.name).name name)
    (hes : ExprsAlike (.without b.name) ρ es es) :
    BlindForm b ρ run frame (.call name es) := by
  intro fuel location
  have hlookup : Unaware b ρ (Run.lookup frame _) Value.Alike :=
    ⟨(Inert.lookup (Likeness.ne_of_name hname) frame).blind, .lookup hframe hname⟩
  apply hlookup.bind
  intro ρ₁ v hρ₁ hv
  cases hv with
  | closure ha => exact evalCall hrun (hρ₁ _ _ _ hframe) ha (ExprsAlike.mono hes hρ₁)
  | _ => exact (Inert.fail _).blind

theorem isType_blind (type : TypeName) (he : e.Alike (.without b.name) ρ e) :
    BlindForm b ρ run frame (.isType e type) := by
  intro fuel location
  simp only [Run.perform]
  split
  . exact (Inert.pure _).blind
  . apply (hrun.call hframe he).bindInert
    intro v
    exact .pure _

theorem print_blind (newline : Bool) (he : e.Alike (.without b.name) ρ e) :
    BlindForm b ρ run frame (.print e newline) := by
  intro fuel location
  simp only [Run.perform]
  split
  . exact (Inert.bind (.print _) fun _ => .pure _).blind
  . apply (hrun.call hframe he).bind
    intro ρ₁ v _ hv
    have htext : Unaware b ρ₁ (Run.inspect fun s => v.text s) (fun _ x y => x = y) :=
      ⟨.inspect fun s halike => (halike.preset.text hv).symm,
        .inspect fun s t halike => halike.text hv⟩
    apply htext.bindInert
    intro text
    exact .bind (.print _) fun _ => .pure v

theorem isTypeNamed_blind (name : String) (he : e.Alike (.without b.name) ρ e) :
    BlindForm b ρ run frame (.isTypeNamed e name) := by
  intro fuel location
  simp only [Run.perform]
  split
  . exact (Inert.pure _).blind
  . apply (hrun.call hframe he).bindInert
    intro v
    cases v with
    | recordType r => exact .bind (.inspect fun _ => rfl) fun _ => .pure _
    | _ => exact .pure _

theorem makeRecord_blind (he : e.Alike (.without b.name) ρ e) :
    BlindForm b ρ run frame (.makeRecord e) := by
  intro fuel location
  apply (Unaware.evalPart hrun (fun h => h.recordType?) _ _ hframe he).bindInert
  intro a
  exact .create fun _ => rfl

theorem isRecordOf_blind (h₁ : e₁.Alike (.without b.name) ρ e₁) (h₂ : e₂.Alike (.without b.name) ρ e₂) :
    BlindForm b ρ run frame (.isRecordOf e₁ e₂) := by
  intro fuel location
  simp only [Run.perform]
  split
  . exact (Inert.pure _).blind
  . apply two hrun hframe h₁ h₂
    intro ρ' v w _ _ _
    apply Inert.blind
    split
    . exact .bind (.inspect fun _ => rfl) fun _ => .pure _
    . exact .pure _

theorem getMember_blind (member : String) (he : e.Alike (.without b.name) ρ e) :
    BlindForm b ρ run frame (.getMember e member) := by
  intro fuel location
  apply (Unaware.evalPart hrun (fun h => h.record?) _ _ hframe he).bindInert
  intro a
  exact .bind (.getMember a _) fun v => .present _ v

theorem setMember_blind (member : String) (h₁ : e₁.Alike (.without b.name) ρ e₁)
    (h₂ : e₂.Alike (.without b.name) ρ e₂) :
    BlindForm b ρ run frame (.setMember e₁ member e₂) := by
  intro fuel location
  apply (Unaware.evalPart hrun (fun h => h.record?) _ _ hframe h₁).bind
  intro ρ₁ a hρ₁ _
  apply (hrun.call (hρ₁ _ _ _ hframe) (h₂.mono hρ₁)).bindInert
  intro v
  exact .bind (.setMember a _ v) fun _ => .pure v

theorem stringLength_blind (he : e.Alike (.without b.name) ρ e) :
    BlindForm b ρ run frame (.stringLength e) := by
  intro fuel location
  apply (Unaware.evalOperand hrun (fun h => h.string?) _ hframe he).bindInert
  intro a
  exact .bind (.stringLength a) fun _ => .pure _

theorem charAt_blind (h₁ : e₁.Alike (.without b.name) ρ e₁) (h₂ : e₂.Alike (.without b.name) ρ e₂) :
    BlindForm b ρ run frame (.charAt e₁ e₂) := by
  intro fuel location
  apply indexed hrun (fun h => h.string?) _ hframe h₁ h₂
  intro ρ₁ a i _
  exact (Inert.bind (.charAt a i) fun _ => .pure _).blind

theorem setCharAt_blind (h₁ : e₁.Alike (.without b.name) ρ e₁) (h₂ : e₂.Alike (.without b.name) ρ e₂)
    (h₃ : e₃.Alike (.without b.name) ρ e₃) :
    BlindForm b ρ run frame (.setCharAt e₁ e₂ e₃) := by
  intro fuel location
  apply indexed hrun (fun h => h.string?) _ hframe h₁ h₂
  intro ρ₁ a i hρ₁
  apply (Unaware.evalOperand hrun (fun h => h.char?) _ (hρ₁ _ _ _ hframe) (h₃.mono hρ₁)).bindInert
  intro c
  exact .bind (.setCharAt a i c) fun _ => .pure _

theorem concat_blind (h₁ : e₁.Alike (.without b.name) ρ e₁) (h₂ : e₂.Alike (.without b.name) ρ e₂) :
    BlindForm b ρ run frame (.concat e₁ e₂) := by
  intro fuel location
  apply (Unaware.evalOperand hrun (fun h => h.string?) _ hframe h₁).bind
  intro ρ₁ a hρ₁ _
  apply (Unaware.evalText hrun _ (hρ₁ _ _ _ hframe) (h₂.mono hρ₁)).bindInert
  intro x
  exact .bind (.chars x) fun suffix => .bind (.appendChars a suffix) fun _ => .pure _

theorem substring_blind (h₁ : e₁.Alike (.without b.name) ρ e₁) (h₂ : e₂.Alike (.without b.name) ρ e₂)
    (h₃ : e₃.Alike (.without b.name) ρ e₃) :
    BlindForm b ρ run frame (.substring e₁ e₂ e₃) := by
  intro fuel location
  apply indexed hrun (fun h => h.string?) _ hframe h₁ h₂
  intro ρ₁ a start hρ₁
  apply (Unaware.evalOperand hrun (fun h => h.integer?) _ (hρ₁ _ _ _ hframe) (h₃.mono hρ₁)).bindInert
  intro length
  exact .substring a start length

theorem find_blind (h₁ : e₁.Alike (.without b.name) ρ e₁) (h₂ : e₂.Alike (.without b.name) ρ e₂)
    (h₃ : e₃.Alike (.without b.name) ρ e₃) :
    BlindForm b ρ run frame (.find e₁ e₂ e₃) := by
  intro fuel location
  apply (Unaware.evalOperand hrun (fun h => h.string?) _ hframe h₁).bind
  intro ρ₁ a hρ₁ _
  apply (Unaware.evalText hrun _ (hρ₁ _ _ _ hframe) (h₂.mono hρ₁)).bind
  intro ρ₂ x hρ₂ _
  have hρ := le_trans hρ₁ hρ₂
  have hfind (start : Int64) : Inert b (do return Value.integer (← Run.find a x start)) :=
    .bind (.find a x start) fun _ => .pure _
  dsimp only
  split
  . exact (hfind 0).blind
  . exact (Unaware.evalOperand hrun (fun h => h.integer?) _ (hρ _ _ _ hframe)
      (h₃.mono hρ)).bindInert hfind

theorem arrayOf_blind (hes : ExprsAlike (.without b.name) ρ es es) :
    BlindForm b ρ run frame (.arrayOf es) := by
  intro fuel location
  apply (Unaware.evalAll hrun hframe hes).bindInert
  intro vs
  exact .create fun _ => rfl

theorem makeArray_blind (h₁ : e₁.Alike (.without b.name) ρ e₁) (h₂ : e₂.Alike (.without b.name) ρ e₂) :
    BlindForm b ρ run frame (.makeArray e₁ e₂) := by
  intro fuel location
  apply (Unaware.evalOperand hrun (fun h => h.integer?) _ hframe h₁).bind
  intro ρ₁ n hρ₁ _
  cases Primitive.arraySize n with
  | error fault => exact (Inert.fail _).blind
  | ok size =>
    apply (hrun.call (hρ₁ _ _ _ hframe) (h₂.mono hρ₁)).bindInert
    intro v
    exact .create fun _ => rfl

theorem arrayLength_blind (he : e.Alike (.without b.name) ρ e) :
    BlindForm b ρ run frame (.arrayLength e) := by
  intro fuel location
  apply (Unaware.evalOperand hrun (fun h => h.array?) _ hframe he).bindInert
  intro a
  exact .bind (.arrayLength a) fun _ => .pure _

theorem arrayGet_blind (h₁ : e₁.Alike (.without b.name) ρ e₁) (h₂ : e₂.Alike (.without b.name) ρ e₂) :
    BlindForm b ρ run frame (.arrayGet e₁ e₂) := by
  intro fuel location
  apply indexed hrun (fun h => h.array?) _ hframe h₁ h₂
  intro ρ₁ a i _
  exact (Inert.bind (.arrayGet a i) fun v => .present _ v).blind

theorem arraySet_blind (h₁ : e₁.Alike (.without b.name) ρ e₁) (h₂ : e₂.Alike (.without b.name) ρ e₂)
    (h₃ : e₃.Alike (.without b.name) ρ e₃) :
    BlindForm b ρ run frame (.arraySet e₁ e₂ e₃) := by
  intro fuel location
  apply indexed hrun (fun h => h.array?) _ hframe h₁ h₂
  intro ρ₁ a i hρ₁
  apply (hrun.call (hρ₁ _ _ _ hframe) (h₃.mono hρ₁)).bindInert
  intro v
  exact .bind (.arraySet a i v) fun _ => .pure v

theorem arrayAdd_blind (h₁ : e₁.Alike (.without b.name) ρ e₁) (h₂ : e₂.Alike (.without b.name) ρ e₂) :
    BlindForm b ρ run frame (.arrayAdd e₁ e₂) := by
  intro fuel location
  apply (Unaware.evalOperand hrun (fun h => h.array?) _ hframe h₁).bind
  intro ρ₁ a hρ₁ _
  apply (hrun.call (hρ₁ _ _ _ hframe) (h₂.mono hρ₁)).bindInert
  intro v
  exact .bind (.arrayAdd a v) fun _ => .pure _

theorem perform (fuel : Nat) (location : Option Location) {form : Form Value}
    (h : form.Alike (.without b.name) ρ (Expr.Alike (.without b.name) ρ) form) :
    Blind b ρ (Run.perform run fuel frame location form) := by
  cases h with
  | literal h => exact (Inert.pure _).blind
  | symbol hname => exact (Inert.lookup (Likeness.ne_of_name hname) frame).blind
  | define hname he | function hname he => exact define_blind hrun hframe hname he fuel location
  | assign hname he => exact assign_blind hrun hframe hname he fuel location
  | isBound hname => exact isBound_blind hname fuel location
  | clone he => exact clone_blind hrun hframe he fuel location
  | sequence hes => exact evalSequence_go hrun hframe hes .null
  | block hes => exact block_blind hrun hframe hes fuel location
  | arith ha hb => exact arith_blind hrun hframe _ ha hb fuel location
  | compare ha hb => exact compare_blind hrun hframe _ ha hb fuel location
  | logic ha hb => exact logic_blind hrun hframe _ ha hb fuel location
  | negate he => exact negate_blind hrun hframe he fuel location
  | branch ha hb hc => exact branch_blind hrun hframe ha hb hc fuel location
  | cond hcases => exact evalCases hrun hframe hcases
  | loop ha hb hc hd => exact loop_blind hrun hframe ha hb hc hd fuel location
  | breakLoop => exact fun _ _ _ => rfl
  | lambda => exact lambda_blind _ _ _ fuel location
  | apply he hes => exact apply_blind hrun hframe he hes fuel location
  | call hname hes => exact call_blind hrun hframe hname hes fuel location
  | isType he => exact isType_blind hrun hframe _ he fuel location
  | print he => exact print_blind hrun hframe _ he fuel location
  | read => exact Inert.readLiteral.blind
  | recordType => exact recordType_blind _ _ fuel location
  | isTypeNamed he => exact isTypeNamed_blind hrun hframe _ he fuel location
  | makeRecord he => exact makeRecord_blind hrun hframe he fuel location
  | isRecordOf ha hb => exact isRecordOf_blind hrun hframe ha hb fuel location
  | getMember he => exact getMember_blind hrun hframe _ he fuel location
  | setMember ha hb => exact setMember_blind hrun hframe _ ha hb fuel location
  | stringLength he => exact stringLength_blind hrun hframe he fuel location
  | charAt ha hb => exact charAt_blind hrun hframe ha hb fuel location
  | setCharAt ha hb hc => exact setCharAt_blind hrun hframe ha hb hc fuel location
  | concat ha hb => exact concat_blind hrun hframe ha hb fuel location
  | substring ha hb hc => exact substring_blind hrun hframe ha hb hc fuel location
  | find ha hb hc => exact find_blind hrun hframe ha hb hc fuel location
  | arrayOf hes => exact arrayOf_blind hrun hframe hes fuel location
  | makeArray ha hb => exact makeArray_blind hrun hframe ha hb fuel location
  | arrayLength he => exact arrayLength_blind hrun hframe he fuel location
  | arrayGet ha hb => exact arrayGet_blind hrun hframe ha hb fuel location
  | arraySet ha hb hc => exact arraySet_blind hrun hframe ha hb hc fuel location
  | arrayAdd ha hb => exact arrayAdd_blind hrun hframe ha hb fuel location

end Blind

end Parts

end Run

theorem eval_unaware (b : Binding) (context : Option Context) (fuel : Nat) :
    Run.Evaluator.Unaware b (eval context fuel) where
  twin := eval_twin (fun _ => rfl) fuel
  blind := by
    induction fuel with
    | zero =>
      intro ρ frame e _ _
      cases e with
      | absent => exact (Run.Inert.pure _).blind
      | node location form => exact fun _ _ _ => rfl
    | succ fuel ih =>
      intro ρ frame e hframe he
      cases e with
      | absent => exact (Run.Inert.pure _).blind
      | node location form =>
        have hrun : Run.Evaluator.Unaware b (eval context fuel) := ⟨ih, eval_twin (fun _ => rfl) fuel⟩
        exact (Run.Blind.perform hrun hframe fuel location he.form.2).located context location

/-! Evaluations at top level. -/

theorem Machine.evaluate_preset {context : Option Context} {frame : Nat} {e : Expr Value} {m : Machine}
    (hframe : ρ .frames frame frame) (he : e.Alike (.without b.name) ρ e)
    (halike : m.Alike (.without b.name) ρ m) (hb : b.frame < m.store.frames.size) :
    (m.preset b).evaluate context frame e
      = ((m.evaluate context frame e).1, (m.evaluate context frame e).2.preset b) := by
  unfold evaluate run Run.refuseBreak
  rw [(eval_unaware b context unbounded).blind hframe he m halike hb]
  generalize eval context unbounded frame e m = result
  cases result with
  | ok v m' => rfl
  | error i m' => cases i <;> rfl

theorem Expr.loadAll_preset (es : List (Expr Literal)) (s : Store) :
    loadAll es (s.preset b) = ((loadAll es s).1, (loadAll es s).2.preset b) := by
  have hadopt := loadAll_adopt es (s.preset b) s
  rw [loadAll_store es s]
  exact hadopt

namespace Job

variable {files : Files}

theorem evalForms_go_preset {context : Context} (hroot : ρ .frames b.frame b.frame)
    {forms : List (Expr Value)} (hforms : Run.ExprsAlike (.without b.name) ρ forms forms) (last : Value)
    {w w' : Workspace} (halike : w.machine.Alike (.without b.name) ρ w.machine)
    (hw : w'.machine = w.machine.preset b) :
    ((evalForms.go context b.frame last forms).result files w').1
        = ((evalForms.go context b.frame last forms).result files w).1 ∧
      ((evalForms.go context b.frame last forms).result files w').2.machine
        = ((evalForms.go context b.frame last forms).result files w).2.machine.preset b := by
  induction forms generalizing ρ last w w' with
  | nil => exact ⟨rfl, hw⟩
  | cons e forms ih =>
    cases hforms with
    | cons he hforms =>
      have hevaluate : w'.machine.evaluate context b.frame e
          = ((w.machine.evaluate context b.frame e).1,
            (w.machine.evaluate context b.frame e).2.preset b) := by
        rw [hw]
        exact Machine.evaluate_preset hroot he halike (halike.store.bounds hroot).1
      obtain ⟨ρ₁, hpassage, _⟩ := Machine.evaluate_twin (fun _ => rfl) hroot he halike
      cases hr : (w.machine.evaluate context b.frame e).1 with
      | error f =>
        have hr' : (w'.machine.evaluate context b.frame e).1 = .error f := by rw [hevaluate, hr]
        rw [evalForms_go_error hr, evalForms_go_error hr', hevaluate]
        exact ⟨rfl, rfl⟩
      | ok v =>
        have hr' : (w'.machine.evaluate context b.frame e).1 = .ok v := by rw [hevaluate, hr]
        obtain ⟨w₁, hw₁, hrest⟩ := evalForms_go_ok hr
        obtain ⟨w₁', hw₁', hrest'⟩ := evalForms_go_ok hr'
        rw [hrest, hrest']
        have hle := hpassage.store.le
        apply ih (hle _ _ _ hroot) (Run.ExprsAlike.mono hforms hle)
        . rw [hw₁]
          exact hpassage.alike
        . rw [hw₁', hw₁, hevaluate]

theorem evalSource_preset {file : String} {source : Text}
    (hforms : ∀ forms, Expr.parse file source.chars = .ok forms →
      ∀ e ∈ forms, e.Mentions (.without b.name))
    (hroot : ρ .frames b.frame b.frame) {w w' : Workspace}
    (halike : w.machine.Alike (.without b.name) ρ w.machine) (hw : w'.machine = w.machine.preset b) :
    ((evalSource b.frame file source).result files w').1
        = ((evalSource b.frame file source).result files w).1 ∧
      ((evalSource b.frame file source).result files w').2.machine
        = ((evalSource b.frame file source).result files w).2.machine.preset b := by
  cases hparse : Expr.parse file source.chars with
  | error e =>
    rw [evalSource_error hparse, evalSource_error hparse]
    exact ⟨rfl, hw⟩
  | ok forms =>
    obtain ⟨ρ₁, hpassage, hexprs⟩ := loaded_twin (hforms forms hparse) halike
    have hload : Expr.loadAll forms w'.machine.store = ((Expr.loadAll forms w.machine.store).1,
        (Expr.loadAll forms w.machine.store).2.preset b) := by
      rw [hw]
      exact Expr.loadAll_preset forms w.machine.store
    have hloaded : (loaded w' forms).machine = (loaded w forms).machine.preset b := by
      unfold loaded
      rw [hload, hw]
      rfl
    rw [evalSource_ok hparse, evalSource_ok hparse, hload]
    exact evalForms_go_preset (hpassage.store.le _ _ _ hroot) hexprs .null hpassage.alike hloaded

end Job

/--
The reply, with the binding in the store.
-/
def Reply.preset (r : Reply) (b : Binding) : Reply :=
  { r with store := r.store.preset b }

/--
Two desks that differ in the binding only.
-/
structure Desk.Presets (b : Binding) (ρ : Renaming) (d d' : Desk) : Prop where
  alike : d.workspace.machine.store.Alike (.without b.name) ρ d.workspace.machine.store
  root : ρ .frames b.frame b.frame
  store : d'.workspace.machine.store = d.workspace.machine.store.preset b
  streams : d'.streams = d.streams

/--
No form of the source text mentions the name.
-/
def Call.Omits (c : Call) (name : String) : Prop :=
  ∀ forms, Expr.parse c.file c.source.chars = .ok forms →
    ∀ e ∈ forms, e.Every fun _ form => name ∉ form.names

theorem Call.Omits.mentions {c : Call} {name : String} (h : c.Omits name) {forms : List (Expr Literal)}
    (hparse : Expr.parse c.file c.source.chars = .ok forms) :
    ∀ e ∈ forms, e.Mentions (.without name) := by
  intro e he
  apply (h forms hparse e he).mono
  intro location form hname other hother
  simp only [Likeness.without, bne_iff_ne]
  rintro rfl
  exact hname hother

namespace Desk.Presets

variable (files : Files) {d d' : Desk}

theorem perform (h : Presets b ρ d d') {c : Call} (hc : c.Omits b.name) :
    (c.perform files (fun _ => b.frame) d').1
        = (c.perform files (fun _ => b.frame) d).1.preset b ∧
      ∃ ρ', Presets b ρ' (c.perform files (fun _ => b.frame) d).2
        (c.perform files (fun _ => b.frame) d').2 := by
  obtain ⟨halike, hroot, hstore, hstreams⟩ := h
  obtain ⟨w', streams'⟩ := d'
  obtain rfl : streams' = d.streams := hstreams
  dsimp only at hstore
  have hstart : (d.workspace.attach (c.streams.getD (d.streams c.side))).machine.Alike
      (.without b.name) ρ (d.workspace.attach (c.streams.getD (d.streams c.side))).machine :=
    ⟨halike, rfl, rfl, rfl⟩
  have hattach : (w'.attach (c.streams.getD (d.streams c.side))).machine
      = (d.workspace.attach (c.streams.getD (d.streams c.side))).machine.preset b := by
    simp only [Workspace.attach, Machine.preset, hstore]
  obtain ⟨houtcome, hmachine⟩ :=
    @Job.evalSource_preset b ρ files _ _ (fun _ => hc.mentions) hroot _ _ hstart hattach
  obtain ⟨ρ', hpassage, _⟩ :=
    @Job.evalSource_twin _ ρ files files _ _ _ _ (fun _ => hc.mentions) hroot _ _ hstart
  constructor
  . simp only [Call.perform, houtcome, hmachine]
    rfl
  . refine ⟨ρ', hpassage.alike.store, hpassage.store.le _ _ _ hroot, ?_, ?_⟩
    . exact congrArg Machine.store hmachine
    . simp only [Call.perform, hmachine]
      rfl

theorem performAll (h : Presets b ρ d d') {calls : List Call} (hcalls : ∀ c ∈ calls, c.Omits b.name) :
    Call.performAll files (fun _ => b.frame) calls d'
      = (Call.performAll files (fun _ => b.frame) calls d).map (·.preset b) := by
  induction calls generalizing ρ d d' with
  | nil => rfl
  | cons c rest ih =>
    obtain ⟨hc, hrest⟩ := List.forall_mem_cons.1 hcalls
    obtain ⟨hreply, ρ', hnext⟩ := h.perform files hc
    simp only [Call.performAll, List.map_cons]
    rw [hreply, ih hnext hrest]

end Desk.Presets

/--
Source texts are evaluated in turn in a new environment, first as it is and then with a name bound to any
value beforehand. If no text mentions the name, then each call has the same outcome, prints the same and
leaves the same input; the stores differ in nothing but that the one has the binding.
-/
theorem binding_unnoticed (files : Files) (w : Workspace)
    (streams : Bool → Streams) (name : String) (v : Value) (calls : List Call)
    (hcalls : ∀ c ∈ calls, c.Omits name) :
    let opened := Job.newRoot.result files w
    let store := opened.2.machine.store.bind opened.1 name v
    let bound : Workspace := { opened.2 with machine := { opened.2.machine with store } }
    Call.performAll files (fun _ => opened.1) calls ⟨bound, streams⟩
      = (Call.performAll files (fun _ => opened.1) calls ⟨opened.2, streams⟩).map
        (·.preset { frame := opened.1, name, value := v.orNull }) := by
  intro opened store bound
  have hadds := w.machine.store.addFrame_adds none
  have hframe : opened.2.machine.store.frame opened.1 = { parent := none } :=
    w.machine.store.frame_addFrame none
  have hpresets : Desk.Presets { frame := opened.1, name, value := v.orNull } (.single opened.1 opened.1)
      ⟨opened.2, streams⟩ ⟨bound, streams⟩ := by
    refine ⟨Store.alike_single hadds.lt hadds.lt hframe hframe, ⟨rfl, rfl, rfl⟩, ?_, rfl⟩
    apply Store.bind_eq_preset
    rw [hframe]
  exact hpresets.performAll files hcalls

theorem binding_unnoticed_define :
    let call : Call :=
      { side := true, file := "a", source := .ofChars ['(', 'v', 'a', 'r', ' ', 'y', ' ', '2', ')'],
        streams := none }
    let streams : Bool → Streams := fun _ => { output := "", input := [], muted := false }
    let opened := Job.newRoot.result Files.none {}
    let store := opened.2.machine.store.bind opened.1 "x" (.integer 1)
    let bound : Workspace := { opened.2 with machine := { opened.2.machine with store } }
    call.Omits "x" ∧
      Call.performAll Files.none (fun _ => opened.1) [call] ⟨bound, streams⟩
        = (Call.performAll Files.none (fun _ => opened.1) [call] ⟨opened.2, streams⟩).map
          (·.preset { frame := opened.1, name := "x", value := .integer 1 }) := by
  intro call streams opened store bound
  have hparse : Expr.parse "a" (Text.ofChars ['(', 'v', 'a', 'r', ' ', 'y', ' ', '2', ')']).chars
      = .ok [.node (some ⟨"a", 1, 1, 9⟩) (.define "y"
        (.node (some ⟨"a", 1, 8, 1⟩) (.literal (.integer 2))))] := by rfl
  have homits : call.Omits "x" := by
    intro forms hforms
    obtain rfl := Except.ok.inj (hparse.symm.trans hforms)
    rw [List.forall_mem_singleton]
    apply Expr.Every.node (by decide)
    simp only [Form.parts, List.forall_mem_singleton]
    exact .node (by decide) nofun
  have h := binding_unnoticed Files.none {} streams "x" (.integer 1) [call]
    (by simpa using homits)
  exact ⟨homits, h⟩

end LispScript
