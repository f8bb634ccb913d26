import LispScript.Proofs.TwinOperation

/-!
This module contains the proof that trees that are alike are evaluated alike: each form does the same on
both sides, provided that evaluators do so on its parts. By induction on the fuel, two evaluations go
side by side to their end.
-/

namespace LispScript

variable {L : Likeness} {ρ ρ' : Renaming}

/-! What is taken from operands. -/

namespace Value.Alike

variable {v w : Value} (h : v.Alike ρ w)

include h

theorem integer? : Option.Rel Eq v.integer? w.integer? := by
  cases h <;> constructor
  rfl

theorem boolean? : Option.Rel Eq v.boolean? w.boolean? := by
  cases h <;> constructor
  rfl

theorem char? : Option.Rel Eq v.char? w.char? := by
  cases h <;> constructor
  rfl

theorem string? : Option.Rel (ρ .strings) v.string? w.string? := by
  cases h <;> constructor
  assumption

theorem array? : Option.Rel (ρ .arrays) v.array? w.array? := by
  cases h <;> constructor
  assumption

theorem recordType? : Option.Rel (ρ .recordTypes) v.recordType? w.recordType? := by
  cases h <;> constructor
  assumption

theorem record? : Option.Rel (ρ .records) v.record? w.record? := by
  cases h <;> constructor
  assumption

theorem closure? : Option.Rel (ρ .closures) v.closure? w.closure? := by
  cases h <;> constructor
  assumption

end Value.Alike

theorem Value.alike_of_within {v : Value} (h : v.Within {}) : v.Alike ρ v := by
  cases v with
  | string r | array r | recordType r | record r | closure r => exact absurd h (Nat.not_lt_zero r)
  | _ => constructor

theorem Primitive.arith_eq {v v' w w' : Value} (hv : v.Alike ρ v') (hw : w.Alike ρ w') (op : ArithOp) :
    arith op v w = arith op v' w' := by
  cases hv <;> cases hw <;> rfl

theorem Primitive.logic_eq {v v' w w' : Value} (hv : v.Alike ρ v') (hw : w.Alike ρ w') (op : LogicOp) :
    logic op v w = logic op v' w' := by
  cases hv <;> cases hw <;> rfl

theorem Primitive.repeated?_none {earlier members : List String}
    (h : repeated? earlier members = none) : members.Nodup ∧ ∀ m ∈ members, m ∉ earlier := by
  induction members generalizing earlier with
  | nil => simp
  | cons m members ih =>
    rw [repeated?] at h
    split at h
    . contradiction
    . next hm =>
      obtain ⟨hnodup, hrest⟩ := ih h
      constructor
      . apply List.nodup_cons.2 ⟨_, hnodup⟩
        intro hmem
        exact hrest m hmem List.mem_cons_self
      . intro m' hm' hearlier
        cases List.mem_cons.1 hm' with
        | inl heq => exact hm (heq ▸ hearlier)
        | inr hm' => exact hrest m' hm' (List.mem_cons_of_mem m hearlier)

theorem Primitive.recordType_nodup (name : String) (members : List String) :
    Sane (fun type => type.members.Nodup) (recordType name members) := by
  unfold recordType
  split
  . rfl
  . next h => exact (repeated?_none h).1

namespace Run

/--
Evaluators that do the same on trees that are alike.
-/
def Evaluator.Twin (L : Likeness) (run run' : Evaluator) : Prop :=
  ∀ {ρ : Renaming} {frame frame' : Nat} {e e' : Expr Value}, ρ .frames frame frame' → e.Alike L ρ e' →
    Run.Twin L ρ (run frame e) (run' frame' e') Value.Alike

abbrev ExprsAlike (L : Likeness) (ρ : Renaming) : List (Expr Value) → List (Expr Value) → Prop :=
  List.Forall₂ (Expr.Alike L ρ)

theorem ExprsAlike.mono {es es' : List (Expr Value)} (h : ExprsAlike L ρ es es') (hρ : ρ ≤ ρ') :
    ExprsAlike L ρ' es es' :=
  h.imp fun _ _ he => he.mono hρ

namespace Twin

variable {run run' : Evaluator} (hrun : Evaluator.Twin L run run') {frame frame' : Nat}
  {e e' : Expr Value} {es es' : List (Expr Value)}

/-! Parts. -/

section

include hrun

theorem evalSequence_go {last last' : Value} (hframe : ρ .frames frame frame')
    (hes : ExprsAlike L ρ es es') (hlast : last.Alike ρ last') :
    Twin L ρ (Run.evalSequence.go run frame last es) (Run.evalSequence.go run' frame' last' es')
      Value.Alike := by
  induction es generalizing ρ es' last last' with
  | nil =>
    cases hes
    exact .pure hlast
  | cons e es ih =>
    cases hes with
    | cons he hes =>
      apply bind (hrun hframe he)
      intro ρ' v w hρ hvw
      exact ih (hρ _ _ _ hframe) (ExprsAlike.mono hes hρ) hvw

theorem evalSequence (hframe : ρ .frames frame frame') (hes : ExprsAlike L ρ es es') :
    Twin L ρ (Run.evalSequence run frame es) (Run.evalSequence run' frame' es') Value.Alike :=
  evalSequence_go hrun hframe hes .null

theorem evalAll_go {vs ws : Array Value} (hframe : ρ .frames frame frame')
    (hes : ExprsAlike L ρ es es') (hvs : ValuesAlike ρ vs.toList ws.toList) :
    Twin L ρ (Run.evalAll.go run frame vs es) (Run.evalAll.go run' frame' ws es')
      (fun ρ' x y => ValuesAlike ρ' x.toList y.toList) := by
  induction es generalizing ρ es' vs ws with
  | nil =>
    cases hes
    exact .pure hvs
  | cons e es ih =>
    cases hes with
    | cons he hes =>
      apply bind (hrun hframe he)
      intro ρ' v w hρ hvw
      apply ih (hρ _ _ _ hframe) (ExprsAlike.mono hes hρ)
      simp only [Array.toList_push]
      exact List.rel_append (ValuesAlike.mono hvs hρ) (.cons hvw .nil)

theorem evalAll (hframe : ρ .frames frame frame') (hes : ExprsAlike L ρ es es') :
    Twin L ρ (Run.evalAll run frame es) (Run.evalAll run' frame' es')
      (fun ρ' x y => ValuesAlike ρ' x.toList y.toList) :=
  evalAll_go hrun hframe hes .nil

theorem evalOperand {α : Type} {pick : Value → Option α} {P : Renaming → α → α → Prop}
    (hpick : ∀ {ρ : Renaming} {v w : Value}, v.Alike ρ w → Option.Rel (P ρ) (pick v) (pick w))
    (operation : String) (hframe : ρ .frames frame frame') (he : e.Alike L ρ e') :
    Twin L ρ (Run.evalOperand run pick operation frame e)
      (Run.evalOperand run' pick operation frame' e') P := by
  apply bind (hrun hframe he)
  intro ρ' v w hρ hvw
  obtain ⟨hv, hw⟩ | ⟨a, b, hv, hw, hab⟩ := rel_cases (hpick hvw)
  . rw [hv, hw, hvw.kind]
    exact .fail _
  . rw [hv, hw]
    exact .pure hab

theorem evalPart {α : Type} {pick : Value → Option α} {P : Renaming → α → α → Prop}
    (hpick : ∀ {ρ : Renaming} {v w : Value}, v.Alike ρ w → Option.Rel (P ρ) (pick v) (pick w))
    (wanted : Kind) (role : String) (hframe : ρ .frames frame frame') (he : e.Alike L ρ e') :
    Twin L ρ (Run.evalPart run pick wanted role frame e)
      (Run.evalPart run' pick wanted role frame' e') P := by
  apply bind (hrun hframe he)
  intro ρ' v w hρ hvw
  obtain ⟨hv, hw⟩ | ⟨a, b, hv, hw, hab⟩ := rel_cases (hpick hvw)
  . rw [hv, hw, hvw.kind]
    exact .fail _
  . rw [hv, hw]
    exact .pure hab

theorem evalCondition (role : String) (hframe : ρ .frames frame frame') (he : e.Alike L ρ e') :
    Twin L ρ (Run.evalCondition run role frame e) (Run.evalCondition run' role frame' e')
      (fun _ x y => x = y) := by
  unfold Run.evalCondition
  rw [he.isAbsent]
  split
  . exact .fail _
  . exact evalPart hrun (fun h => h.boolean?) .boolean role hframe he

theorem evalCases {cases cases' : List (Expr Value × Expr Value)} (hframe : ρ .frames frame frame')
    (hcases : List.Forall₂ (fun c d => c.1.Alike L ρ d.1 ∧ c.2.Alike L ρ d.2) cases cases') :
    Twin L ρ (Run.evalCases run frame cases) (Run.evalCases run' frame' cases') Value.Alike := by
  induction cases generalizing ρ cases' with
  | nil =>
    cases hcases
    exact .pure .null
  | cons c cases ih =>
    cases hcases with
    | cons hc hcases =>
      apply bind (evalCondition hrun _ hframe hc.1)
      rintro ρ' x _ hρ rfl
      cases x with
      | true => exact hrun (hρ _ _ _ hframe) (hc.2.mono hρ)
      | false =>
        apply ih (hρ _ _ _ hframe)
        exact hcases.imp fun _ _ hd => ⟨hd.1.mono hρ, hd.2.mono hρ⟩

theorem evalLoop {condition condition' advance advance' body body' : Expr Value}
    (hframe : ρ .frames frame frame') (hcondition : condition.Alike L ρ condition')
    (hadvance : advance.Alike L ρ advance') (hbody : body.Alike L ρ body') (fuel : Nat)
    {last last' : Value} (hlast : last.Alike ρ last') :
    Twin L ρ (Run.evalLoop run frame condition advance body fuel last)
      (Run.evalLoop run' frame' condition' advance' body' fuel last') Value.Alike := by
  induction fuel generalizing ρ last last' with
  | zero => exact .throw .exhausted
  | succ fuel ih =>
    apply bind (evalCondition hrun _ hframe hcondition)
    rintro ρ₁ x _ hρ₁ rfl
    cases x with
    | false => exact .pure (hlast.mono hρ₁)
    | true =>
      apply bind (hrun (hρ₁ _ _ _ hframe) (hbody.mono hρ₁))
      intro ρ₂ v w hρ₂ hvw
      have hρ₂' := le_trans hρ₁ hρ₂
      apply bind (hrun (hρ₂' _ _ _ hframe) (hadvance.mono hρ₂'))
      intro ρ₃ _ _ hρ₃ _
      have hρ := le_trans hρ₂' hρ₃
      exact ih (hρ _ _ _ hframe) (hcondition.mono hρ) (hadvance.mono hρ) (hbody.mono hρ)
        (hvw.mono hρ₃)

omit hrun in
theorem bindAll {a b : Nat} (hab : ρ .frames a b) {ps qs : List (String × Value)}
    (hps : EntriesAlike ρ ps qs) (hnames : ∀ p ∈ ps, L.name p.1) :
    Twin L ρ (Run.bindAll a ps) (Run.bindAll b qs) (fun _ _ _ => True) := by
  induction ps generalizing ρ qs with
  | nil =>
    cases hps
    exact .pure trivial
  | cons p ps ih =>
    cases hps with
    | @cons _ q _ qs hpq hps =>
      obtain ⟨name, v⟩ := p
      obtain ⟨name', w⟩ := q
      obtain ⟨rfl, hvw⟩ := hpq
      obtain ⟨hname, hnames⟩ := List.forall_mem_cons.1 hnames
      apply bind (define hab hname hvw)
      intro ρ' _ _ hρ _
      exact ih (hρ _ _ _ hab) (EntriesAlike.mono hps hρ) hnames

theorem callClosure {a b : Nat} (hab : ρ .closures a b) {args args' : Array Value}
    (hargs : ValuesAlike ρ args.toList args'.toList) :
    Twin L ρ (Run.callClosure run a args) (Run.callClosure run' b args') Value.Alike := by
  apply bind (Q := fun ρ' c d => c.Alike L ρ' d)
  . apply inspect
    intro s t halike
    exact halike.closure hab
  . intro ρ₁ c d hρ₁ hclosure
    have hsize : args.size = args'.size := by simpa using hargs.length_eq
    rw [← hclosure.params, ← hsize]
    split
    . exact .fail _
    . apply bind (addFrame hclosure.frame)
      intro ρ₂ frame frame' hρ₂ hframe
      have hentries : EntriesAlike ρ₂ (c.params.zip args.toList) (c.params.zip args'.toList) :=
        CopyingAlike.zip_entries (ValuesAlike.mono hargs (le_trans hρ₁ hρ₂))
      apply bind (bindAll hframe hentries _)
      . intro ρ₃ _ _ hρ₃ _
        exact hrun (hρ₃ _ _ _ hframe) (hclosure.body.mono (le_trans hρ₂ hρ₃))
      . rintro ⟨name, v⟩ hp
        exact hclosure.names name (List.of_mem_zip hp).1

theorem evalCall {a b : Nat} (hframe : ρ .frames frame frame') (hab : ρ .closures a b)
    (hes : ExprsAlike L ρ es es') :
    Twin L ρ (Run.evalCall run frame a es) (Run.evalCall run' frame' b es') Value.Alike := by
  apply bind (addFrame hframe)
  intro ρ₁ scope scope' hρ₁ hscope
  apply bind (evalAll hrun hscope (ExprsAlike.mono hes hρ₁))
  intro ρ₂ args args' hρ₂ hargs
  exact callClosure hrun (hρ₂ _ _ _ (hρ₁ _ _ _ hab)) hargs

/--
Texts are looked at when they have been evaluated, and what is done next may depend on what they show.
-/
theorem evalTextThen {α : Type} {Q : Renaming → α → α → Prop} {k k' : TextOperand → Run α} (operation : String)
    (hframe : ρ .frames frame frame') (he : e.Alike L ρ e')
    (h : ∀ ρ' s t x y, ρ ≤ ρ' → Store.Alike L ρ' s t → x.Alike L ρ' s t y →
      TwinAt L ρ' s t (k x) (k' y) Q) :
    Twin L ρ (Run.evalText run operation frame e >>= k) (Run.evalText run' operation frame' e' >>= k')
      Q := by
  simp only [Run.evalText, bind_assoc]
  apply bind (hrun hframe he)
  intro ρ' v w hρ hvw
  cases hvw with
  | @string a b hab =>
    simp only [bind_assoc, pure_bind]
    apply inspectThen
    intro s t halike
    exact h ρ' s t _ _ hρ halike (TextOperand.Alike.view halike hab)
  | char c =>
    simp only [pure_bind]
    intro m n halike
    exact h ρ' m.store n.store _ _ hρ halike.store (TextOperand.Alike.char c) m n rfl rfl halike
  | _ => exact .failThen _

theorem evalText (operation : String) (hframe : ρ .frames frame frame') (he : e.Alike L ρ e') :
    Twin L ρ (Run.evalText run operation frame e) (Run.evalText run' operation frame' e')
      (fun _ _ _ => True) := by
  rw [← bind_pure (Run.evalText run operation frame e),
    ← bind_pure (Run.evalText run' operation frame' e')]
  apply evalTextThen hrun operation hframe he
  intro ρ' s t x y _ _ _
  exact atStores (.pure trivial)

end

theorem forall₂_replicate {v w : Value} (n : Nat) (hvw : v.Alike ρ w) :
    ValuesAlike ρ (List.replicate n v) (List.replicate n w) := by
  induction n with
  | zero => exact .nil
  | succ n ih => exact .cons hvw ih

theorem present (form : String) {v w : Value} (hvw : v.Alike ρ w) :
    Twin L ρ (Run.present form v) (Run.present form w) Value.Alike := by
  cases hvw with
  | absent => exact .fail _
  | _ => exact .pure (by constructor <;> assumption)

theorem literal (l : Literal) : Twin L ρ (Run.create l.toValue) (Run.create l.toValue) Value.Alike := by
  cases l with
  | string content => exact addString _
  | _ =>
    apply transform
    intro s t halike
    exact ⟨ρ, .refl halike, by constructor⟩

theorem readLiteral : Twin L ρ Run.readLiteral Run.readLiteral Value.Alike := by
  apply bind nextLine
  rintro ρ' line _ hρ rfl
  dsimp only
  split
  . exact .pure .null
  . cases Literal.parse line.trim.chars with
    | ok l => exact literal l
    | error e => exact .fail _

/-! Forms. -/

/--
A form whose operands are evaluated in the given order, and then something is done with their values.
-/
theorem evalTwo {f g : Value → Value → Run Value} {a a' b b' : Expr Value}
    (hrun : Evaluator.Twin L run run') (hframe : ρ .frames frame frame') (ha : a.Alike L ρ a')
    (hb : b.Alike L ρ b')
    (h : ∀ ρ' v v' w w', ρ ≤ ρ' → v.Alike ρ' v' → w.Alike ρ' w' →
      Twin L ρ' (f v w) (g v' w') Value.Alike) :
    Twin L ρ (run frame a >>= fun v => run frame b >>= fun w => f v w)
      (run' frame' a' >>= fun v => run' frame' b' >>= fun w => g v w) Value.Alike := by
  apply bind (hrun hframe ha)
  intro ρ₁ v v' hρ₁ hv
  apply bind (hrun (hρ₁ _ _ _ hframe) (hb.mono hρ₁))
  intro ρ₂ w w' hρ₂ hw
  exact h ρ₂ v v' w w' (le_trans hρ₁ hρ₂) (hv.mono hρ₂) hw

/--
A form that works at an index of an object.
-/
theorem evalIndexed {r : Realm} {pick : Value → Option Nat} (hrun : Evaluator.Twin L run run')
    (hpick : ∀ {ρ : Renaming} {v w : Value}, v.Alike ρ w → Option.Rel (ρ r) (pick v) (pick w))
    (operation : String) (hframe : ρ .frames frame frame') {f g : Nat → Int64 → Run Value}
    {a a' b b' : Expr Value} (ha : a.Alike L ρ a') (hb : b.Alike L ρ b')
    (h : ∀ ρ' x y i, ρ ≤ ρ' → ρ' r x y → Twin L ρ' (f x i) (g y i) Value.Alike) :
    Twin L ρ
      (Run.evalOperand run pick operation frame a >>= fun x =>
        Run.evalOperand run Value.integer? operation frame b >>= fun i => f x i)
      (Run.evalOperand run' pick operation frame' a' >>= fun y =>
        Run.evalOperand run' Value.integer? operation frame' b' >>= fun i => g y i) Value.Alike := by
  apply bind (evalOperand hrun hpick operation hframe ha)
  intro ρ₁ x y hρ₁ hxy
  apply bind (evalOperand hrun (fun h => h.integer?) operation (hρ₁ _ _ _ hframe) (hb.mono hρ₁))
  rintro ρ₂ i _ hρ₂ rfl
  exact h ρ₂ x y i (le_trans hρ₁ hρ₂) (hρ₂ _ _ _ hxy)

/--
Two forms, performed in frames that stand for each other, do the same.
-/
def Twinned (L : Likeness) (ρ : Renaming) (run run' : Evaluator) (frame frame' : Nat)
    (form form' : Form Value) : Prop :=
  ∀ (fuel : Nat) (l l' : Option Location),
    Twin L ρ (Run.perform run fuel frame l form) (Run.perform run' fuel frame' l' form') Value.Alike

theorem recordType_twinned (frame frame' : Nat) (name : String) (members : List String) :
    Twinned L ρ run run' frame frame' (.recordType name members) (.recordType name members) := by
  intro fuel l l'
  apply primitive (Primitive.recordType_nodup name members)
  intro type htype
  exact addRecordType (L.type_of_nodup type htype)

section

variable (hrun : Evaluator.Twin L run run') (hframe : ρ .frames frame frame') {name : String}
  {a a' b b' c c' d d' : Expr Value}

include hframe

theorem isBound_twinned (hname : L.name name) :
    Twinned L ρ run run' frame frame' (.isBound name) (.isBound name) := by
  intro fuel l l'
  apply bind (Q := fun _ x y => x = y)
  . apply inspect
    intro s t halike
    exact halike.isBound hname hframe
  . rintro ρ₁ x _ hρ₁ rfl
    exact .pure (.boolean x)

theorem lambda_twinned {site site' : Nat} {params : List String} (hsite : ρ .sites site site')
    (hparams : ∀ p ∈ params, L.name p) (he : e.Alike L ρ e') :
    Twinned L ρ run run' frame frame' (.lambda site params e) (.lambda site' params e') := by
  intro fuel l l'
  exact addClosure ⟨rfl, hparams, he, hsite, hframe⟩

include hrun

theorem define_twinned (hname : L.name name) (he : e.Alike L ρ e') :
    Twinned L ρ run run' frame frame' (.define name e) (.define name e') := by
  intro fuel l l'
  apply bind (hrun hframe he)
  intro ρ₁ v w hρ₁ hvw
  apply bind (define (hρ₁ _ _ _ hframe) hname hvw)
  intro ρ₂ _ _ hρ₂ _
  exact .pure (hvw.mono hρ₂)

theorem assign_twinned (hname : L.name name) (he : e.Alike L ρ e') :
    Twinned L ρ run run' frame frame' (.assign name e) (.assign name e') := by
  intro fuel l l'
  apply bind (hrun hframe he)
  intro ρ₁ v w hρ₁ hvw
  apply bind (assign (hρ₁ _ _ _ hframe) hname hvw)
  intro ρ₂ _ _ hρ₂ _
  exact .pure (hvw.mono hρ₂)

theorem clone_twinned (he : e.Alike L ρ e') :
    Twinned L ρ run run' frame frame' (.clone e) (.clone e') := by
  intro fuel l l'
  apply bind (hrun hframe he)
  intro ρ₁ v w hρ₁ hvw
  exact clone hvw

theorem block_twinned (hes : ExprsAlike L ρ es es') :
    Twinned L ρ run run' frame frame' (.block es) (.block es') := by
  intro fuel l l'
  apply bind (addFrame hframe)
  intro ρ₁ scope scope' hρ₁ hscope
  exact evalSequence hrun hscope (ExprsAlike.mono hes hρ₁)

theorem arith_twinned (op : ArithOp) (ha : a.Alike L ρ a') (hb : b.Alike L ρ b') :
    Twinned L ρ run run' frame frame' (.arith op a b) (.arith op a' b') := by
  intro fuel l l'
  apply evalTwo hrun hframe ha hb
  intro ρ' v v' w w' _ hv hw
  rw [Primitive.arith_eq hv hw]
  apply ofPrimitive
  apply Primitive.Agrees.refl (Primitive.arith_sane _ _ _)
  intro r hr
  exact Value.alike_of_within (hr {})

theorem compare_twinned (op : CompareOp) (ha : a.Alike L ρ a') (hb : b.Alike L ρ b') :
    Twinned L ρ run run' frame frame' (.compare op a b) (.compare op a' b') := by
  intro fuel l l'
  apply evalTwo hrun hframe ha hb
  intro ρ' v v' w w' _ hv hw
  apply consult
  intro s t halike
  rw [halike.compare _ hv hw]
  apply Primitive.Agrees.refl (Primitive.compare_sane _ _ _ _)
  intro r hr
  exact Value.alike_of_within (hr {})

theorem logic_twinned (op : LogicOp) (ha : a.Alike L ρ a') (hb : b.Alike L ρ b') :
    Twinned L ρ run run' frame frame' (.logic op a b) (.logic op a' b') := by
  intro fuel l l'
  apply evalTwo hrun hframe ha hb
  intro ρ' v v' w w' _ hv hw
  rw [Primitive.logic_eq hv hw]
  apply ofPrimitive
  apply Primitive.Agrees.refl (Primitive.logic_sane _ _ _)
  intro r hr
  exact Value.alike_of_within (hr {})

theorem negate_twinned (he : e.Alike L ρ e') :
    Twinned L ρ run run' frame frame' (.negate e) (.negate e') := by
  intro fuel l l'
  apply bind (evalOperand hrun (fun h => h.boolean?) _ hframe he)
  rintro ρ₁ b _ hρ₁ rfl
  exact .pure (.boolean _)

theorem branch_twinned (ha : a.Alike L ρ a') (hb : b.Alike L ρ b') (hc : c.Alike L ρ c') :
    Twinned L ρ run run' frame frame' (.branch a b c) (.branch a' b' c') := by
  intro fuel l l'
  apply bind (addFrame hframe)
  intro ρ₁ scope scope' hρ₁ hscope
  apply bind (evalCondition hrun _ hscope (ha.mono hρ₁))
  rintro ρ₂ x _ hρ₂ rfl
  have hscope := hρ₂ _ _ _ hscope
  have hρ := le_trans hρ₁ hρ₂
  cases x with
  | true => exact hrun hscope (hb.mono hρ)
  | false => exact hrun hscope (hc.mono hρ)

theorem loop_twinned (ha : a.Alike L ρ a') (hb : b.Alike L ρ b') (hc : c.Alike L ρ c')
    (hd : d.Alike L ρ d') :
    Twinned L ρ run run' frame frame' (.loop a b c d) (.loop a' b' c' d') := by
  intro fuel l l'
  apply bind (addFrame hframe)
  intro ρ₁ scope scope' hρ₁ hscope
  apply catchBreak
  apply bind (hrun hscope (ha.mono hρ₁))
  intro ρ₂ _ _ hρ₂ _
  have hρ := le_trans hρ₁ hρ₂
  exact evalLoop hrun (hρ₂ _ _ _ hscope) (hb.mono hρ) (hc.mono hρ) (hd.mono hρ) fuel .null

theorem apply_twinned (he : e.Alike L ρ e') (hes : ExprsAlike L ρ es es') :
    Twinned L ρ run run' frame frame' (.apply e es) (.apply e' es') := by
  intro fuel l l'
  apply bind (evalPart hrun (fun h => h.closure?) _ _ hframe he)
  intro ρ₁ a b hρ₁ hab
  exact evalCall hrun (hρ₁ _ _ _ hframe) hab (ExprsAlike.mono hes hρ₁)

theorem call_twinned (hname : L.name name) (hes : ExprsAlike L ρ es es') :
    Twinned L ρ run run' frame frame' (.call name es) (.call name es') := by
  intro fuel l l'
  apply bind (lookup hframe hname)
  intro ρ₁ v w hρ₁ hvw
  cases hvw with
  | closure hab => exact evalCall hrun (hρ₁ _ _ _ hframe) hab (ExprsAlike.mono hes hρ₁)
  | _ => exact .fail _

theorem isType_twinned (type : TypeName) (he : e.Alike L ρ e') :
    Twinned L ρ run run' frame frame' (.isType e type) (.isType e' type) := by
  intro fuel l l'
  simp only [Run.perform, he.isAbsent]
  split
  . exact .pure (.boolean _)
  . apply bind (hrun hframe he)
    intro ρ₁ v w hρ₁ hvw
    rw [hvw.kind]
    exact .pure (.boolean _)

theorem print_twinned (newline : Bool) (he : e.Alike L ρ e') :
    Twinned L ρ run run' frame frame' (.print e newline) (.print e' newline) := by
  intro fuel l l'
  simp only [Run.perform, he.isAbsent]
  split
  . apply bind (print _)
    intro ρ₁ _ _ hρ₁ _
    exact .pure .null
  . apply bind (hrun hframe he)
    intro ρ₁ v w hρ₁ hvw
    apply bind (Q := fun _ x y => x = y)
    . apply inspect
      intro s t halike
      exact halike.text hvw
    . rintro ρ₂ text _ hρ₂ rfl
      apply bind (print _)
      intro ρ₃ _ _ hρ₃ _
      exact .pure (hvw.mono (le_trans hρ₂ hρ₃))

theorem isTypeNamed_twinned (name : String) (he : e.Alike L ρ e') :
    Twinned L ρ run run' frame frame' (.isTypeNamed e name) (.isTypeNamed e' name) := by
  intro fuel l l'
  simp only [Run.perform, he.isAbsent]
  split
  . exact .pure (.boolean _)
  . apply bind (hrun hframe he)
    intro ρ₁ v w hρ₁ hvw
    cases hvw with
    | recordType hab =>
      apply bind (Q := fun _ x y => x = y)
      . apply inspect
        intro s t halike
        exact halike.recordType hab
      . rintro ρ₂ type _ hρ₂ rfl
        exact .pure (.boolean _)
    | _ => exact .pure (.boolean _)

theorem makeRecord_twinned (he : e.Alike L ρ e') :
    Twinned L ρ run run' frame frame' (.makeRecord e) (.makeRecord e') := by
  intro fuel l l'
  apply bind (evalPart hrun (fun h => h.recordType?) _ _ hframe he)
  intro ρ₁ a b hρ₁ hab
  exact addBlankRecord hab

theorem isRecordOf_twinned (ha : a.Alike L ρ a') (hb : b.Alike L ρ b') :
    Twinned L ρ run run' frame frame' (.isRecordOf a b) (.isRecordOf a' b') := by
  intro fuel l l'
  simp only [Run.perform, ha.isAbsent, hb.isAbsent]
  split
  . exact .pure (.boolean _)
  . apply evalTwo hrun hframe ha hb
    intro ρ' v v' w w' _ hv hw
    cases hv
    case record hab =>
      cases hw
      case recordType hcd =>
        apply bind (Q := fun _ x y => x = y)
        . apply inspect
          intro s t halike
          rw [halike.typeOf hab, halike.recordType hcd]
        . rintro ρ₂ same _ hρ₂ rfl
          exact .pure (.boolean same)
      all_goals exact .pure (.boolean false)
    all_goals exact .pure (.boolean false)

theorem getMember_twinned (member : String) (he : e.Alike L ρ e') :
    Twinned L ρ run run' frame frame' (.getMember e member) (.getMember e' member) := by
  intro fuel l l'
  apply bind (evalPart hrun (fun h => h.record?) _ _ hframe he)
  intro ρ₁ a b hρ₁ hab
  apply bind (getMember hab _)
  intro ρ₂ v w hρ₂ hvw
  exact present _ hvw

theorem setMember_twinned (member : String) (ha : a.Alike L ρ a') (hb : b.Alike L ρ b') :
    Twinned L ρ run run' frame frame' (.setMember a member b) (.setMember a' member b') := by
  intro fuel l l'
  apply bind (evalPart hrun (fun h => h.record?) _ _ hframe ha)
  intro ρ₁ a b hρ₁ hab
  apply bind (hrun (hρ₁ _ _ _ hframe) (hb.mono hρ₁))
  intro ρ₂ v w hρ₂ hvw
  apply bind (setMember (hρ₂ _ _ _ hab) _ hvw)
  intro ρ₃ _ _ hρ₃ _
  exact .pure (hvw.mono hρ₃)

theorem stringLength_twinned (he : e.Alike L ρ e') :
    Twinned L ρ run run' frame frame' (.stringLength e) (.stringLength e') := by
  intro fuel l l'
  apply bind (evalOperand hrun (fun h => h.string?) _ hframe he)
  intro ρ₁ a b hρ₁ hab
  apply bind (stringLength hab)
  rintro ρ₂ n _ hρ₂ rfl
  exact .pure (.integer _)

theorem charAt_twinned (ha : a.Alike L ρ a') (hb : b.Alike L ρ b') :
    Twinned L ρ run run' frame frame' (.charAt a b) (.charAt a' b') := by
  intro fuel l l'
  apply evalIndexed hrun (fun h => h.string?) _ hframe ha hb
  intro ρ₁ a b i hρ₁ hab
  apply bind (charAt hab i)
  rintro ρ₂ c _ hρ₂ rfl
  exact .pure (.char c)

theorem setCharAt_twinned (ha : a.Alike L ρ a') (hb : b.Alike L ρ b') (hc : c.Alike L ρ c') :
    Twinned L ρ run run' frame frame' (.setCharAt a b c) (.setCharAt a' b' c') := by
  intro fuel l l'
  apply evalIndexed hrun (fun h => h.string?) _ hframe ha hb
  intro ρ₁ a b i hρ₁ hab
  apply bind (evalOperand hrun (fun h => h.char?) _ (hρ₁ _ _ _ hframe) (hc.mono hρ₁))
  rintro ρ₂ c _ hρ₂ rfl
  have hab := hρ₂ _ _ _ hab
  apply bind (setCharAt hab i c)
  intro ρ₃ _ _ hρ₃ _
  exact .pure (.string (hρ₃ _ _ _ hab))

theorem concat_twinned (ha : a.Alike L ρ a') (hb : b.Alike L ρ b') :
    Twinned L ρ run run' frame frame' (.concat a b) (.concat a' b') := by
  intro fuel l l'
  apply bind (evalOperand hrun (fun h => h.string?) _ hframe ha)
  intro ρ₁ a b hρ₁ hab
  apply evalTextThen hrun _ (hρ₁ _ _ _ hframe) (hb.mono hρ₁)
  intro ρ₂ s t x y hρ₂ halike hxy
  apply TwinAt.bind (Q := fun _ cs ds => cs = ds) (.inspect (hxy.chars halike))
  rintro ρ₃ s' t' suffix _ hpassage rfl
  have hab := hpassage.le _ _ _ (hρ₂ _ _ _ hab)
  apply atStores
  apply bind (appendChars hab suffix)
  intro ρ₄ _ _ hρ₄ _
  exact .pure (.string (hρ₄ _ _ _ hab))

theorem substring_twinned (ha : a.Alike L ρ a') (hb : b.Alike L ρ b') (hc : c.Alike L ρ c') :
    Twinned L ρ run run' frame frame' (.substring a b c) (.substring a' b' c') := by
  intro fuel l l'
  apply evalIndexed hrun (fun h => h.string?) _ hframe ha hb
  intro ρ₁ a b start hρ₁ hab
  apply bind (evalOperand hrun (fun h => h.integer?) _ (hρ₁ _ _ _ hframe) (hc.mono hρ₁))
  rintro ρ₂ length _ hρ₂ rfl
  exact substring (hρ₂ _ _ _ hab) start length

theorem find_twinned (ha : a.Alike L ρ a') (hb : b.Alike L ρ b') (hc : c.Alike L ρ c') :
    Twinned L ρ run run' frame frame' (.find a b c) (.find a' b' c') := by
  intro fuel l l'
  apply bind (evalOperand hrun (fun h => h.string?) _ hframe ha)
  intro ρ₁ a b hρ₁ hab
  apply evalTextThen hrun _ (hρ₁ _ _ _ hframe) (hb.mono hρ₁)
  intro ρ₂ s t x y hρ₂ halike hxy
  have hρ := le_trans hρ₁ hρ₂
  have hfind : ∀ ρ₃ s' t' start, s.Passage L ρ₂ ρ₃ t s' t' →
      TwinAt L ρ₃ s' t' (do return .integer (← Run.find a x start))
        (do return .integer (← Run.find b y start)) Value.Alike := by
    intro ρ₃ s' t' start hpassage
    have hab := hpassage.le _ _ _ (hρ₂ _ _ _ hab)
    apply (TwinAt.find hpassage.alike hab (hxy.after hpassage) start).bind
    rintro ρ₄ _ _ i _ _ rfl
    exact atStores (.pure (.integer i))
  rw [hc.isAbsent]
  dsimp only
  split
  . exact hfind ρ₂ s t 0 (.refl halike)
  . apply (evalOperand hrun (fun h => h.integer?) _ (hρ _ _ _ hframe) (hc.mono hρ)).atStores.bind
    rintro ρ₃ s' t' start _ hpassage rfl
    exact hfind ρ₃ s' t' start hpassage

theorem arrayOf_twinned (hes : ExprsAlike L ρ es es') :
    Twinned L ρ run run' frame frame' (.arrayOf es) (.arrayOf es') := by
  intro fuel l l'
  apply bind (evalAll hrun hframe hes)
  intro ρ₁ vs ws hρ₁ hvs
  exact addArray hvs

theorem makeArray_twinned (ha : a.Alike L ρ a') (hb : b.Alike L ρ b') :
    Twinned L ρ run run' frame frame' (.makeArray a b) (.makeArray a' b') := by
  intro fuel l l'
  apply bind (evalOperand hrun (fun h => h.integer?) _ hframe ha)
  rintro ρ₁ n _ hρ₁ rfl
  apply primitive (Primitive.arraySize_sane n)
  intro size _
  apply bind (hrun (hρ₁ _ _ _ hframe) (hb.mono hρ₁))
  intro ρ₂ v w hρ₂ hvw
  apply addArray
  simp only [Array.toList_replicate]
  exact forall₂_replicate size hvw

theorem arrayLength_twinned (he : e.Alike L ρ e') :
    Twinned L ρ run run' frame frame' (.arrayLength e) (.arrayLength e') := by
  intro fuel l l'
  apply bind (evalOperand hrun (fun h => h.array?) _ hframe he)
  intro ρ₁ a b hρ₁ hab
  apply bind (arrayLength hab)
  rintro ρ₂ n _ hρ₂ rfl
  exact .pure (.integer _)

theorem arrayGet_twinned (ha : a.Alike L ρ a') (hb : b.Alike L ρ b') :
    Twinned L ρ run run' frame frame' (.arrayGet a b) (.arrayGet a' b') := by
  intro fuel l l'
  apply evalIndexed hrun (fun h => h.array?) _ hframe ha hb
  intro ρ₁ a b i hρ₁ hab
  apply bind (arrayGet hab i)
  intro ρ₂ v w hρ₂ hvw
  exact present _ hvw

theorem arraySet_twinned (ha : a.Alike L ρ a') (hb : b.Alike L ρ b') (hc : c.Alike L ρ c') :
    Twinned L ρ run run' frame frame' (.arraySet a b c) (.arraySet a' b' c') := by
  intro fuel l l'
  apply evalIndexed hrun (fun h => h.array?) _ hframe ha hb
  intro ρ₁ a b i hρ₁ hab
  apply bind (hrun (hρ₁ _ _ _ hframe) (hc.mono hρ₁))
  intro ρ₂ v w hρ₂ hvw
  apply bind (arraySet (hρ₂ _ _ _ hab) i hvw)
  intro ρ₃ _ _ hρ₃ _
  exact .pure (hvw.mono hρ₃)

theorem arrayAdd_twinned (ha : a.Alike L ρ a') (hb : b.Alike L ρ b') :
    Twinned L ρ run run' frame frame' (.arrayAdd a b) (.arrayAdd a' b') := by
  intro fuel l l'
  apply bind (evalOperand hrun (fun h => h.array?) _ hframe ha)
  intro ρ₁ a b hρ₁ hab
  apply bind (hrun (hρ₁ _ _ _ hframe) (hb.mono hρ₁))
  intro ρ₂ v w hρ₂ hvw
  have hab := hρ₂ _ _ _ hab
  apply bind (arrayAdd hab hvw)
  intro ρ₃ _ _ hρ₃ _
  exact .pure (.array (hρ₃ _ _ _ hab))

end

theorem perform (hrun : Evaluator.Twin L run run') (fuel : Nat) (hframe : ρ .frames frame frame')
    {l l' : Option Location} (hplace : L.place l l') {form form' : Form Value}
    (h : form.Alike L ρ (Expr.Alike L ρ) form') :
    Twin L ρ (Run.perform run fuel frame l form) (Run.perform run' fuel frame' l' form')
      Value.Alike := by
  cases h with
  | literal h => exact .pure h.orNull
  | symbol hname => exact lookup hframe hname
  | define hname he | function hname he => exact define_twinned hrun hframe hname he fuel l l'
  | assign hname he => exact assign_twinned hrun hframe hname he fuel l l'
  | isBound hname => exact isBound_twinned hframe hname fuel l l'
  | clone he => exact clone_twinned hrun hframe he fuel l l'
  | sequence hes => exact evalSequence hrun hframe hes
  | block hes => exact block_twinned hrun hframe hes fuel l l'
  | arith ha hb => exact arith_twinned hrun hframe _ ha hb fuel l l'
  | compare ha hb => exact compare_twinned hrun hframe _ ha hb fuel l l'
  | logic ha hb => exact logic_twinned hrun hframe _ ha hb fuel l l'
  | negate he => exact negate_twinned hrun hframe he fuel l l'
  | branch ha hb hc => exact branch_twinned hrun hframe ha hb hc fuel l l'
  | cond hcases => exact evalCases hrun hframe hcases
  | loop ha hb hc hd => exact loop_twinned hrun hframe ha hb hc hd fuel l l'
  | breakLoop => exact .throw (.breakLoop hplace)
  | lambda hsite hparams he => exact lambda_twinned hframe hsite hparams he fuel l l'
  | apply he hes => exact apply_twinned hrun hframe he hes fuel l l'
  | call hname hes => exact call_twinned hrun hframe hname hes fuel l l'
  | isType he => exact isType_twinned hrun hframe _ he fuel l l'
  | print he => exact print_twinned hrun hframe _ he fuel l l'
  | read => exact readLiteral
  | @recordType name members => exact recordType_twinned frame frame' name members fuel l l'
  | isTypeNamed he => exact isTypeNamed_twinned hrun hframe _ he fuel l l'
  | makeRecord he => exact makeRecord_twinned hrun hframe he fuel l l'
  | isRecordOf ha hb => exact isRecordOf_twinned hrun hframe ha hb fuel l l'
  | getMember he => exact getMember_twinned hrun hframe _ he fuel l l'
  | setMember ha hb => exact setMember_twinned hrun hframe _ ha hb fuel l l'
  | stringLength he => exact stringLength_twinned hrun hframe he fuel l l'
  | charAt ha hb => exact charAt_twinned hrun hframe ha hb fuel l l'
  | setCharAt ha hb hc => exact setCharAt_twinned hrun hframe ha hb hc fuel l l'
  | concat ha hb => exact concat_twinned hrun hframe ha hb fuel l l'
  | substring ha hb hc => exact substring_twinned hrun hframe ha hb hc fuel l l'
  | find ha hb hc => exact find_twinned hrun hframe ha hb hc fuel l l'
  | arrayOf hes => exact arrayOf_twinned hrun hframe hes fuel l l'
  | makeArray ha hb => exact makeArray_twinned hrun hframe ha hb fuel l l'
  | arrayLength he => exact arrayLength_twinned hrun hframe he fuel l l'
  | arrayGet ha hb => exact arrayGet_twinned hrun hframe ha hb fuel l l'
  | arraySet ha hb hc => exact arraySet_twinned hrun hframe ha hb hc fuel l l'
  | arrayAdd ha hb => exact arrayAdd_twinned hrun hframe ha hb fuel l l'

end Twin

end Run

/--
Two evaluations of trees that are alike, with as much fuel, go side by side.
-/
theorem eval_twin {c c' : Option Context} (hcontext : L.placed → c = c') (fuel : Nat) :
    Run.Evaluator.Twin L (eval c fuel) (eval c' fuel) := by
  induction fuel with
  | zero =>
    intro ρ frame frame' e e' hframe he
    cases he with
    | absent => exact .pure .null
    | node => exact .throw .exhausted
  | succ fuel ih =>
    intro ρ frame frame' e e' hframe he
    cases e with
    | absent =>
      cases he
      exact .pure .null
    | node l form =>
      cases e' with
      | absent => cases he
      | node l' form' =>
        obtain ⟨hplace, hform⟩ := he.form
        exact .located hcontext hplace (.perform ih fuel hframe hplace hform)

end LispScript
