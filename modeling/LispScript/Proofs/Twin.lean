import LispScript.Proofs.Copying
import LispScript.Proofs.Safety

/-!
This module contains a logic for two runs that go side by side. `Run.Twin L ρ x y Q` says: from machines
that are alike under the renaming `ρ`, the runs `x` and `y` end in the same way, in machines
that are alike, and `Q` holds of the results. It has one rule for each way to build a run, and one for
each operation on a machine.
-/

namespace LispScript

variable {L : Likeness} {ρ ρ' : Renaming}

structure Machine.Alike (L : Likeness) (ρ : Renaming) (m n : Machine) : Prop where
  store : m.store.Alike L ρ n.store
  output : m.output = n.output
  input : m.input = n.input
  muted : m.muted = n.muted

structure Machine.Passage (L : Likeness) (ρ ρ' : Renaming) (m n m' n' : Machine) : Prop where
  store : m.store.Passage L ρ ρ' n.store m'.store n'.store
  alike : m'.Alike L ρ' n'

theorem Machine.Passage.refl {m n : Machine} (h : m.Alike L ρ n) : Passage L ρ ρ m n m n where
  store := .refl h.store
  alike := h

theorem Machine.Passage.trans {ρ'' : Renaming} {m n m' n' m'' n'' : Machine}
    (h : Passage L ρ ρ' m n m' n') (h' : Passage L ρ' ρ'' m' n' m'' n'') :
    Passage L ρ ρ'' m n m'' n'' where
  store := h.store.trans h'.store
  alike := h'.alike

/--
Primitives that yield the same, up to `R`, or raise the same fault.
-/
inductive Primitive.Agrees {α β : Type} (R : α → β → Prop) : Except Fault α → Except Fault β → Prop where
  | ok {a : α} {b : β} (h : R a b) : Agrees R (.ok a) (.ok b)
  | error (fault : Fault) : Agrees R (.error fault) (.error fault)

theorem Primitive.Agrees.refl {α : Type} {R : α → α → Prop} {P : α → Prop} {x : Except Fault α}
    (hx : Sane P x) (h : ∀ a, P a → R a a) : Agrees R x x := by
  cases x with
  | ok a => exact .ok (h a hx)
  | error fault => exact .error fault

namespace Run

variable {α β γ δ : Type} {s t : Store}

inductive Ends (L : Likeness) (ρ : Renaming) (m n : Machine) (Q : Renaming → α → β → Prop) :
    EStateM.Result Interrupt Machine α → EStateM.Result Interrupt Machine β → Prop where
  | ok {ρ' : Renaming} {a : α} {b : β} {m' n' : Machine} (h : m.Passage L ρ ρ' n m' n')
      (hQ : Q ρ' a b) : Ends L ρ m n Q (.ok a m') (.ok b n')
  | error {ρ' : Renaming} {i j : Interrupt} {m' n' : Machine} (h : m.Passage L ρ ρ' n m' n')
      (hi : i.Alike L j) : Ends L ρ m n Q (.error i m') (.error j n')

theorem Ends.after {Q : Renaming → α → β → Prop} {m n m' n' : Machine}
    {r : EStateM.Result Interrupt Machine α} {r' : EStateM.Result Interrupt Machine β}
    (h : m.Passage L ρ ρ' n m' n') (hends : Ends L ρ' m' n' Q r r') : Ends L ρ m n Q r r' := by
  cases hends with
  | ok h' hQ => exact .ok (h.trans h') hQ
  | error h' hi => exact .error (h.trans h') hi

def Twin (L : Likeness) (ρ : Renaming) (x : Run α) (y : Run β) (Q : Renaming → α → β → Prop) : Prop :=
  ∀ m n : Machine, m.Alike L ρ n → Ends L ρ m n Q (x m) (y n)

/--
The same, from machines that have the stores `s` and `t`.
-/
def TwinAt (L : Likeness) (ρ : Renaming) (s t : Store) (x : Run α) (y : Run β)
    (Q : Renaming → α → β → Prop) : Prop :=
  ∀ m n : Machine, m.store = s → n.store = t → m.Alike L ρ n → Ends L ρ m n Q (x m) (y n)

namespace Twin

variable {Q : Renaming → α → β → Prop} {R : Renaming → γ → δ → Prop} {x : Run α} {y : Run β}

theorem bind {f : α → Run γ} {g : β → Run δ} (h : Twin L ρ x y Q)
    (hfg : ∀ ρ' a b, ρ ≤ ρ' → Q ρ' a b → Twin L ρ' (f a) (g b) R) :
    Twin L ρ (x >>= f) (y >>= g) R := by
  intro m n halike
  have hends := h m n halike
  generalize hx : x m = r at hends
  generalize hy : y n = r' at hends
  cases hends with
  | @ok ρ' a b m' n' hpassage hab =>
    rw [bind_ok hx, bind_ok hy]
    exact (hfg ρ' a b hpassage.store.le hab m' n' hpassage.alike).after hpassage
  | error hpassage hi =>
    rw [bind_error hx, bind_error hy]
    exact .error hpassage hi

theorem pure {a : α} {b : β} (h : Q ρ a b) : Twin L ρ (Pure.pure a) (Pure.pure b) Q :=
  fun _ _ halike => .ok (.refl halike) h

theorem fail (fault : Fault) : Twin L ρ (Run.fail fault : Run α) (Run.fail fault : Run β) Q :=
  fun _ _ halike => .error (.refl halike) (.failure (.refl L _))

theorem failThen (fault : Fault) {f : α → Run γ} {g : β → Run δ} :
    Twin L ρ (Run.fail fault >>= f) (Run.fail fault >>= g) R :=
  fun _ _ halike => .error (.refl halike) (.failure (.refl L _))

theorem throw {i j : Interrupt} (h : i.Alike L j) :
    Twin L ρ (MonadExcept.throw i : Run α) (MonadExcept.throw j : Run β) Q :=
  fun _ _ halike => .error (.refl halike) h

theorem inspect {f : Store → α} {g : Store → β} (h : ∀ s t, Store.Alike L ρ s t → Q ρ (f s) (g t)) :
    Twin L ρ (Run.inspect f) (Run.inspect g) Q :=
  fun m n halike => .ok (.refl halike) (h m.store n.store halike.store)

/--
Something is done to the stores that keeps them alike.
-/
theorem transform {f : Store → α × Store} {g : Store → β × Store}
    (h : ∀ s t, Store.Alike L ρ s t →
      ∃ ρ', s.Passage L ρ ρ' t (f s).2 (g t).2 ∧ Q ρ' (f s).1 (g t).1) :
    Twin L ρ (Run.create f) (Run.create g) Q := by
  intro m n halike
  obtain ⟨ρ', hpassage, hQ⟩ := h m.store n.store halike.store
  exact .ok ⟨hpassage, hpassage.alike, halike.output, halike.input, halike.muted⟩ hQ

theorem create {f : Store → α × Store} {g : Store → β × Store} (k : Realm)
    (hf : ∀ s, Store.Adds k s (f s).2) (hg : ∀ t, Store.Adds k t (g t).2)
    (h : ∀ s t, Store.Alike L ρ s t →
      (f s).2.Match L (ρ.add k (s.extent k) (t.extent k)) (g t).2 k (s.extent k) (t.extent k))
    (hQ : ∀ ρ' s t, ρ' k (Store.extent s k) (Store.extent t k) → Q ρ' (f s).1 (g t).1) :
    Twin L ρ (Run.create f) (Run.create g) Q := by
  apply transform
  intro s t halike
  exact ⟨_, halike.add (hf s) (hg t) (h s t halike), hQ _ s t (ρ.add_self _ _ _)⟩

theorem update {f g : Store → Store} {k : Realm} {a b : Nat} (hab : ρ k a b) (hk : k ≠ .strings)
    (hf : ∀ s, Store.Changes k a s (f s)) (hg : ∀ t, Store.Changes k b t (g t))
    (h : ∀ s t, Store.Alike L ρ s t → (f s).Match L ρ (g t) k a b) :
    Twin L ρ (Run.update f) (Run.update g) (fun _ _ _ => True) := by
  intro m n halike
  have hpassage := halike.store.change hab (hf m.store) (hg n.store)
    (h m.store n.store halike.store) fun hstrings => absurd hstrings hk
  exact .ok ⟨hpassage, hpassage.alike, halike.output, halike.input, halike.muted⟩ trivial

/--
Both runs change a string in the same way.
-/
theorem updateString {f : TextBuffer → TextBuffer} {a b : Nat} (hab : ρ .strings a b)
    (hf : TextBuffer.Uniform f) :
    Twin L ρ (Run.update fun s => { s with strings := s.strings.modify a f })
      (Run.update fun t => { t with strings := t.strings.modify b f }) (fun _ _ _ => True) := by
  intro m n halike
  have hbounds := halike.store.bounds hab
  have hstring := halike.store.string hab
  have hleft : ({ m.store with strings := m.store.strings.modify a f } : Store).string a
      = f (m.store.string a) := Store.getD_modify_self hbounds.1 f _
  have hright : ({ n.store with strings := n.store.strings.modify b f } : Store).string b
      = f (n.store.string b) := Store.getD_modify_self hbounds.2 f _
  have hpassage := halike.store.change hab (m.store.modify_strings_changes a f)
    (n.store.modify_strings_changes b f) (by simpa only [Store.Match, hleft, hright] using hf.alike hstring)
    fun _ => by simpa only [hleft, hright] using hf.moves hstring
  exact .ok ⟨hpassage, hpassage.alike, halike.output, halike.input, halike.muted⟩ trivial

theorem ofPrimitive {x : Except Fault α} {y : Except Fault β} (h : Primitive.Agrees (Q ρ) x y) :
    Twin L ρ (Run.ofPrimitive x) (Run.ofPrimitive y) Q := by
  cases h with
  | ok h => exact .pure h
  | error fault => exact .fail fault

theorem consult {f : Store → Except Fault α} {g : Store → Except Fault β}
    (h : ∀ s t, Store.Alike L ρ s t → Primitive.Agrees (Q ρ) (f s) (g t)) :
    Twin L ρ (Run.consult f) (Run.consult g) Q := by
  intro m n halike
  exact ofPrimitive (h m.store n.store halike.store) m n halike

theorem print (text : String) : Twin L ρ (Run.print text) (Run.print text) (fun _ _ _ => True) := by
  intro m n halike
  obtain ⟨store, output, input, muted⟩ := m
  obtain ⟨store', output', input', muted'⟩ := n
  obtain ⟨hstore, rfl, rfl, rfl⟩ := halike
  cases muted with
  | true => exact .ok (.refl ⟨hstore, rfl, rfl, rfl⟩) trivial
  | false => exact .ok ⟨.refl hstore, hstore, rfl, rfl, rfl⟩ trivial

theorem nextLine : Twin L ρ Run.nextLine Run.nextLine (fun _ a b => a = b) := by
  intro m n halike
  obtain ⟨store, output, input, muted⟩ := m
  obtain ⟨store', output', input', muted'⟩ := n
  obtain ⟨hstore, rfl, rfl, rfl⟩ := halike
  cases input with
  | nil => exact .ok (.refl ⟨hstore, rfl, rfl, rfl⟩) rfl
  | cons line input => exact .ok ⟨.refl hstore, hstore, rfl, rfl, rfl⟩ rfl

theorem catchBreak {x y : Run Value} (h : Twin L ρ x y Value.Alike) :
    Twin L ρ (Run.catchBreak x) (Run.catchBreak y) Value.Alike := by
  intro m n halike
  have hends := h m n halike
  unfold Run.catchBreak
  generalize x m = r at hends ⊢
  generalize y n = r' at hends ⊢
  cases hends with
  | ok hpassage hab => exact .ok hpassage hab
  | error hpassage hi =>
    cases hi with
    | breakLoop _ => exact .ok hpassage .null
    | failure hf => exact .error hpassage (.failure hf)
    | exhausted => exact .error hpassage .exhausted

theorem located {c c' : Option Context} (hcontext : L.placed → c = c') {l l' : Option Location}
    (hplace : L.place l l') (h : Twin L ρ x y Q) :
    Twin L ρ (Run.located c l x) (Run.located c' l' y) Q := by
  intro m n halike
  have hends := h m n halike
  unfold Run.located
  generalize x m = r at hends ⊢
  generalize y n = r' at hends ⊢
  cases hends with
  | ok hpassage hab => exact .ok hpassage hab
  | error hpassage hi =>
    cases hi with
    | breakLoop hl => exact .error hpassage (.breakLoop hl)
    | failure hf => exact .error hpassage (.failure (hf.locate hcontext hplace))
    | exhausted => exact .error hpassage .exhausted

theorem refuseBreak {c c' : Option Context} (hcontext : L.placed → c = c') (h : Twin L ρ x y Q) :
    Twin L ρ (Run.refuseBreak c x) (Run.refuseBreak c' y) Q := by
  intro m n halike
  have hends := h m n halike
  unfold Run.refuseBreak
  generalize x m = r at hends ⊢
  generalize y n = r' at hends ⊢
  cases hends with
  | ok hpassage hab => exact .ok hpassage hab
  | error hpassage hi =>
    cases hi with
    | breakLoop hl => exact .error hpassage (.failure (.ofBreak hcontext hl))
    | failure hf => exact .error hpassage (.failure hf)
    | exhausted => exact .error hpassage .exhausted

theorem atStores (h : Twin L ρ x y Q) : TwinAt L ρ s t x y Q :=
  fun m n _ _ halike => h m n halike

/--
A look at the stores, followed by something that depends on what the stores are at this moment.
-/
theorem inspectThen {f : Store → α} {g : Store → β} {k : α → Run γ} {k' : β → Run δ}
    (h : ∀ s t, Store.Alike L ρ s t → TwinAt L ρ s t (k (f s)) (k' (g t)) R) :
    Twin L ρ (Run.inspect f >>= k) (Run.inspect g >>= k') R :=
  fun m n halike => h m.store n.store halike.store m n rfl rfl halike

end Twin

namespace TwinAt

variable {Q : Renaming → α → β → Prop} {R : Renaming → γ → δ → Prop} {x : Run α} {y : Run β}

theorem bind {f : α → Run γ} {g : β → Run δ} (h : TwinAt L ρ s t x y Q)
    (hfg : ∀ ρ' s' t' a b, s.Passage L ρ ρ' t s' t' → Q ρ' a b → TwinAt L ρ' s' t' (f a) (g b) R) :
    TwinAt L ρ s t (x >>= f) (y >>= g) R := by
  rintro m n rfl rfl halike
  have hends := h m n rfl rfl halike
  generalize hx : x m = r at hends
  generalize hy : y n = r' at hends
  cases hends with
  | @ok ρ' a b m' n' hpassage hab =>
    rw [bind_ok hx, bind_ok hy]
    exact (hfg ρ' _ _ a b hpassage.store hab m' n' rfl rfl hpassage.alike).after hpassage
  | error hpassage hi =>
    rw [bind_error hx, bind_error hy]
    exact .error hpassage hi

theorem inspect {f : Store → α} {g : Store → β} (h : Q ρ (f s) (g t)) :
    TwinAt L ρ s t (Run.inspect f) (Run.inspect g) Q := by
  rintro m n rfl rfl halike
  exact .ok (.refl halike) h

theorem consult {f : Store → Except Fault α} {g : Store → Except Fault β}
    (h : Primitive.Agrees (Q ρ) (f s) (g t)) :
    TwinAt L ρ s t (Run.consult f) (Run.consult g) Q := by
  rintro m n rfl rfl halike
  exact Twin.ofPrimitive h m n halike

end TwinAt

end Run

end LispScript
