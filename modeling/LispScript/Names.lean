/-!
Names in increasing order, by their code points, each of them once.
-/

namespace LispScript

def insertName (name : String) : List String → List String
  | [] => [name]
  | n :: rest =>
    if name < n then name :: n :: rest
    else if name = n then n :: rest
    else n :: insertName name rest

def sortNames (names : List String) : List String :=
  names.foldr insertName []

theorem mem_insertName (name n : String) (names : List String) :
    n ∈ insertName name names ↔ n = name ∨ n ∈ names := by
  induction names with
  | nil => simp [insertName]
  | cons m rest ih =>
    rw [insertName]
    split
    . exact List.mem_cons
    . split
      . next heq => simp [heq]
      . rw [List.mem_cons, ih, List.mem_cons, or_left_comm]

theorem mem_sortNames (n : String) (names : List String) : n ∈ sortNames names ↔ n ∈ names := by
  induction names with
  | nil => rfl
  | cons name rest ih =>
    rw [sortNames, List.foldr_cons, mem_insertName, ← sortNames, ih, List.mem_cons]

theorem pairwise_insertName (name : String) {names : List String} (h : names.Pairwise (· < ·)) :
    (insertName name names).Pairwise (· < ·) := by
  induction names with
  | nil => exact List.pairwise_singleton _ _
  | cons m rest ih =>
    obtain ⟨hm, hrest⟩ := List.pairwise_cons.1 h
    rw [insertName]
    split
    . next hlt =>
      apply List.pairwise_cons.2 ⟨_, h⟩
      intro n hn
      cases List.mem_cons.1 hn with
      | inl heq => exact heq ▸ hlt
      | inr hn => exact String.lt_trans hlt (hm n hn)
    . next hlt =>
      split
      . exact h
      . next hne =>
        have hgt : m < name := Decidable.byContradiction fun hgt => hne (String.le_antisymm hgt hlt)
        apply List.pairwise_cons.2 ⟨_, ih hrest⟩
        intro n hn
        cases (mem_insertName name n rest).1 hn with
        | inl heq => exact heq ▸ hgt
        | inr hn => exact hm n hn

theorem pairwise_sortNames (names : List String) : (sortNames names).Pairwise (· < ·) := by
  induction names with
  | nil => exact .nil
  | cons name rest ih => exact pairwise_insertName name ih

/--
The order that names come in is of no account, nor how often they come.
-/
theorem sortNames_congr {names names' : List String} (h : ∀ n, n ∈ names ↔ n ∈ names') :
    sortNames names = sortNames names' := by
  have hmem (n : String) : n ∈ sortNames names ↔ n ∈ sortNames names' := by
    rw [mem_sortNames, mem_sortNames, h]
  have hnodup (names : List String) : (sortNames names).Nodup := by
    apply (pairwise_sortNames names).imp
    rintro a _ hlt rfl
    exact String.lt_irrefl a hlt
  have hperm := (List.perm_ext_iff_of_nodup (hnodup names) (hnodup names')).2 hmem
  exact hperm.eq_of_pairwise (fun _ _ _ _ hab hba => absurd hba (String.lt_asymm hab))
    (pairwise_sortNames names) (pairwise_sortNames names')

end LispScript
