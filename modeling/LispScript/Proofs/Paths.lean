import LispScript.Disk.Path
import LispScript.Proofs.Splitting
import Mathlib.Logic.Relation

/-!
This module contains absolute paths as lists of names. Such a path leads from the root to a directory, and to
ask for the directory that a path is in again and again takes back one name after the other, up to the root.
-/

namespace LispScript

namespace Path

/--
The name stands for itself in a path.
-/
structure Ordinary (name : String) : Prop where
  nonempty : name ≠ ""
  notHere : name ≠ "."
  notAbove : name ≠ ".."
  slashless : '/' ∉ name.toList

/--
The absolute path that goes through the names.
-/
def ofNames (names : List String) : String :=
  "/" ++ "/".intercalate names

/--
The names that an absolute path goes through, after those that it takes back have been left out.
-/
def names (p : String) : List String :=
  ((parts p).foldl (addPart true) []).reverse

variable {ns : List String} {p n : String}

/-! Parts. -/

theorem parts_ordinary (h : Ordinary n) : parts n = [n] := by
  rw [parts, List.splitOn_eq_singleton h.slashless, List.map_singleton, String.ofList_toList]

theorem slashless_of_mem_parts {part : String} (h : part ∈ parts p) : '/' ∉ part.toList := by
  obtain ⟨cs, hcs, rfl⟩ := List.mem_map.1 h
  rw [String.toList_ofList]
  exact notMem_of_mem_splitOn hcs

/-! Names. -/

theorem addPart_ordinary (h : Ordinary n) (done : List String) : addPart true done n = n :: done := by
  unfold addPart
  rw [if_neg (by simp [h.nonempty, h.notHere]), if_neg h.notAbove]

theorem addPart_names {done : List String} {part : String} (hdone : ∀ n ∈ done, Ordinary n)
    (hpart : '/' ∉ part.toList) : ∀ n ∈ addPart true done part, Ordinary n := by
  unfold addPart
  split
  . exact hdone
  . next hskip =>
    obtain ⟨hempty, hhere⟩ := not_or.1 hskip
    split
    . split
      . exact hdone
      . exact absurd rfl (hdone ".." List.mem_cons_self).notAbove
      . exact fun n hn => hdone n (List.mem_cons_of_mem _ hn)
    . next habove => exact List.forall_mem_cons.2 ⟨⟨hempty, hhere, habove, hpart⟩, hdone⟩

theorem names_ordinary (p : String) : ∀ n ∈ names p, Ordinary n := by
  have hfold : ∀ (ps done : List String), (∀ part ∈ ps, '/' ∉ part.toList) → (∀ n ∈ done, Ordinary n) →
      ∀ n ∈ ps.foldl (addPart true) done, Ordinary n := by
    intro ps
    induction ps with
    | nil => exact fun done _ hdone => hdone
    | cons part ps ih =>
      intro done hparts hdone
      rw [List.forall_mem_cons] at hparts
      exact ih _ hparts.2 (addPart_names hdone hparts.1)
  intro n hn
  exact hfold (parts p) [] (fun _ => slashless_of_mem_parts) (by simp) n (List.mem_reverse.1 hn)

theorem clean_eq (h : isAbsolute p) : clean p = ofNames (names p) := by
  rw [clean, h]
  rfl

theorem names_append (s : String) (h : Ordinary n) : names (s ++ "/" ++ n) = names s ++ [n] := by
  rw [names, parts_append, parts_ordinary h, List.foldl_append, List.foldl_cons, List.foldl_nil,
    addPart_ordinary h, List.reverse_cons]
  rfl

theorem names_append_slash (s : String) : names (s ++ "/") = names s := by
  have hslash : s ++ "/" = s ++ "/" ++ "" := by
    simp
  rw [hslash, names, parts_append, List.foldl_append]
  rfl

/--
The path without the slash at its end that the root has.
-/
theorem ofNames_append (ns : List String) (n : String) :
    ofNames (ns ++ [n]) = (if ns = [] then "" else ofNames ns) ++ "/" ++ n := by
  split
  . next h =>
    rw [h]
    simp [ofNames]
  . next h =>
    rw [ofNames, ofNames, String.intercalate_append_of_ne_nil h (by simp), String.intercalate_singleton]
    simp [String.append_assoc]

theorem names_ofNames (h : ∀ n ∈ ns, Ordinary n) : names (ofNames ns) = ns := by
  induction ns using List.reverseRecOn with
  | nil => rfl
  | append_singleton ns n ih =>
    obtain ⟨hns, hn⟩ := List.forall_mem_append.1 h
    rw [ofNames_append, names_append _ (hn n List.mem_cons_self)]
    split
    . next hempty =>
      rw [hempty]
      rfl
    . rw [ih hns]

theorem ofNames_injective {ms : List String} (hms : ∀ n ∈ ms, Ordinary n) (hns : ∀ n ∈ ns, Ordinary n)
    (h : ofNames ms = ofNames ns) : ms = ns := by
  rw [← names_ofNames hms, h, names_ofNames hns]

theorem join_ofNames (ns : List String) (hns : ∀ n ∈ ns, Ordinary n) (h : Ordinary n) :
    join (ofNames ns) n = ofNames (ns ++ [n]) := by
  have habsolute : isAbsolute (ofNames ns ++ "/" ++ n) := by
    rw [ofNames, String.append_assoc, String.append_assoc]
    exact isAbsolute_iff.2 ⟨_, rfl⟩
  rw [join, if_neg h.nonempty, clean_eq habsolute, names_append _ h, names_ofNames hns]

theorem parts_ofNames (h : ∀ n ∈ ns, Ordinary n) (hne : ns ≠ []) : parts (ofNames ns) = "" :: ns := by
  induction ns using List.reverseRecOn with
  | nil => exact absurd rfl hne
  | append_singleton ns n ih =>
    obtain ⟨hns, hn⟩ := List.forall_mem_append.1 h
    rw [ofNames_append, parts_append, parts_ordinary (hn n List.mem_cons_self)]
    split
    . next hempty =>
      rw [hempty]
      rfl
    . next hne =>
      rw [ih hns hne]
      rfl

/-! Directories above. -/

theorem directory_append (s : String) (h : Ordinary n) (habsolute : isAbsolute (s ++ "/")) :
    directory (s ++ "/" ++ n) = ofNames (names s) := by
  have htext : (s ++ "/" ++ n).toList.reverse = n.toList.reverse ++ '/' :: s.toList.reverse := by
    simp
  have hdrop : (s ++ "/" ++ n).toList.reverse.dropWhile (· != '/') = '/' :: s.toList.reverse := by
    rw [htext, List.dropWhile_append_of_pos]
    . rfl
    . intro c hc
      have : c ≠ '/' := by
        rintro rfl
        exact h.slashless (List.mem_reverse.1 hc)
      simpa using this
  have hrest : String.ofList ('/' :: s.toList.reverse).reverse = s ++ "/" := by
    rw [List.reverse_cons, List.reverse_reverse, String.ofList_append, String.ofList_toList]
  rw [directory, hdrop, hrest, clean_eq habsolute, names_append_slash]

theorem directory_root : directory (ofNames []) = ofNames [] := by
  decide +kernel

theorem directory_ofNames (hns : ∀ n ∈ ns, Ordinary n) (h : Ordinary n) :
    directory (ofNames (ns ++ [n])) = ofNames ns := by
  rw [ofNames_append]
  split
  . next hempty =>
    rw [hempty, directory_append "" h (by decide +kernel)]
    rfl
  . have habsolute : isAbsolute (ofNames ns ++ "/") := by
      rw [ofNames, String.append_assoc]
      exact isAbsolute_iff.2 ⟨_, rfl⟩
    rw [directory_append _ h habsolute, names_ofNames hns]

theorem directory_ne (hns : ∀ n ∈ ns, Ordinary n) (h : Ordinary n) :
    directory (ofNames (ns ++ [n])) ≠ ofNames (ns ++ [n]) := by
  intro hsame
  rw [directory_ofNames hns h] at hsame
  have hall : ∀ m ∈ ns ++ [n], Ordinary m := List.forall_mem_append.2 ⟨hns, by simpa using h⟩
  have hnames := ofNames_injective hns hall hsame
  simp at hnames

/--
One gets from the path `p` to `q` by asking for the directory again and again.
-/
def Above : String → String → Prop :=
  Relation.ReflTransGen fun p q => q = directory p

theorem above_iff {q : String} : Above p q ↔ p = q ∨ Above (directory p) q := by
  rw [Above, Relation.ReflTransGen.cases_head_iff, exists_eq_left]

theorem above_total {q r : String} (hq : Above p q) (hr : Above p r) : Above q r ∨ Above r q :=
  hq.total_of_right_unique (fun _ _ _ h h' => h.trans h'.symm) hr

theorem above_root {q : String} (h : Above (ofNames []) q) : q = ofNames [] := by
  induction h with
  | refl => rfl
  | tail _ hstep ih => rw [hstep, ih, directory_root]

theorem Above.isPrefix (hns : ∀ n ∈ ns, Ordinary n) {q : String} (h : Above (ofNames ns) q) :
    ∃ ms, ms <+: ns ∧ q = ofNames ms := by
  induction h with
  | refl => exact ⟨ns, List.prefix_rfl, rfl⟩
  | tail _ hstep ih =>
    obtain ⟨ms, hms, rfl⟩ := ih
    rw [hstep]
    have hordinary : ∀ n ∈ ms, Ordinary n := fun n hn => hns n (hms.subset hn)
    rcases List.eq_nil_or_concat ms with rfl | ⟨front, n, rfl⟩
    . exact ⟨[], hms, directory_root⟩
    . rw [List.concat_eq_append, List.forall_mem_append] at hordinary
      refine ⟨front, ?_, ?_⟩
      . exact (List.prefix_append front [n]).trans (by simpa using hms)
      . rw [List.concat_eq_append, directory_ofNames hordinary.1 (hordinary.2 n List.mem_cons_self)]

theorem above_of_isPrefix (hns : ∀ n ∈ ns, Ordinary n) {ms : List String} (h : ms <+: ns) :
    Above (ofNames ns) (ofNames ms) := by
  obtain ⟨ks, rfl⟩ := h
  induction ks using List.reverseRecOn with
  | nil =>
    rw [List.append_nil]
    exact .refl
  | append_singleton ks k ih =>
    rw [← List.append_assoc, List.forall_mem_append] at hns
    rw [← List.append_assoc, above_iff, directory_ofNames hns.1 (hns.2 k List.mem_cons_self)]
    exact .inr (ih hns.1)

theorem above_ofNames_iff (hns : ∀ n ∈ ns, Ordinary n) {ms : List String} (hms : ∀ n ∈ ms, Ordinary n) :
    Above (ofNames ns) (ofNames ms) ↔ ms <+: ns := by
  refine ⟨fun h => ?_, above_of_isPrefix hns⟩
  obtain ⟨ks, hks, heq⟩ := h.isPrefix hns
  rwa [ofNames_injective hms (fun n hn => hns n (hks.subset hn)) heq]

/--
No path is above itself in a circle.
-/
theorem Above.antisymm (hns : ∀ n ∈ ns, Ordinary n) {q : String} (h : Above (ofNames ns) q)
    (h' : Above q (ofNames ns)) : q = ofNames ns := by
  obtain ⟨ms, hms, rfl⟩ := h.isPrefix hns
  have hms' : ∀ n ∈ ms, Ordinary n := fun n hn => hns n (hms.subset hn)
  obtain ⟨ks, hks, heq⟩ := h'.isPrefix hms'
  have hks' : ks = ns := (ofNames_injective hns (fun n hn => hms' n (hks.subset hn)) heq).symm
  rw [hks'] at hks
  rw [hms.eq_of_length_le hks.length_le]

theorem Above.eq (hns : ∀ n ∈ ns, Ordinary n) {q : String} (hp : Above (ofNames ns) p) (h : Above p q)
    (h' : Above q p) : p = q := by
  obtain ⟨ms, hms, rfl⟩ := hp.isPrefix hns
  exact (h.antisymm (fun n hn => hns n (hms.subset hn)) h').symm

end Path

end LispScript
