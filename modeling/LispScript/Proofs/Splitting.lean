import Mathlib.Data.List.Induction

/-!
This module contains what a list is split into: as many pieces as there are separators and one more, with no
separator in any of them, and which piece a place in the list is in.
-/

namespace LispScript

variable {α β : Type} [BEq α] [BEq β] {a : α}

/--
It makes no difference whether the elements are replaced before or after, as long as the separators stay apart
from the rest.
-/
theorem map_splitOn {f : α → β} {b : β} (h : ∀ x, (f x == b) = (x == a)) (xs : List α) :
    (xs.splitOn a).map (List.map f) = (xs.map f).splitOn b := by
  induction xs with
  | nil => simp
  | cons x xs ih =>
    rw [List.map_cons, List.splitOn_cons_eq_if_modifyHead, List.splitOn_cons_eq_if_modifyHead, h, ← ih]
    obtain ⟨first, rest, hsplit⟩ := List.exists_cons_of_ne_nil (List.splitOn_ne_nil a xs)
    rw [hsplit]
    split <;> rfl

variable [LawfulBEq α]

theorem length_splitOn (xs : List α) : (xs.splitOn a).length = xs.count a + 1 := by
  induction xs with
  | nil => simp
  | cons x xs ih =>
    rw [List.splitOn_cons_eq_if_modifyHead]
    split
    . next hx => simp [eq_of_beq hx, ih]
    . next hx =>
      rw [Bool.not_eq_true] at hx
      simp [hx, ih, List.count_cons]

theorem notMem_of_mem_splitOn {xs piece : List α} (h : piece ∈ xs.splitOn a) : a ∉ piece := by
  induction xs generalizing piece with
  | nil =>
    rw [List.splitOn_nil, List.mem_singleton] at h
    rw [h]
    exact List.not_mem_nil
  | cons x xs ih =>
    rw [List.splitOn_cons_eq_if_modifyHead] at h
    obtain ⟨first, rest, hsplit⟩ := List.exists_cons_of_ne_nil (List.splitOn_ne_nil a xs)
    rw [hsplit] at h ih
    split at h
    . rw [List.mem_cons] at h
      obtain rfl | h := h
      . exact List.not_mem_nil
      . exact ih h
    . next hx =>
      rw [List.modifyHead_cons, List.mem_cons] at h
      obtain rfl | h := h
      . rw [List.mem_cons, not_or]
        exact ⟨fun heq => hx (by simp [heq]), ih List.mem_cons_self⟩
      . exact ih (List.mem_cons_of_mem first h)

theorem splitOn_first (xs : List α) : (xs.splitOn a)[0]? = some (xs.takeWhile (· != a)) := by
  induction xs with
  | nil => simp
  | cons x xs ih =>
    rw [List.splitOn_cons_eq_if_modifyHead]
    by_cases hx : x = a
    . simp [hx]
    . simp [hx, ih]

/--
Of the line that a place is on, what comes before the place and what comes after it.
-/
theorem splitOn_getElem?_count (before rest : List α) :
    ((before ++ rest).splitOn a)[before.count a]?
      = some ((before.reverse.takeWhile (· != a)).reverse ++ rest.takeWhile (· != a)) := by
  -- From the end, since a character that is no separator can be counted to the rest.
  induction before using List.reverseRecOn generalizing rest with
  | nil => exact splitOn_first rest
  | append_singleton before x ih =>
    rw [List.append_assoc, List.singleton_append, List.reverse_append, List.count_append]
    by_cases hx : x = a
    . rw [hx, List.splitOn_append_cons_self, List.getElem?_append_right (by simp [length_splitOn]),
        length_splitOn]
      simp [splitOn_first]
    . simpa [hx] using ih (x :: rest)

end LispScript
