import CommandConsole.Path
import Mathlib.Data.List.TakeWhile

/-!
# The parts of a list that is cut

A path is cut at its slashes and a line at its bare pipes.  Neither kind of part holds the
separator, and a part holds members of the list only.  Any other member of the list stands in one
of the parts, behind the parts before it.

A text that is not cut but scanned falls into runs of one kind of characters (`exists_run`).
-/

namespace CommandConsole

/-- A run of one kind of members in front, and what stands behind it. -/
theorem exists_run {α : Type} (p : α → Bool) (l : List α) :
    ∃ w rest, l = w ++ rest ∧ (∀ x ∈ w, p x = true) ∧ ∀ x, rest.head? = some x → p x = false := by
  refine ⟨l.takeWhile p, l.dropWhile p, List.takeWhile_append_dropWhile.symm,
    fun x hx => List.mem_takeWhile_imp hx, fun x hx => ?_⟩
  have stops := List.head?_dropWhile_not p l
  rw [hx] at stops
  exact stops

variable {α : Type} [BEq α] [LawfulBEq α] {sep x : α} {l part : List α}

/-- What the parts of a list look like that is cut. -/
theorem mem_splitOn_cons (h : part ∈ (x :: l).splitOn sep) :
    part = [] ∨ part ∈ l.splitOn sep ∨ ∃ p ∈ l.splitOn sep, part = x :: p ∧ x ≠ sep := by
  rw [List.splitOn_cons_eq_if_modifyHead] at h
  by_cases hx : x = sep
  · rw [if_pos (by simpa using hx)] at h
    exact (List.mem_cons.1 h).imp_right .inl
  · obtain ⟨first, later, parts⟩ := List.exists_cons_of_ne_nil (List.splitOn_ne_nil sep l)
    rw [if_neg (by simpa using hx), parts] at h
    rw [parts]
    rcases List.mem_cons.1 h with rfl | h
    · exact .inr (.inr ⟨first, List.mem_cons_self, rfl, hx⟩)
    · exact .inr (.inl (.tail _ h))

/-- No part of a list that is cut holds the separator. -/
theorem not_mem_of_mem_splitOn (h : part ∈ l.splitOn sep) : sep ∉ part := by
  induction l generalizing part with
  | nil =>
      rw [List.splitOn_nil, List.mem_singleton] at h
      rw [h]
      exact List.not_mem_nil
  | cons x l ih =>
      rcases mem_splitOn_cons h with rfl | h | ⟨p, hp, rfl, hx⟩
      · exact List.not_mem_nil
      · exact ih h
      · exact List.not_mem_cons_of_ne_of_not_mem (Ne.symm hx) (ih hp)

/-- The parts of a list hold its members only. -/
theorem subset_of_mem_splitOn (h : part ∈ l.splitOn sep) : part ⊆ l := by
  induction l generalizing part with
  | nil =>
      rw [List.splitOn_nil, List.mem_singleton] at h
      rw [h]
      exact List.nil_subset _
  | cons x l ih =>
      rcases mem_splitOn_cons h with rfl | h | ⟨p, hp, rfl, -⟩
      · exact List.nil_subset _
      · exact List.subset_cons_of_subset x (ih h)
      · exact List.cons_subset_cons x (ih hp)

/-- A member of a list other than the separator stands in one of the parts that the list is cut
into, behind those before it and their separators. -/
theorem exists_part_of_splitOn (hx : x ≠ sep) (before after : List α) : ∃ front left right back,
      (before ++ x :: after).splitOn sep = front ++ (left ++ x :: right) :: back ∧
        before = front.flatMap (· ++ [sep]) ++ left := by
  induction before with
  | nil =>
      obtain ⟨first, later, parts⟩ := List.exists_cons_of_ne_nil (List.splitOn_ne_nil sep after)
      refine ⟨[], [], first, later, ?_, rfl⟩
      rw [List.nil_append, List.splitOn_cons_eq_if_modifyHead, if_neg (by simpa using hx), parts]
      rfl
  | cons y before ih =>
      obtain ⟨front, left, right, back, parts, rfl⟩ := ih
      rw [List.cons_append, List.splitOn_cons_eq_if_modifyHead, parts]
      by_cases hy : y = sep
      · subst hy
        exact ⟨[] :: front, left, right, back, by simp, by simp⟩
      · rw [if_neg (by simpa using hy)]
        cases front with
        | nil => exact ⟨[], y :: left, right, back, rfl, rfl⟩
        | cons first front => exact ⟨(y :: first) :: front, left, right, back, rfl, rfl⟩

end CommandConsole
