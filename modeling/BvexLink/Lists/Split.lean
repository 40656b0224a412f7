import Mathlib.Data.List.Basic

/-!
# BvexLink.Lists.Split

The pieces of a list between the occurrences of a separator.

* `splitOn_append`: what is put before a list without the separator goes to its first piece.
* `mem_of_mem_splitOn`: a piece is made of what the list has, the separator aside.
* `head?_splitOn`: the first piece.
-/

namespace ListSplit

variable {α : Type} [BEq α] [LawfulBEq α] {a : α}

theorem splitOn_append {xs : List α} (h : a ∉ xs) (ys : List α) :
    (xs ++ ys).splitOn a = (ys.splitOn a).modifyHead (xs ++ ·) := by
  induction xs with
  | nil =>
    rw [List.nil_append]
    cases ys.splitOn a <;> rfl
  | cons x xs ih =>
    obtain ⟨hx, hxs⟩ := not_or.mp (List.mem_cons.not.mp h)
    rw [List.cons_append, List.splitOn_cons_eq_if_modifyHead, ih hxs,
      if_neg (by simpa using Ne.symm hx)]
    cases ys.splitOn a <;> rfl

theorem mem_of_mem_splitOn {c : α} {xs piece : List α} (hp : piece ∈ xs.splitOn a)
    (hc : c ∈ piece) : c ∈ xs ∧ c ≠ a := by
  induction xs generalizing piece with
  | nil =>
    rw [List.splitOn_nil, List.mem_singleton] at hp
    rw [hp] at hc
    cases hc
  | cons x xs ih =>
    rw [List.splitOn_cons_eq_if_modifyHead] at hp
    split at hp
    · rcases List.mem_cons.mp hp with rfl | hp
      · cases hc
      · exact ⟨List.mem_cons_of_mem _ (ih hp hc).1, (ih hp hc).2⟩
    · rename_i hx
      have hx : x ≠ a := by simpa using hx
      cases hs : xs.splitOn a with
      | nil => exact absurd hs (List.splitOn_ne_nil a xs)
      | cons q qs =>
        rw [hs, List.modifyHead_cons] at hp
        rcases List.mem_cons.mp hp with rfl | hp
        · rcases List.mem_cons.mp hc with rfl | hc
          · exact ⟨List.mem_cons_self .., hx⟩
          · have h := ih (hs ▸ List.mem_cons_self ..) hc
            exact ⟨List.mem_cons_of_mem _ h.1, h.2⟩
        · have h := ih (hs ▸ List.mem_cons_of_mem _ hp) hc
          exact ⟨List.mem_cons_of_mem _ h.1, h.2⟩

/-- Joined again, the only piece is the list. -/
theorem not_mem_of_splitOn_eq_singleton {xs piece : List α} (h : xs.splitOn a = [piece]) :
    a ∉ xs := by
  intro ha
  have hxs : xs = piece := by
    rw [← @List.intercalate_splitOn _ xs _ _ a, h]
    simp [List.intercalate]
  exact (mem_of_mem_splitOn (h ▸ List.mem_singleton_self _) (hxs ▸ ha)).2 rfl

theorem head?_splitOn (a : α) (xs : List α) :
    (xs.splitOn a).head? = some (xs.takeWhile (· != a)) := by
  induction xs with
  | nil => rfl
  | cons x xs ih =>
    rw [List.splitOn_cons_eq_if_modifyHead]
    by_cases hx : x = a
    · simp [hx]
    · simp [hx, ih]

end ListSplit
