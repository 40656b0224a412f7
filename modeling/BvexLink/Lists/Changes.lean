import Mathlib.Data.List.Induction

/-!
# BvexLink.Lists.Changes

A list with its consecutive equal elements collapsed, each run of them to its first.

* `changes_concat`: an element at the end is compared with the one before it.
* `changes_concat_last`: or with the last one kept, where the comparison is an equivalence.
-/

namespace ListChanges

variable {α : Type} {r : α → α → Bool}

/-- The elements of `xs` that are not equal to the one before; `x` comes before the first. -/
def changesFrom (r : α → α → Bool) : α → List α → List α
  | _, [] => []
  | x, y :: xs => if r y x then changesFrom r y xs else y :: changesFrom r y xs

def changes (r : α → α → Bool) : List α → List α
  | [] => []
  | x :: xs => x :: changesFrom r x xs

theorem changesFrom_concat (x : α) (xs : List α) (z : α) :
    changesFrom r x (xs ++ [z]) =
      changesFrom r x xs ++ if r z ((x :: xs).getLast (List.cons_ne_nil _ _)) then [] else [z] := by
  induction xs generalizing x with
  | nil => rfl
  | cons y xs ih =>
    simp only [List.cons_append, changesFrom, ih, List.getLast_cons_cons]
    split
    · rfl
    · rfl

theorem changes_concat (l : List α) (z : α) :
    changes r (l ++ [z]) = changes r l ++ if l.getLast?.any (r z) then [] else [z] := by
  cases l with
  | nil => rfl
  | cons x xs =>
    simp only [List.cons_append, changes, changesFrom_concat]
    rw [List.getLast?_eq_some_getLast (List.cons_ne_nil x xs), Option.any_some]

/-- The last element kept is equal to the last one. -/
theorem getLast?_changes (htrans : ∀ x y z, r x y = true → r y z = true → r x z = true)
    {l : List α} (hrefl : ∀ x ∈ l, r x x = true) :
    Option.Rel (fun x y => r x y = true) l.getLast? (changes r l).getLast? := by
  induction l using List.reverseRecOn with
  | nil => exact .none
  | append_singleton l z ih =>
    have ih := ih fun x hx => hrefl x (List.mem_append_left _ hx)
    rw [changes_concat, List.getLast?_concat]
    cases hl : l.getLast? with
    | none =>
      rw [List.getLast?_eq_none_iff.mp hl]
      exact .some (hrefl z (by simp))
    | some x =>
      rw [hl] at ih
      cases hk : (changes r l).getLast? with
      | none =>
        rw [hk] at ih
        cases ih
      | some y =>
        rw [hk] at ih
        cases ih with
        | some hxy =>
          rw [Option.any_some]
          split
          · rename_i hz
            rw [List.append_nil, hk]
            exact .some (htrans z x y hz hxy)
          · rw [List.getLast?_concat]
            exact .some (hrefl z (by simp))

theorem changes_concat_last (hsymm : ∀ x y, r x y = true → r y x = true)
    (htrans : ∀ x y z, r x y = true → r y z = true → r x z = true) {l : List α}
    (hrefl : ∀ x ∈ l, r x x = true) (z : α) :
    changes r (l ++ [z]) =
      changes r l ++ if (changes r l).getLast?.any (r z) then [] else [z] := by
  have hlast : l.getLast?.any (r z) = (changes r l).getLast?.any (r z) := by
    cases hl : l.getLast? with
    | none =>
      rw [List.getLast?_eq_none_iff.mp hl]
      rfl
    | some x =>
      have hrel := getLast?_changes htrans hrefl
      rw [hl] at hrel
      generalize (changes r l).getLast? = k at hrel ⊢
      cases hrel with
      | some hxy =>
        rw [Option.any_some, Option.any_some, Bool.eq_iff_iff]
        constructor
        · intro hz
          exact htrans _ _ _ hz hxy
        · intro hz
          exact htrans _ _ _ hz (hsymm _ _ hxy)
  rw [changes_concat, hlast]

end ListChanges
