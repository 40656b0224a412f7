import Mathlib.Algebra.Order.Floor.Div
import Mathlib.Data.List.Basic

/-!
# BvexLink.Lists.Slice

Python's `l[start:stop]`, and the slices of one width that tile a list.

* `slice_chunk`: a slice of bounds that are not negative, with its end clamped or not.
* `flatMap_chunks`: the first slices of a width, one after the other.
* `length_chunk_of_lt`, `length_last_chunk`, `chunk_of_le`: how long they are.
* `flatMap_all_chunks`: as many as are not empty make up the list.
-/

namespace ListSlice

variable {α : Type}

/-- A bound counts from the end where it is negative. -/
def bound (n : Nat) (z : Int) : Nat := if z < 0 then (z + n).toNat else min z.toNat n

def slice (l : List α) (start stop : Int) : List α :=
  (l.take (bound l.length stop)).drop (bound l.length start)

example : slice [10, 11, 12, 13] 1 3 = [11, 12] ∧ slice [10, 11, 12, 13] (-3) 9 = [11, 12, 13] ∧
    slice [10, 11, 12, 13] 3 1 = [] := by decide

theorem slice_natCast (l : List α) (a b : Nat) : slice l a b = (l.take b).drop a := by
  have ha : bound l.length a = min a l.length := by simp [bound]
  have hb : bound l.length b = min b l.length := by simp [bound]
  rw [slice, ha, hb]
  by_cases hle : a ≤ l.length
  · rw [Nat.min_eq_left hle, List.take_eq_take_min (i := b)]
  · have hlen : (l.take b).length ≤ l.length := List.length_take_le' b l
    rw [Nat.min_eq_right (by omega), ← List.take_eq_take_min, List.drop_eq_nil_of_le hlen,
      List.drop_eq_nil_of_le (by omega)]

/-- The slice `i` of width `k`. -/
def chunk (l : List α) (k i : Nat) : List α := (l.take ((i + 1) * k)).drop (i * k)

theorem slice_chunk (l : List α) (k i : Nat) :
    slice l (i * k) (min l.length ((i + 1) * k)) = chunk l k i := by
  have hmin : ∀ n m : Nat, min (n : Int) m = ((min m n : Nat) : Int) := by omega
  have hstart : (i * k : Int) = ((i * k : Nat) : Int) := by push_cast; rfl
  have hstop : ((i + 1) * k : Int) = (((i + 1) * k : Nat) : Int) := by push_cast; rfl
  rw [hstart, hstop, hmin, slice_natCast, ← List.take_eq_take_min, chunk]

theorem flatMap_chunks (l : List α) (k n : Nat) :
    (List.range n).flatMap (chunk l k) = l.take (n * k) := by
  induction n with
  | zero => simp
  | succ n ih =>
    have hle : n * k ≤ (n + 1) * k := Nat.mul_le_mul_right k (Nat.le_succ n)
    have htake : l.take (n * k) = (l.take ((n + 1) * k)).take (n * k) := by
      rw [List.take_take, Nat.min_eq_left hle]
    rw [List.range_succ, List.flatMap_append, ih, List.flatMap_singleton, chunk, htake,
      List.take_append_drop]

theorem length_chunk (l : List α) (k i : Nat) :
    (chunk l k i).length = min k (l.length - i * k) := by
  rw [chunk, List.length_drop, List.length_take, Nat.add_mul, Nat.one_mul]
  omega

/-- `⌈length / k⌉` of them have something in them. -/
theorem lt_ceilDiv_iff {n k i : Nat} (hk : 0 < k) : i < n ⌈/⌉ k ↔ i * k < n := by
  rw [← not_le, ceilDiv_le_iff_le_mul hk, not_le, Nat.mul_comm]

theorem length_chunk_of_lt {l : List α} {k i : Nat} (hk : 0 < k) (hi : i + 1 < l.length ⌈/⌉ k) :
    (chunk l k i).length = k := by
  have hlt := (lt_ceilDiv_iff hk).mp hi
  rw [Nat.add_mul, Nat.one_mul] at hlt
  rw [length_chunk]
  omega

theorem length_last_chunk {l : List α} {k i : Nat} (hk : 0 < k) (hi : i + 1 = l.length ⌈/⌉ k) :
    1 ≤ (chunk l k i).length ∧ (chunk l k i).length ≤ k := by
  have hlt := (lt_ceilDiv_iff (n := l.length) hk).mp (Nat.lt_of_succ_le hi.le)
  rw [length_chunk]
  omega

theorem chunk_of_le {l : List α} {k i : Nat} (hk : 0 < k) (hi : l.length ⌈/⌉ k ≤ i) :
    chunk l k i = [] := by
  have hle := mt (lt_ceilDiv_iff hk).mpr (Nat.not_lt.mpr hi)
  rw [← List.length_eq_zero_iff, length_chunk]
  omega

/-- All of them make up the list. -/
theorem flatMap_all_chunks (l : List α) {k : Nat} (hk : 0 < k) :
    (List.range (l.length ⌈/⌉ k)).flatMap (chunk l k) = l := by
  rw [flatMap_chunks, List.take_of_length_le]
  rw [Nat.mul_comm]
  exact (ceilDiv_le_iff_le_mul hk).mp (Nat.le_refl _)

end ListSlice
