import Mathlib.Data.List.Nodup

/-!
# BvexLink.Trace.Descriptors

The descriptors of a process. A number is used again once it is closed, so each opening has a
number of its own, and what has been closed is a list of openings.

* `close_opened`: what is opened and closed again leaves the descriptors there were.
* `close_absent`: a number that is not open closes nothing.
* `Settled`: which openings have been closed, and that each has been once.
-/

namespace Trace
namespace Descriptors

/-- `live` has the open descriptors, each with its opening; `closed` the openings that have ended,
in order. -/
@[ext] structure Table where
  live : List (Nat × Nat)
  opened : Nat
  closed : List Nat
  nodup : (live.map (·.1)).Nodup
  bounded : ∀ n ∈ live.map (·.2) ++ closed, n < opened

namespace Table

def numbers (t : Table) : List Nat := t.live.map (·.1)

/-- A descriptor that is not open is opened. -/
def opening (t : Table) (fd : Nat) (h : fd ∉ t.numbers) : Table where
  live := (fd, t.opened) :: t.live
  opened := t.opened + 1
  closed := t.closed
  nodup := List.nodup_cons.mpr ⟨h, t.nodup⟩
  bounded := by
    intro n hn
    rcases List.mem_cons.mp hn with rfl | hn
    · exact Nat.lt_succ_self _
    · exact Nat.lt_succ_of_lt (t.bounded n hn)

/-- `close(fd)`; an error, and nothing else, if `fd` is not open. -/
def close (t : Table) (fd : Int) : Table where
  live := t.live.filter fun x => (x.1 : Int) != fd
  opened := t.opened
  closed := t.closed ++ (t.live.filter fun x => (x.1 : Int) == fd).map (·.2)
  nodup := t.nodup.sublist (List.filter_sublist.map _)
  bounded := by
    intro n hn
    refine t.bounded n ?_
    simp only [List.mem_append, List.mem_map, List.mem_filter] at hn ⊢
    rcases hn with ⟨x, hx, hxn⟩ | hn | ⟨x, hx, hxn⟩
    · exact .inl ⟨x, hx.1, hxn⟩
    · exact .inr hn
    · exact .inl ⟨x, hx.1, hxn⟩

/-- This many have been opened since, and each closed again. -/
def used (t : Table) (m : Nat) : Table where
  live := t.live
  opened := t.opened + m
  closed := t.closed ++ List.range' t.opened m
  nodup := t.nodup
  bounded := by
    intro n hn
    rw [← List.append_assoc, List.mem_append, List.mem_range'_1] at hn
    rcases hn with hn | hn
    · exact Nat.lt_add_right m (t.bounded n hn)
    · exact hn.2

@[simp] theorem used_zero (t : Table) : t.used 0 = t := by
  ext1 <;> simp [used]

@[simp] theorem used_live (t : Table) (m : Nat) : (t.used m).live = t.live := rfl

/-- Each of them once, and no later opening. -/
theorem count_used (t : Table) (m : Nat) {n : Nat} (hn : t.opened ≤ n) :
    (t.used m).closed.count n = if n < t.opened + m then 1 else 0 := by
  have hold : t.closed.count n = 0 := List.count_eq_zero.mpr fun hmem =>
    Nat.not_lt.mpr hn (t.bounded n (List.mem_append_right _ hmem))
  rw [used, List.count_append, hold, Nat.zero_add, List.count_range_1']
  simp [hn]

theorem used_used (t : Table) (m : Nat) : (t.used m).used 1 = t.used (m + 1) := by
  ext1
  · rfl
  · rfl
  · simp [used, List.range'_concat]

/-- What `close` keeps and what it ends, where the number is not open. -/
theorem filter_absent {t : Table} {fd : Int} (h : ∀ n ∈ t.numbers, (n : Int) ≠ fd) :
    t.live.filter (fun x => (x.1 : Int) != fd) = t.live ∧
      t.live.filter (fun x => (x.1 : Int) == fd) = [] := by
  have hne : ∀ x ∈ t.live, (x.1 : Int) ≠ fd := fun x hx => h x.1 (List.mem_map_of_mem hx)
  exact ⟨List.filter_eq_self.mpr fun x hx => by simp [hne x hx],
    List.filter_eq_nil_iff.mpr fun x hx => by simp [hne x hx]⟩

theorem close_absent {t : Table} {fd : Int} (h : ∀ n ∈ t.numbers, (n : Int) ≠ fd) :
    t.close fd = t := by
  obtain ⟨hkept, hended⟩ := filter_absent h
  ext1
  · exact hkept
  · rfl
  · simp [close, hended]

/-- No descriptor is a negative number. -/
theorem close_neg (t : Table) {fd : Int} (h : fd < 0) : t.close fd = t :=
  close_absent fun n _ => by omega

theorem close_opened (t : Table) {fd : Nat} (h : fd ∉ t.numbers) :
    (t.opening fd h).close fd = t.used 1 := by
  have hne : ∀ n ∈ t.numbers, (n : Int) ≠ fd := fun n hn heq => h (Int.ofNat_inj.mp heq ▸ hn)
  obtain ⟨hkept, hended⟩ := filter_absent hne
  ext1
  · simp [close, opening, hkept]
  · rfl
  · simp [close, opening, used, hended]

/-! ## What has become of the openings -/

/-- Since `t`, the openings of `kept` are open and have not been closed, every other one has been
closed exactly once, and what was there before is as it was. -/
structure Settled (t t' : Table) (kept : List (Nat × Nat)) : Prop where
  live : t'.live = kept ++ t.live
  before : ∀ n < t.opened, t'.closed.count n = t.closed.count n
  once : ∀ n, t.opened ≤ n → n < t'.opened → n ∉ kept.map (·.2) → t'.closed.count n = 1
  notClosed : ∀ x ∈ kept, t.opened ≤ x.2 ∧ x.2 < t'.opened ∧ t'.closed.count x.2 = 0

theorem settled_used (t : Table) (m : Nat) : Settled t (t.used m) [] where
  live := rfl
  before n hn := by
    rw [used, List.count_append, List.count_range_1']
    simp [Nat.not_le.mpr hn]
  once n hle hlt _ := by
    rw [count_used t m hle]
    exact if_pos hlt
  notClosed := nofun

theorem settled_opening (t : Table) (m : Nat) {fd : Nat} (h : fd ∉ (t.used m).numbers) :
    Settled t ((t.used m).opening fd h) [(fd, t.opened + m)] where
  live := rfl
  before := (settled_used t m).before
  once n hle hlt hne := by
    have hne : n ≠ t.opened + m := by simpa using hne
    have hlt : n < t.opened + m + 1 := hlt
    exact (settled_used t m).once n hle (show n < t.opened + m by omega) (by simp)
  notClosed x hx := by
    rw [List.mem_singleton.mp hx]
    refine ⟨Nat.le_add_right _ _, Nat.lt_succ_self _, ?_⟩
    exact (count_used t m (Nat.le_add_right _ _)).trans (if_neg (Nat.lt_irrefl _))

end Table
end Descriptors
end Trace
