import BvexLink.Trace.Descriptors
import Mathlib.Data.List.Perm.Basic

/-!
# BvexLink.Trace.Ownership

What a piece of code has acquired of a process and not yet given back. A process has descriptors and
blocks of memory; releasing one that is not there (a second `close`, a second `free`) is remembered.

* `Held.acquire`, `Held.release`: one table.
* `Owns.opening`, `Owns.close`, `Owns.alloc`, `Owns.free`: one call.
* `Owns.closes`, `Owns.frees`: a list of them.
-/

namespace Trace
namespace Descriptors

/-! ## One table -/

/-- Since `t`, the openings of `kept` are open, and everything else is `Settled`. -/
structure Held (t t' : Table) (kept : List (Nat × Nat)) : Prop extends Table.Settled t t' kept where
  opened : t.opened ≤ t'.opened
  distinct : (kept.map (·.2)).Nodup

theorem held_refl (t : Table) : Held t t [] where
  live := rfl
  before _ _ := rfl
  once _ hle hlt _ := absurd hlt (Nat.not_lt.mpr hle)
  notClosed := nofun
  opened := Nat.le_refl _
  distinct := List.nodup_nil

section Held

variable {t t' : Table} {kept : List (Nat × Nat)}

theorem Held.acquire (h : Held t t' kept) {n : Nat} (hn : n ∉ t'.numbers) :
    Held t (t'.opening n hn) ((n, t'.opened) :: kept) where
  live := congrArg ((n, t'.opened) :: ·) h.live
  before := h.before
  once m hle hlt hne := by
    simp only [List.map_cons, List.mem_cons, not_or] at hne
    have hlt : m < t'.opened + 1 := hlt
    exact h.once m hle (by omega) hne.2
  notClosed x hx := by
    have hnew : t'.closed.count t'.opened = 0 := List.count_eq_zero.mpr fun hmem =>
      Nat.lt_irrefl _ (t'.bounded _ (List.mem_append_right _ hmem))
    rcases List.mem_cons.mp hx with rfl | hx
    · exact ⟨h.opened, Nat.lt_succ_self _, hnew⟩
    · obtain ⟨hle, hlt, hc⟩ := h.notClosed x hx
      exact ⟨hle, Nat.lt_succ_of_lt hlt, hc⟩
  opened := Nat.le_succ_of_le h.opened
  distinct := by
    rw [List.map_cons, List.nodup_cons]
    refine ⟨fun hmem => ?_, h.distinct⟩
    obtain ⟨x, hx, heq⟩ := List.mem_map.mp hmem
    obtain ⟨_, hlt, _⟩ := h.notClosed x hx
    rw [heq] at hlt
    exact Nat.lt_irrefl _ hlt

theorem filter_key {l : List (Nat × Nat)} (hl : (l.map (·.1)).Nodup) {x : Nat × Nat} (hx : x ∈ l) :
    l.filter (fun y => y.1 == x.1) = [x] := by
  induction l with
  | nil => cases hx
  | cons y l ih =>
    rw [List.map_cons, List.nodup_cons] at hl
    rcases List.mem_cons.mp hx with rfl | hx
    · have hrest : l.filter (fun y => y.1 == x.1) = [] := by
        refine List.filter_eq_nil_iff.mpr fun y hy => ?_
        intro heq
        exact hl.1 (List.mem_map.mpr ⟨y, hy, by simpa using heq⟩)
      simp [hrest]
    · have hne : (y.1 == x.1) = false := by
        rw [beq_eq_false_iff_ne]
        intro heq
        exact hl.1 (List.mem_map.mpr ⟨x, hx, heq.symm⟩)
      rw [List.filter_cons, hne, if_neg (by simp)]
      exact ih hl.2 hx

theorem Held.release (h : Held t t' kept) {x : Nat × Nat} (hx : x ∈ kept) :
    Held t (t'.close x.1) (kept.filter fun y => y.1 != x.1) := by
  have hnodup := t'.nodup
  rw [h.live] at hnodup
  have hmem : x ∈ t'.live := by
    rw [h.live]
    exact List.mem_append_left _ hx
  have hended : t'.live.filter (fun y => (y.1 : Int) == x.1) = [x] := by
    rw [← filter_key t'.nodup hmem]
    refine List.filter_congr fun y _ => ?_
    rw [Bool.eq_iff_iff, beq_iff_eq, beq_iff_eq, Int.ofNat_inj]
  have hbefore : t.live.filter (fun y => (y.1 : Int) != x.1) = t.live := by
    refine List.filter_eq_self.mpr fun y hy => ?_
    rw [List.map_append] at hnodup
    have hne := List.disjoint_of_nodup_append hnodup (List.mem_map_of_mem hx)
    rw [bne_iff_ne]
    intro heq
    exact hne (List.mem_map.mpr ⟨y, hy, Int.ofNat_inj.mp heq⟩)
  have hclosed : (t'.close x.1).closed = t'.closed ++ [x.2] := by
    simp [Table.close, hended]
  obtain ⟨hxle, hxlt, hxc⟩ := h.notClosed x hx
  refine ⟨⟨?_, ?_, ?_, ?_⟩, h.opened, h.distinct.sublist (List.filter_sublist.map _)⟩
  · have hlive : (t'.close x.1).live = t'.live.filter fun y => (y.1 : Int) != x.1 := rfl
    rw [hlive, h.live, List.filter_append, hbefore]
    congr 1
    refine List.filter_congr fun y _ => ?_
    rw [bne, bne, Bool.not_inj_iff, Bool.eq_iff_iff, beq_iff_eq, beq_iff_eq, Int.ofNat_inj]
  · intro n hn
    rw [hclosed, List.count_append, h.before n hn, List.count_singleton]
    simp [Nat.ne_of_gt (Nat.lt_of_lt_of_le hn hxle)]
  · intro n hle hlt hne
    rw [hclosed, List.count_append, List.count_singleton]
    by_cases hnx : x.2 = n
    · subst hnx
      simp [hxc]
    · rw [h.once n hle hlt]
      · simp [hnx]
      · intro hmem
        obtain ⟨y, hy, hyn⟩ := List.mem_map.mp hmem
        refine hne (List.mem_map.mpr ⟨y, List.mem_filter.mpr ⟨hy, ?_⟩, hyn⟩)
        rw [bne_iff_ne]
        intro hkey
        rw [List.map_append] at hnodup
        have hxy := List.inj_on_of_nodup_map (List.nodup_append.mp hnodup).1 hy hx hkey
        exact hnx (hxy ▸ hyn)
  · intro y hy
    obtain ⟨hmem, hkey⟩ := List.mem_filter.mp hy
    rw [bne_iff_ne] at hkey
    obtain ⟨hle, hlt, hc⟩ := h.notClosed y hmem
    refine ⟨hle, hlt, ?_⟩
    have hne : y.2 ≠ x.2 := fun heq =>
      hkey (congrArg Prod.fst (List.inj_on_of_nodup_map h.distinct hmem hx heq))
    rw [hclosed, List.count_append, hc, List.count_singleton]
    simp [Ne.symm hne]

end Held

/-- Since `t`, exactly these numbers have been acquired and are still held. -/
def HeldNumbers (t t' : Table) (ns : List Nat) : Prop :=
  ∃ kept, Held t t' kept ∧ (kept.map (·.1)).Perm ns

section HeldNumbers

variable {t t' : Table} {ns : List Nat}

theorem heldNumbers_refl (t : Table) : HeldNumbers t t [] := ⟨[], held_refl t, .refl _⟩

theorem HeldNumbers.acquire (h : HeldNumbers t t' ns) {n : Nat} (hn : n ∉ t'.numbers) :
    HeldNumbers t (t'.opening n hn) (n :: ns) := by
  obtain ⟨kept, hk, hp⟩ := h
  exact ⟨_, hk.acquire hn, hp.cons n⟩

theorem HeldNumbers.perm (h : HeldNumbers t t' ns) {ms : List Nat} (hp : ns.Perm ms) :
    HeldNumbers t t' ms := by
  obtain ⟨kept, hk, hns⟩ := h
  exact ⟨kept, hk, hns.trans hp⟩

theorem HeldNumbers.nodup (h : HeldNumbers t t' ns) : ns.Nodup := by
  obtain ⟨kept, hk, hp⟩ := h
  have hnodup := t'.nodup
  rw [hk.live, List.map_append] at hnodup
  exact hp.nodup_iff.mp (List.nodup_append.mp hnodup).1

theorem HeldNumbers.mem (h : HeldNumbers t t' ns) {n : Nat} (hn : n ∈ ns) : n ∈ t'.numbers := by
  obtain ⟨kept, hk, hp⟩ := h
  rw [Table.numbers, hk.live, List.map_append]
  exact List.mem_append_left _ (hp.mem_iff.mpr hn)

theorem HeldNumbers.release {n : Nat} (h : HeldNumbers t t' (n :: ns)) :
    HeldNumbers t (t'.close n) ns := by
  have hnodup := List.nodup_cons.mp h.nodup
  obtain ⟨kept, hk, hp⟩ := h
  obtain ⟨x, hx, rfl⟩ := List.mem_map.mp (hp.mem_iff.mpr (List.mem_cons_self ..))
  refine ⟨_, hk.release hx, ?_⟩
  have hrest : ns.filter (· != x.1) = ns := by
    refine List.filter_eq_self.mpr fun m hm => ?_
    rw [bne_iff_ne]
    rintro rfl
    exact hnodup.1 hm
  have hfilter := hp.filter (· != x.1)
  rw [List.filter_cons, hrest] at hfilter
  simpa [List.filter_map, Function.comp_def] using hfilter

end HeldNumbers

/-! ## A process -/

/-- `clean`: nothing has been released that was not there. -/
structure Resources where
  descriptors : Table
  heap : Table
  clean : Bool

namespace Resources

def opening (p : Resources) (fd : Nat) (h : fd ∉ p.descriptors.numbers) : Resources :=
  { p with descriptors := p.descriptors.opening fd h }

def close (p : Resources) (fd : Nat) : Resources :=
  { p with
    descriptors := p.descriptors.close fd
    clean := p.clean && decide (fd ∈ p.descriptors.numbers) }

def alloc (p : Resources) (b : Nat) (h : b ∉ p.heap.numbers) : Resources :=
  { p with heap := p.heap.opening b h }

def free (p : Resources) (b : Nat) : Resources :=
  { p with heap := p.heap.close b, clean := p.clean && decide (b ∈ p.heap.numbers) }

end Resources

/-- Since `p`, exactly these descriptors and blocks have been acquired and not released, every
other one has been released once, and nothing else has been. -/
structure Owns (p q : Resources) (fds blocks : List Nat) : Prop where
  descriptors : HeldNumbers p.descriptors q.descriptors fds
  heap : HeldNumbers p.heap q.heap blocks
  clean : q.clean = p.clean

section Owns

variable {p q : Resources} {fds blocks : List Nat}

theorem owns_refl (p : Resources) : Owns p p [] [] :=
  ⟨heldNumbers_refl _, heldNumbers_refl _, rfl⟩

theorem Owns.opening (h : Owns p q fds blocks) {fd : Nat} (hfd : fd ∉ q.descriptors.numbers) :
    Owns p (q.opening fd hfd) (fd :: fds) blocks :=
  ⟨h.descriptors.acquire hfd, h.heap, h.clean⟩

theorem Owns.close {fd : Nat} (h : Owns p q (fd :: fds) blocks) : Owns p (q.close fd) fds blocks := by
  refine ⟨h.descriptors.release, h.heap, ?_⟩
  simp [Resources.close, h.descriptors.mem (List.mem_cons_self ..), h.clean]

theorem Owns.alloc (h : Owns p q fds blocks) {b : Nat} (hb : b ∉ q.heap.numbers) :
    Owns p (q.alloc b hb) fds (b :: blocks) :=
  ⟨h.descriptors, h.heap.acquire hb, h.clean⟩

theorem Owns.free {b : Nat} (h : Owns p q fds (b :: blocks)) : Owns p (q.free b) fds blocks := by
  refine ⟨h.descriptors, h.heap.release, ?_⟩
  simp [Resources.free, h.heap.mem (List.mem_cons_self ..), h.clean]

theorem Owns.perm (h : Owns p q fds blocks) {fds' blocks' : List Nat} (hf : fds.Perm fds')
    (hb : blocks.Perm blocks') : Owns p q fds' blocks' :=
  ⟨h.descriptors.perm hf, h.heap.perm hb, h.clean⟩

theorem Owns.closes {ended : List Nat} (h : Owns p q (ended ++ fds) blocks) :
    Owns p (ended.foldl Resources.close q) fds blocks := by
  induction ended generalizing q with
  | nil => exact h
  | cons fd ended ih => exact ih h.close

theorem Owns.frees {ended : List Nat} (h : Owns p q fds (ended ++ blocks)) :
    Owns p (ended.foldl Resources.free q) fds blocks := by
  induction ended generalizing q with
  | nil => exact h
  | cons b ended ih => exact ih h.free

end Owns

end Descriptors
end Trace
