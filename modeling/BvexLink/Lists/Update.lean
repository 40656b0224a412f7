import Mathlib

/-!
# BvexLink.Lists.Update

Lists that grow at the end and change at an index, and counting in them.

* `getElem?_snoc`, `getElem?_modify_eq_some`: what is where after a change.
* `map_modify`: a change that a projection does not see.
* `countP_modify`, `countP_erase_add`: how a count changes.
* `countP_le_one_iff`: at most one element counts.
* `sum_map_modify`, `sum_entries_insert`: how a sum changes.
* `Stored`: a dict of indices, with an entry of its own for each key; `Stored.snoc` and
  `Stored.modify` keep it.
-/

namespace ListUpdate

variable {α : Type} {p : α → Bool} {l : List α}

theorem getElem?_snoc {a b : α} {k : Nat} :
    (l ++ [a])[k]? = some b ↔ l[k]? = some b ∨ k = l.length ∧ a = b := by
  rcases Nat.lt_trichotomy k l.length with hk | hk | hk
  · rw [List.getElem?_append_left hk]
    simp [show k ≠ l.length by omega]
  · subst hk
    simp
  · rw [List.getElem?_eq_none (by simpa using hk), List.getElem?_eq_none (by omega)]
    simp [show k ≠ l.length by omega]

theorem getElem?_modify_eq_some {f : α → α} {k j : Nat} {b : α} :
    (l.modify k f)[j]? = some b ↔ ∃ a, l[j]? = some a ∧ (if k = j then f a else a) = b := by
  rw [List.getElem?_modify]
  exact Option.map_eq_some_iff

theorem modify_concat (f : α → α) (l : List α) (a : α) :
    (l ++ [a]).modify l.length f = l ++ [f a] :=
  List.modifyTailIdx_add (List.modifyHead f) 0 l [a]

theorem modify_of_fix {f : α → α} {k : Nat} {a : α} (h : l[k]? = some a) (hf : f a = a) :
    l.modify k f = l := by
  apply List.ext_getElem?
  intro j
  rw [List.getElem?_modify]
  by_cases hj : k = j
  · subst hj
    simp [h, hf]
  · simp [hj]

/-- A change that `g` does not see. -/
theorem map_modify {β : Type} {f : α → α} {g : α → β} {k : Nat}
    (h : ∀ a, l[k]? = some a → g (f a) = g a) : (l.modify k f).map g = l.map g := by
  apply List.ext_getElem?
  intro j
  rw [List.getElem?_map, List.getElem?_map, List.getElem?_modify]
  by_cases hj : k = j
  · subst hj
    cases ha : l[k]? with
    | none => rfl
    | some a => simp [h a ha]
  · simp [hj]

theorem countP_modify {f : α → α} {k : Nat} {a : α} (h : l[k]? = some a) :
    (l.modify k f).countP p + (if p a then 1 else 0) =
      l.countP p + (if p (f a) then 1 else 0) := by
  induction l generalizing k with
  | nil => simp at h
  | cons b l ih =>
    cases k with
    | zero =>
      cases h
      rw [List.modify_zero_cons, List.countP_cons, List.countP_cons]
      omega
    | succ k =>
      have := ih (k := k) (by simpa using h)
      rw [List.modify_succ_cons, List.countP_cons, List.countP_cons]
      omega

theorem countP_erase_add [DecidableEq α] {a : α} (h : a ∈ l) :
    (l.erase a).countP p + (if p a then 1 else 0) = l.countP p := by
  rw [(List.perm_cons_erase h).countP_eq p, List.countP_cons]

theorem countP_le_one_iff : l.countP p ≤ 1 ↔ ∀ (i j : Nat) (a b : α),
    l[i]? = some a → p a = true → l[j]? = some b → p b = true → i = j := by
  induction l with
  | nil => simp
  | cons c l ih =>
    rw [List.countP_cons]
    constructor
    · intro h i j a b hi ha hj hb
      cases i with
      | zero =>
        cases j with
        | zero => rfl
        | succ j =>
          cases hi
          rw [if_pos ha] at h
          have hpos : 0 < l.countP p :=
            List.countP_pos_iff.mpr ⟨b, List.mem_of_getElem? (by simpa using hj), hb⟩
          omega
      | succ i =>
        cases j with
        | zero =>
          cases hj
          rw [if_pos hb] at h
          have hpos : 0 < l.countP p :=
            List.countP_pos_iff.mpr ⟨a, List.mem_of_getElem? (by simpa using hi), ha⟩
          omega
        | succ j =>
          rw [ih.mp (by omega) i j a b (by simpa using hi) ha (by simpa using hj) hb]
    · intro h
      by_cases hc : p c = true
      · have hzero : l.countP p = 0 := by
          by_contra hne
          obtain ⟨a, ha, hpa⟩ := List.countP_pos_iff.mp (Nat.pos_of_ne_zero hne)
          obtain ⟨i, hi⟩ := List.mem_iff_getElem?.mp ha
          have := h 0 (i + 1) c a rfl hc (by simpa using hi) hpa
          omega
        rw [if_pos hc, hzero]
      · rw [if_neg hc]
        refine ih.mpr fun i j a b hi ha hj hb => ?_
        have := h (i + 1) (j + 1) a b (by simpa using hi) ha (by simpa using hj) hb
        omega

theorem sum_map_modify {f : α → α} {g : α → Nat} {k : Nat} {a : α} (h : l[k]? = some a) :
    ((l.modify k f).map g).sum + g a = (l.map g).sum + g (f a) := by
  induction l generalizing k with
  | nil => simp at h
  | cons b l ih =>
    cases k with
    | zero =>
      obtain rfl : b = a := by simpa using h
      simp only [List.modify_zero_cons, List.map_cons, List.sum_cons]
      omega
    | succ k =>
      have htail := ih (k := k) (by simpa using h)
      simp only [List.modify_succ_cons, List.map_cons, List.sum_cons]
      omega

/-- The same in a dict. -/
theorem sum_entries_insert {K V : Type} [DecidableEq K] {d : AList fun _ : K => V} {m : K} {p q : V}
    (h : d.lookup m = some q) (g : V → Nat) :
    ((d.insert m p).entries.map fun e => g e.2).sum + g q =
      (d.entries.map fun e => g e.2).sum + g p := by
  have hm : m ∈ d.keys := AList.mem_keys.mp (AList.lookup_isSome.mp (by rw [h]; rfl))
  obtain ⟨b, l, l', _, hl, hk⟩ := List.exists_of_kerase hm
  have hb : d.lookup m = some b := AList.mem_lookup_iff.mpr (by simp [hl])
  obtain rfl : b = q := Option.some.inj (hb.symm.trans h)
  rw [AList.entries_insert, hk, hl]
  simp only [List.map_cons, List.map_append, List.sum_cons, List.sum_append]
  omega

/-! ## Entries by key -/

section Stored

variable {K : Type} [DecidableEq K] {key : α → K} {index : AList fun _ : K => Nat}

/-- The index of a key is that of an entry for this key. -/
def Stored (key : α → K) (index : AList fun _ : K => Nat) (l : List α) : Prop :=
  ∀ m k, index.lookup m = some k → ∃ a, l[k]? = some a ∧ key a = m

theorem Stored.lookup (h : Stored key index l) {m : K} (hm : m ∈ index) :
    ∃ k a, index.lookup m = some k ∧ l[k]? = some a ∧ key a = m := by
  obtain ⟨k, hk⟩ := Option.isSome_iff_exists.mp (AList.lookup_isSome.mpr hm)
  obtain ⟨a, ha, ham⟩ := h m k hk
  exact ⟨k, a, hk, ha, ham⟩

/-- Two keys have two entries. -/
theorem Stored.inj (h : Stored key index l) {m m' : K} {k : Nat}
    (hm : index.lookup m = some k) (hm' : index.lookup m' = some k) : m = m' := by
  obtain ⟨a, ha, rfl⟩ := h m k hm
  obtain ⟨b, hb, rfl⟩ := h m' k hm'
  rw [ha] at hb
  cases hb
  rfl

/-- A new entry at the end takes its key over. -/
theorem Stored.snoc (h : Stored key index l) (a : α) :
    Stored key (index.insert (key a) l.length) (l ++ [a]) := by
  intro m k hk
  by_cases he : m = key a
  · rw [he, AList.lookup_insert] at hk
    cases hk
    exact ⟨a, getElem?_snoc.mpr (.inr ⟨rfl, rfl⟩), he.symm⟩
  · rw [AList.lookup_insert_ne he] at hk
    obtain ⟨b, hb, hbm⟩ := h m k hk
    exact ⟨b, getElem?_snoc.mpr (.inl hb), hbm⟩

theorem Stored.modify (h : Stored key index l) {f : α → α} (hf : ∀ a, key (f a) = key a)
    (k : Nat) : Stored key index (l.modify k f) := by
  intro m j hj
  obtain ⟨a, ha, ham⟩ := h m j hj
  refine ⟨_, getElem?_modify_eq_some.mpr ⟨a, ha, rfl⟩, ?_⟩
  split
  · rw [hf, ham]
  · exact ham

end Stored

end ListUpdate
