import BvexLink.Wire.JsonRoundTrip

/-!
# BvexLink.Wire.Decimal

When the decimal text of one integer ends in that of another.

* `toDigits_eq_append`: for natural numbers.
* `printInt_eq_append`: for integers. What stands before is a minus sign or an integer itself.
* `printInt_inj`: a text is that of one integer.
-/

namespace Wire
namespace Json

theorem toList_toString (z : Int) : (toString z).toList = printInt z := by
  cases z with
  | ofNat n =>
    show (Nat.repr n).toList = _
    simp [Nat.repr, printInt]
  | negSucc n =>
    show ("-" ++ Nat.repr (n + 1)).toList = _
    simp [Nat.repr, printInt]

/-- How many decimal digits a number has. -/
def numDigits (n : Nat) : Nat := (Nat.toDigits 10 n).length

theorem toDigits_mul_pow_add {e : Nat} (he : 0 < e) (m : Nat) :
    Nat.toDigits 10 (e * 10 ^ numDigits m + m) = Nat.toDigits 10 e ++ Nat.toDigits 10 m := by
  induction m using Nat.strongRecOn with
  | ind m ih =>
    by_cases hm : m < 10
    · rw [numDigits, Nat.toDigits_of_lt_base hm, List.length_singleton, Nat.pow_one, Nat.mul_comm,
        ← Nat.toDigits_append_toDigits (by omega) he hm, Nat.toDigits_of_lt_base hm]
    · have hdigits := Nat.toDigits_of_base_le (b := 10) (n := m) (by omega) (by omega)
      have hlen : numDigits m = numDigits (m / 10) + 1 := by simp [numDigits, hdigits]
      have hsplit : e * 10 ^ numDigits m + m =
          10 * (e * 10 ^ numDigits (m / 10) + m / 10) + m % 10 := by
        rw [hlen, Nat.pow_succ, ← Nat.mul_assoc]
        omega
      have hpos : 0 < e * 10 ^ numDigits (m / 10) + m / 10 := by omega
      rw [hsplit, ← Nat.toDigits_append_toDigits (by omega) hpos (Nat.mod_lt m (by omega)),
        ih (m / 10) (by omega), hdigits, Nat.toDigits_of_lt_base (Nat.mod_lt m (by omega)),
        List.append_assoc]

theorem digitChar_inj {a b : Nat} (ha : a < 10) (hb : b < 10) (h : a.digitChar = b.digitChar) :
    a = b := by
  have := congrArg Char.toNat h
  rw [Nat.toNat_digitChar_of_lt_ten ha, Nat.toNat_digitChar_of_lt_ten hb] at this
  omega

/-- Induction on the digits the two numbers share, from the right. -/
theorem toDigits_eq_append {n m : Nat} {x : List Char} (hx : x ≠ []) :
    Nat.toDigits 10 n = x ++ Nat.toDigits 10 m ↔
      ∃ e, 0 < e ∧ x = Nat.toDigits 10 e ∧ n = e * 10 ^ numDigits m + m := by
  constructor
  · intro h
    induction m using Nat.strongRecOn generalizing n with
    | ind m ih =>
      have hn : 10 ≤ n := by
        by_contra hlt
        have hlen := congrArg List.length h
        have hpos : 0 < x.length := List.length_pos_iff.mpr hx
        have hm : 0 < (Nat.toDigits 10 m).length := Nat.length_toDigits_pos
        rw [Nat.toDigits_of_lt_base (by omega), List.length_append, List.length_singleton] at hlen
        omega
      rw [Nat.toDigits_of_base_le (by omega) hn] at h
      by_cases hm : m < 10
      · rw [Nat.toDigits_of_lt_base hm] at h
        obtain ⟨hfront, hlast⟩ := List.append_inj' h rfl
        have hmod := digitChar_inj (Nat.mod_lt n (by omega)) hm (List.cons.inj hlast).1
        refine ⟨n / 10, by omega, hfront.symm, ?_⟩
        rw [numDigits, Nat.toDigits_of_lt_base hm, List.length_singleton]
        omega
      · have hdigits := Nat.toDigits_of_base_le (b := 10) (n := m) (by omega) (by omega)
        have hlen : numDigits m = numDigits (m / 10) + 1 := by simp [numDigits, hdigits]
        rw [hdigits, ← List.append_assoc] at h
        obtain ⟨hfront, hlast⟩ := List.append_inj' h rfl
        have hmod := digitChar_inj (Nat.mod_lt n (by omega)) (Nat.mod_lt m (by omega))
          (List.cons.inj hlast).1
        obtain ⟨e, he, hxe, hdiv⟩ := ih (m / 10) (by omega) hfront
        refine ⟨e, he, hxe, ?_⟩
        rw [hlen, Nat.pow_succ, ← Nat.mul_assoc]
        omega
  · rintro ⟨e, he, rfl, rfl⟩
    exact toDigits_mul_pow_add he m

/-! ## Integers -/

theorem printInt_inj {t t' : Int} : printInt t = printInt t' ↔ t = t' := by
  refine ⟨fun h => ?_, fun h => by rw [h]⟩
  have := congrArg intToken h
  rw [intToken_printInt, intToken_printInt] at this
  exact Option.some.inj this

theorem printInt_neg {n : Nat} (hn : 0 < n) : printInt (-n) = '-' :: Nat.toDigits 10 n := by
  cases n with
  | zero => omega
  | succ n => rfl

/-- The text of `t` is that of `e` and then that of `t'`: the digits of `t'` are put behind `e`,
away from zero. -/
def Joins (e t' t : Int) : Prop :=
  0 ≤ t' ∧ e ≠ 0 ∧ t = e * 10 ^ numDigits t'.toNat + e.sign * t'

theorem printInt_joins {e t' t : Int} (h : Joins e t' t) :
    printInt t = printInt e ++ printInt t' := by
  obtain ⟨ht', he, rfl⟩ := h
  obtain ⟨m, rfl⟩ := Int.eq_ofNat_of_zero_le ht'
  obtain ⟨a, rfl | rfl⟩ := Int.eq_nat_or_neg e
  · have ha : 0 < a := by omega
    have hsum : (a : Int) * 10 ^ numDigits m + m = ((a * 10 ^ numDigits m + m : Nat) : Int) := by
      push_cast
      rfl
    rw [Int.toNat_natCast, Int.sign_natCast_of_ne_zero ha.ne', one_mul, hsum]
    exact toDigits_mul_pow_add ha m
  · have ha : 0 < a := by omega
    have hsum : -(a : Int) * 10 ^ numDigits m + -1 * m =
        -((a * 10 ^ numDigits m + m : Nat) : Int) := by
      push_cast
      ring
    have hpos : 0 < a * 10 ^ numDigits m + m := Nat.add_pos_left (Nat.mul_pos ha (by simp)) m
    rw [Int.toNat_natCast, Int.sign_neg, Int.sign_natCast_of_ne_zero ha.ne', hsum,
      printInt_neg hpos, printInt_neg ha, toDigits_mul_pow_add ha m]
    rfl

/-- A sign is only in front. -/
theorem printInt_tail {t : Int} {c : Char} {ds : List Char} (h : printInt t = c :: ds) :
    '-' ∉ ds := by
  have hall : ∀ n, '-' ∉ Nat.toDigits 10 n := fun n hmem => by
    have := List.all_eq_true.mp (toDigits_all n) _ hmem
    simp at this
  cases t with
  | ofNat n =>
    rw [printInt] at h
    intro hmem
    exact hall n (h ▸ List.mem_cons_of_mem c hmem)
  | negSucc n =>
    rw [printInt] at h
    obtain ⟨_, rfl⟩ := List.cons.inj h
    exact hall (n + 1)

/-- What precedes the text of an integer in that of another. -/
theorem printInt_eq_append {t t' : Int} {x : List Char} (hx : x ≠ []) :
    printInt t = x ++ printInt t' ↔
      (x = ['-'] ∧ 0 < t' ∧ t = -t') ∨ ∃ e, x = printInt e ∧ Joins e t' t := by
  constructor
  · intro h
    obtain ⟨c, y, rfl⟩ := List.exists_cons_of_ne_nil hx
    have hdigits : 0 ≤ t' := by
      by_contra hneg
      obtain ⟨m, rfl⟩ := Int.eq_negSucc_of_lt_zero (Int.not_le.mp hneg)
      exact printInt_tail h (List.mem_append_right y (List.mem_cons_self ..))
    obtain ⟨m, rfl⟩ := Int.eq_ofNat_of_zero_le hdigits
    cases t with
    | ofNat n =>
      obtain ⟨e, he, hxe, rfl⟩ := (toDigits_eq_append hx).mp h
      refine .inr ⟨e, hxe, hdigits, by omega, ?_⟩
      rw [Int.toNat_natCast, Int.sign_natCast_of_ne_zero he.ne', one_mul]
      rfl
    | negSucc n =>
      obtain ⟨rfl, hrest⟩ := List.cons.inj h
      by_cases hy : y = []
      · have hnm : n + 1 = m := by
          have := congrArg (fun ds => Nat.ofDigitChars 10 ds 0) hrest
          simpa [hy, printInt] using this
        exact .inl ⟨by rw [hy], by omega, by omega⟩
      · obtain ⟨e, he, rfl, hn⟩ := (toDigits_eq_append hy).mp hrest
        refine .inr ⟨-e, (printInt_neg he).symm, hdigits, by omega, ?_⟩
        rw [Int.toNat_natCast, Int.sign_neg, Int.sign_natCast_of_ne_zero he.ne', Int.negSucc_eq]
        have hcast : (n : Int) + 1 = e * 10 ^ numDigits m + m := by exact_mod_cast hn
        rw [hcast]
        ring
  · rintro (⟨rfl, ht', rfl⟩ | ⟨e, rfl, he⟩)
    · obtain ⟨m, rfl⟩ := Int.eq_ofNat_of_zero_le ht'.le
      rw [printInt_neg (by omega)]
      rfl
    · exact printInt_joins he

end Json
end Wire
