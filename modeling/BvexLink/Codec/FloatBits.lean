import BvexLink.Codec.Equality
import Mathlib.Tactic.Ring
import Mathlib.Tactic.NormNum

/-!
# BvexLink.Codec.FloatBits

The bits of a `float` and of a `double`, the numbers that they denote, and the conversion of a
`float` to a `double`.

* `unpack_pack`: the fields of packed bits.
* `floatToDouble_value`: the conversion is exact.
-/

namespace BvexLink
namespace Codec
namespace FloatBits

/-- The widths of the exponent and of the fraction. -/
structure Format where
  exponent : Nat
  fraction : Nat

def binary32 : Format := ⟨8, 23⟩

def binary64 : Format := ⟨11, 52⟩

structure Fields where
  sign : Bool
  exponent : Nat
  fraction : Nat

structure Fields.Fits (f : Format) (x : Fields) : Prop where
  exponent : x.exponent < 2 ^ f.exponent
  fraction : x.fraction < 2 ^ f.fraction

def unpack (f : Format) (bits : Nat) : Fields :=
  ⟨bits / 2 ^ f.fraction / 2 ^ f.exponent = 1, bits / 2 ^ f.fraction % 2 ^ f.exponent,
    bits % 2 ^ f.fraction⟩

def pack (f : Format) (x : Fields) : Nat :=
  (x.sign.toNat * 2 ^ f.exponent + x.exponent) * 2 ^ f.fraction + x.fraction

/-- The exponent of the least positive number. -/
def Format.least (f : Format) : ℤ := 2 - 2 ^ (f.exponent - 1) - f.fraction

def Fields.value (f : Format) (x : Fields) : Number :=
  if x.exponent = 2 ^ f.exponent - 1 then if x.fraction = 0 then .infinite x.sign else .nan
  else if x.exponent = 0 then .finite (signed x.sign (x.fraction * 2 ^ f.least))
  else .finite (signed x.sign ((2 ^ f.fraction + x.fraction) * 2 ^ (x.exponent - 1 + f.least)))

/-- A signalling `nan` becomes a quiet one, and a subnormal number a normal one. -/
def widen (x : Fields) : Fields :=
  if x.exponent = 255 then
    ⟨x.sign, 2047, if x.fraction = 0 then 0 else (x.fraction ||| 2 ^ 22) * 2 ^ 29⟩
  else if x.exponent = 0 then
    if x.fraction = 0 then ⟨x.sign, 0, 0⟩
    else ⟨x.sign, x.fraction.log2 + 874, x.fraction * 2 ^ (52 - x.fraction.log2) - 2 ^ 52⟩
  else ⟨x.sign, x.exponent + 896, x.fraction * 2 ^ 29⟩

def floatValue (x : BitVec 32) : Number := (unpack binary32 x.toNat).value binary32

def doubleValue (x : BitVec 64) : Number := (unpack binary64 x.toNat).value binary64

/-- The conversion of a `float` to a `double`. -/
def floatToDouble (x : BitVec 32) : BitVec 64 :=
  BitVec.ofNat 64 (pack binary64 (widen (unpack binary32 x.toNat)))

/-! ## Fields -/

theorem unpack_fits (f : Format) (bits : Nat) : (unpack f bits).Fits f where
  exponent := Nat.mod_lt _ (Nat.two_pow_pos _)
  fraction := Nat.mod_lt _ (Nat.two_pow_pos _)

theorem unpack_pack {f : Format} {x : Fields} (h : x.Fits f) : unpack f (pack f x) = x := by
  obtain ⟨sign, exponent, fraction⟩ := x
  obtain ⟨he, hf⟩ := h
  simp only at he hf
  have hhigh : pack f ⟨sign, exponent, fraction⟩ / 2 ^ f.fraction =
      sign.toNat * 2 ^ f.exponent + exponent := by
    rw [pack, mul_comm, Nat.mul_add_div (Nat.two_pow_pos _), Nat.div_eq_of_lt hf, Nat.add_zero]
  have hlow : pack f ⟨sign, exponent, fraction⟩ % 2 ^ f.fraction = fraction := by
    rw [pack, mul_comm, Nat.mul_add_mod, Nat.mod_eq_of_lt hf]
  have hsign : (sign.toNat * 2 ^ f.exponent + exponent) / 2 ^ f.exponent = sign.toNat := by
    rw [mul_comm, Nat.mul_add_div (Nat.two_pow_pos _), Nat.div_eq_of_lt he, Nat.add_zero]
  have hexponent : (sign.toNat * 2 ^ f.exponent + exponent) % 2 ^ f.exponent = exponent := by
    rw [mul_comm, Nat.mul_add_mod, Nat.mod_eq_of_lt he]
  rw [unpack, hhigh, hlow, hsign, hexponent]
  cases sign <;> rfl

theorem pack_lt {f : Format} {x : Fields} (h : x.Fits f) :
    pack f x < 2 ^ (1 + f.exponent + f.fraction) := by
  have hs : x.sign.toNat ≤ 1 := Bool.toNat_le x.sign
  have he := h.exponent
  have hf := h.fraction
  have hhigh : x.sign.toNat * 2 ^ f.exponent + x.exponent + 1 ≤ 2 ^ (1 + f.exponent) := by
    have hm := Nat.mul_le_mul_right (2 ^ f.exponent) hs
    rw [pow_add]
    omega
  have hm := Nat.mul_le_mul_right (2 ^ f.fraction) hhigh
  rw [Nat.add_mul, ← pow_add] at hm
  rw [pack]
  omega

/-! ## The conversion -/

/-- The leading bit of a subnormal number, moved to the place of the hidden one. -/
theorem normalize {f : Nat} (hf : f < 2 ^ 23) (hne : f ≠ 0) :
    f.log2 < 23 ∧ 2 ^ 52 ≤ f * 2 ^ (52 - f.log2) ∧ f * 2 ^ (52 - f.log2) < 2 ^ 53 := by
  have hlog : f.log2 < 23 := (Nat.log2_lt hne).mpr hf
  have hpos : 0 < 2 ^ (52 - f.log2) := Nat.two_pow_pos _
  have hlow := Nat.mul_le_mul_right (2 ^ (52 - f.log2)) (Nat.log2_self_le hne)
  have hhigh := Nat.mul_lt_mul_of_pos_right (Nat.lt_log2_self (n := f)) hpos
  rw [← pow_add] at hlow hhigh
  refine ⟨hlog, ?_, ?_⟩
  · rwa [show f.log2 + (52 - f.log2) = 52 by omega] at hlow
  · rwa [show f.log2 + 1 + (52 - f.log2) = 53 by omega] at hhigh

theorem quiet_lt {f : Nat} (hf : f < 2 ^ 23) : f ||| 2 ^ 22 < 2 ^ 23 :=
  Nat.or_lt_two_pow hf (by decide)

theorem widen_fits {x : Fields} (h : x.Fits binary32) : (widen x).Fits binary64 := by
  have he : x.exponent < 256 := h.exponent
  have hf : x.fraction < 2 ^ 23 := h.fraction
  unfold widen
  split
  · constructor
    · show 2047 < 2 ^ 11
      omega
    · have hq := quiet_lt hf
      show (if x.fraction = 0 then 0 else (x.fraction ||| 2 ^ 22) * 2 ^ 29) < 2 ^ 52
      split <;> omega
  · split
    · split
      · constructor <;> exact Nat.two_pow_pos _
      · rename_i hne
        obtain ⟨hlog, _, hlt⟩ := normalize hf hne
        constructor
        · show x.fraction.log2 + 874 < 2 ^ 11
          omega
        · show x.fraction * 2 ^ (52 - x.fraction.log2) - 2 ^ 52 < 2 ^ 52
          omega
    · constructor
      · show x.exponent + 896 < 2 ^ 11
        omega
      · show x.fraction * 2 ^ 29 < 2 ^ 52
        omega

theorem scale_eq {m m' k : ℕ} {e e' : ℤ} (hm : m' = m * 2 ^ k) (he : e' + k = e) :
    (m' : ℚ) * 2 ^ e' = m * 2 ^ e := by
  rw [hm, ← he, add_comm e', zpow_add₀ two_ne_zero, zpow_natCast]
  push_cast
  ring

/-- A subnormal number with its leading bit moved, and its exponent lowered as much. -/
theorem subnormal_eq {f : Nat} (hf : f < 2 ^ 23) (hne : f ≠ 0) :
    ((2 : ℚ) ^ 52 + (f * 2 ^ (52 - f.log2) - 2 ^ 52 : ℕ)) *
        2 ^ ((f.log2 + 874 : ℕ) - 1 + -1074 : ℤ) = f * 2 ^ (-149 : ℤ) := by
  obtain ⟨hlog, hge, _⟩ := normalize hf hne
  have hsum : (2 : ℚ) ^ 52 + (f * 2 ^ (52 - f.log2) - 2 ^ 52 : ℕ) =
      (f * 2 ^ (52 - f.log2) : ℕ) := by
    rw [Nat.cast_sub hge]
    push_cast
    ring
  have hexp : ((f.log2 + 874 : ℕ) - 1 + -1074 : ℤ) + (52 - f.log2 : ℕ) = -149 := by omega
  rw [hsum]
  exact scale_eq rfl hexp

/-- A normal number: 29 more bits in the fraction, and the exponent by its new bias. -/
theorem normal_eq (e f : Nat) :
    ((2 : ℚ) ^ 52 + (f * 2 ^ 29 : ℕ)) * 2 ^ ((e + 896 : ℕ) - 1 + -1074 : ℤ) =
      (2 ^ 23 + f) * 2 ^ (e - 1 + -149 : ℤ) := by
  have hm : ((2 ^ 23 + f : ℕ) : ℚ) = 2 ^ 23 + f := by
    push_cast
    ring
  have hm' : ((2 ^ 52 + f * 2 ^ 29 : ℕ) : ℚ) = 2 ^ 52 + (f * 2 ^ 29 : ℕ) := by
    push_cast
    ring
  have hexp : ((e + 896 : ℕ) - 1 + -1074 : ℤ) + (29 : ℕ) = e - 1 + -149 := by omega
  rw [← hm, ← hm']
  exact scale_eq (by omega) hexp

theorem least_binary32 : binary32.least = -149 := by decide

theorem least_binary64 : binary64.least = -1074 := by decide

theorem widen_value {x : Fields} (h : x.Fits binary32) :
    (widen x).value binary64 = x.value binary32 := by
  have he : x.exponent < 256 := h.exponent
  have hf : x.fraction < 2 ^ 23 := h.fraction
  simp only [Fields.value, least_binary32, least_binary64]
  unfold widen
  split
  · rename_i h255
    by_cases hz : x.fraction = 0
    · simp [h255, hz, binary32, binary64]
    · simp [h255, hz, binary32, binary64]
  · rename_i h255
    have hne : x.exponent ≠ 2 ^ binary32.exponent - 1 := h255
    rw [if_neg hne]
    split
    · split
      · rename_i hz
        simp [hz, binary64]
      · rename_i hz
        have hlog := (normalize hf hz).1
        have hlt : x.fraction.log2 + 874 ≠ 2 ^ binary64.exponent - 1 := by
          show _ ≠ 2047
          omega
        rw [if_neg hlt, if_neg (by omega : x.fraction.log2 + 874 ≠ 0)]
        exact congrArg (fun q => Number.finite (signed x.sign q)) (subnormal_eq hf hz)
    · have hlt : x.exponent + 896 ≠ 2 ^ binary64.exponent - 1 := by
        show _ ≠ 2047
        omega
      rw [if_neg hlt, if_neg (by omega : x.exponent + 896 ≠ 0)]
      exact congrArg (fun q => Number.finite (signed x.sign q))
        (normal_eq x.exponent x.fraction)

/-- A `double` that a `float` is converted to is the same number. -/
theorem floatToDouble_value (x : BitVec 32) : doubleValue (floatToDouble x) = floatValue x := by
  have hfits := unpack_fits binary32 x.toNat
  have hlt : pack binary64 (widen (unpack binary32 x.toNat)) < 2 ^ 64 := pack_lt (widen_fits hfits)
  rw [doubleValue, floatToDouble, BitVec.toNat_ofNat, Nat.mod_eq_of_lt hlt,
    unpack_pack (widen_fits hfits), widen_value hfits, floatValue]

end FloatBits
end Codec
end BvexLink
