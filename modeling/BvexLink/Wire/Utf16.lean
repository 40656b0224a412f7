import Mathlib

/-!
# BvexLink.Wire.Utf16

Strings as sequences of 16 bit code units, as a script has them, and the text that is sent for
one: a unit of a surrogate pair that stands alone is sent as U+FFFD.

* `toText_encode`, `toText_append`: the text of the code units of a string is the string.
-/

namespace Wire
namespace Utf16

def isHigh (u : UInt16) : Bool := 0xD800 ≤ u.toNat && u.toNat ≤ 0xDBFF

def isLow (u : UInt16) : Bool := 0xDC00 ≤ u.toNat && u.toNat ≤ 0xDFFF

/-- The character of a pair. -/
def combine (u v : UInt16) : Char :=
  Char.ofNat (0x10000 + (u.toNat - 0xD800) * 0x400 + (v.toNat - 0xDC00))

def toText : List UInt16 → List Char
  | [] => []
  | u :: us =>
    if isHigh u then
      match us with
      | [] => ['\uFFFD']
      | v :: vs => if isLow v then combine u v :: toText vs else '\uFFFD' :: toText (v :: vs)
    else if isLow u then '\uFFFD' :: toText us
    else Char.ofNat u.toNat :: toText us

def encodeChar (c : Char) : List UInt16 :=
  if c.toNat < 0x10000 then [UInt16.ofNat c.toNat]
  else
    [UInt16.ofNat (0xD800 + (c.toNat - 0x10000) / 0x400),
      UInt16.ofNat (0xDC00 + (c.toNat - 0x10000) % 0x400)]

/-- The code units of a string. -/
def encode (s : String) : List UInt16 := s.toList.flatMap encodeChar

theorem toNat_ofNat {n : Nat} (h : n < 0x10000) : (UInt16.ofNat n).toNat = n :=
  UInt16.toNat_ofNat_of_lt' h

theorem char_range (c : Char) : c.toNat < 0xD800 ∨ 0xDFFF < c.toNat ∧ c.toNat < 0x110000 := c.valid

theorem toText_unit {u : UInt16} (hh : isHigh u = false) (hl : isLow u = false)
    (us : List UInt16) : toText (u :: us) = Char.ofNat u.toNat :: toText us := by
  cases us <;> simp [toText, hh, hl]

theorem toText_pair {u v : UInt16} (hh : isHigh u = true) (hl : isLow v = true)
    (us : List UInt16) : toText (u :: v :: us) = combine u v :: toText us := by
  simp [toText, hh, hl]

theorem toText_encodeChar (c : Char) (us : List UInt16) :
    toText (encodeChar c ++ us) = c :: toText us := by
  have hc := char_range c
  rw [encodeChar]
  split
  · rename_i h
    have hu := toNat_ofNat h
    rw [List.singleton_append, toText_unit, hu, Char.ofNat_toNat]
    · simp only [isHigh, hu, Bool.and_eq_false_iff, decide_eq_false_iff_not]
      omega
    · simp only [isLow, hu, Bool.and_eq_false_iff, decide_eq_false_iff_not]
      omega
  · rename_i h
    have hu : (UInt16.ofNat (0xD800 + (c.toNat - 0x10000) / 0x400)).toNat =
        0xD800 + (c.toNat - 0x10000) / 0x400 := toNat_ofNat (by omega)
    have hv : (UInt16.ofNat (0xDC00 + (c.toNat - 0x10000) % 0x400)).toNat =
        0xDC00 + (c.toNat - 0x10000) % 0x400 := toNat_ofNat (by omega)
    have hn : 0x10000 + (0xD800 + (c.toNat - 0x10000) / 0x400 - 0xD800) * 0x400 +
        (0xDC00 + (c.toNat - 0x10000) % 0x400 - 0xDC00) = c.toNat := by omega
    rw [List.cons_append, List.singleton_append, toText_pair, combine, hu, hv, hn,
      Char.ofNat_toNat]
    · simp only [isHigh, hu, Bool.and_eq_true, decide_eq_true_eq]
      omega
    · simp only [isLow, hv, Bool.and_eq_true, decide_eq_true_eq]
      omega

theorem toText_flatMap (l : List Char) (us : List UInt16) :
    toText (l.flatMap encodeChar ++ us) = l ++ toText us := by
  induction l with
  | nil => rfl
  | cons c l ih =>
    rw [List.flatMap_cons, List.append_assoc, toText_encodeChar, ih, List.cons_append]

/-- A string before any code units is sent as it is. -/
theorem toText_append (s : String) (us : List UInt16) :
    toText (encode s ++ us) = s.toList ++ toText us := toText_flatMap s.toList us

theorem toText_encode (s : String) : toText (encode s) = s.toList := by
  have := toText_append s []
  rwa [List.append_nil, toText, List.append_nil] at this

theorem encode_inj {s s' : String} : encode s = encode s' ↔ s = s' := by
  constructor
  · intro h
    rw [← String.toList_inj, ← toText_encode, h, toText_encode]
  · rintro rfl
    rfl

end Utf16
end Wire
