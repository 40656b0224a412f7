import BvexLink.Wire.Utf8

/-!
# BvexLink.Wire.Base64

Base 64: `base64.b64encode`, and `base64.b64decode` without validation, which skips characters
outside the alphabet and stops at the end of the padding. `decode_encode`: decoding undoes
encoding.
-/

namespace Wire
namespace Base64

def digit (n : Nat) : Char :=
  if n < 26 then Char.ofNat (65 + n)
  else if n < 52 then Char.ofNat (71 + n)
  else if n < 62 then Char.ofNat (n - 4)
  else if n = 62 then '+'
  else '/'

/-- The value of a character of the alphabet. -/
def value (c : Char) : Option Nat :=
  if 65 ≤ c.toNat ∧ c.toNat ≤ 90 then some (c.toNat - 65)
  else if 97 ≤ c.toNat ∧ c.toNat ≤ 122 then some (c.toNat - 71)
  else if 48 ≤ c.toNat ∧ c.toNat ≤ 57 then some (c.toNat + 4)
  else if c = '+' then some 62
  else if c = '/' then some 63
  else none

def encode : Bytes → List Char
  | [] => []
  | [a] => [digit (a.toNat / 4), digit (a.toNat % 4 * 16), '=', '=']
  | [a, b] =>
    [digit (a.toNat / 4), digit (a.toNat % 4 * 16 + b.toNat / 16), digit (b.toNat % 16 * 4), '=']
  | a :: b :: c :: r =>
    digit (a.toNat / 4) :: digit (a.toNat % 4 * 16 + b.toNat / 16) ::
      digit (b.toNat % 16 * 4 + c.toNat / 64) :: digit (c.toNat % 64) :: encode r

/-- The decoder's state is the position in the group of four, the bits left over from the
previous character and the padding characters seen since; `none` is `binascii.Error`. -/
def decodeFrom : Nat → Nat → Nat → List Char → Option Bytes
  | quad_pos, _, _, [] => if quad_pos = 0 then some [] else none
  | quad_pos, leftchar, pads, ch :: r =>
    if ch = '=' then
      if 2 ≤ quad_pos then
        if 4 ≤ quad_pos + (pads + 1) then some []
        else decodeFrom quad_pos leftchar (pads + 1) r
      else decodeFrom quad_pos leftchar pads r
    else
      match value ch with
      | none => decodeFrom quad_pos leftchar pads r
      | some v =>
        match quad_pos with
        | 0 => decodeFrom 1 v 0 r
        | 1 => (decodeFrom 2 (v % 16) 0 r).map (UInt8.ofNat (leftchar * 4 + v / 16) :: ·)
        | 2 => (decodeFrom 3 (v % 4) 0 r).map (UInt8.ofNat (leftchar * 16 + v / 4) :: ·)
        | _ => (decodeFrom 0 0 0 r).map (UInt8.ofNat (leftchar * 64 + v) :: ·)

def decode (s : List Char) : Option Bytes := decodeFrom 0 0 0 s

theorem value_digit_all : ∀ n, n < 64 → value (digit n) = some n := by decide

theorem digit_ne_pad_all : ∀ n, n < 64 → digit n ≠ '=' := by decide

theorem decodeFrom_digit {quad_pos leftchar pads n : Nat} (r : List Char) (hn : n < 64) :
    decodeFrom quad_pos leftchar pads (digit n :: r) =
      match quad_pos with
      | 0 => decodeFrom 1 n 0 r
      | 1 => (decodeFrom 2 (n % 16) 0 r).map (UInt8.ofNat (leftchar * 4 + n / 16) :: ·)
      | 2 => (decodeFrom 3 (n % 4) 0 r).map (UInt8.ofNat (leftchar * 16 + n / 4) :: ·)
      | _ => (decodeFrom 0 0 0 r).map (UInt8.ofNat (leftchar * 64 + n) :: ·) := by
  rw [decodeFrom, if_neg (digit_ne_pad_all n hn), value_digit_all n hn]

theorem digit_ascii_all : ∀ n, n < 64 → (digit n).toNat < 128 := by decide

theorem encode_ascii (bs : Bytes) : ∀ c ∈ encode bs, c.toNat < 128 := by
  have hpad : '='.toNat < 128 := by decide
  induction bs using encode.induct with
  | case1 => intro c hc; cases hc
  | case2 a =>
    have ha := a.toNat_lt
    simp only [encode, List.forall_mem_cons, List.not_mem_nil, false_implies, implies_true, and_true]
    exact ⟨digit_ascii_all _ (by omega), digit_ascii_all _ (by omega), hpad, hpad⟩
  | case3 a b =>
    have ha := a.toNat_lt
    have hb := b.toNat_lt
    simp only [encode, List.forall_mem_cons, List.not_mem_nil, false_implies, implies_true, and_true]
    exact ⟨digit_ascii_all _ (by omega), digit_ascii_all _ (by omega),
      digit_ascii_all _ (by omega), hpad⟩
  | case4 a b c r ih =>
    have ha := a.toNat_lt
    have hb := b.toNat_lt
    have hc := c.toNat_lt
    simp only [encode, List.forall_mem_cons]
    exact ⟨digit_ascii_all _ (by omega), digit_ascii_all _ (by omega),
      digit_ascii_all _ (by omega), digit_ascii_all _ (by omega), ih⟩

theorem ofNat_eq {n : Nat} {a : UInt8} (h : n = a.toNat) : UInt8.ofNat n = a := by
  subst h; exact UInt8.ofNat_toNat

theorem decode_encode (bs : Bytes) : decode (encode bs) = some bs := by
  unfold decode
  induction bs using encode.induct with
  | case1 => rfl
  | case2 a =>
    have ha := a.toNat_lt
    have d1 : a.toNat / 4 < 64 := by omega
    have d2 : a.toNat % 4 * 16 < 64 := by omega
    have e : a.toNat / 4 * 4 + a.toNat % 4 * 16 / 16 = a.toNat := by omega
    simp only [encode, decodeFrom_digit _ d1, decodeFrom_digit _ d2, ofNat_eq e]
    rfl
  | case3 a b =>
    have ha := a.toNat_lt
    have hb := b.toNat_lt
    have d1 : a.toNat / 4 < 64 := by omega
    have d2 : a.toNat % 4 * 16 + b.toNat / 16 < 64 := by omega
    have d3 : b.toNat % 16 * 4 < 64 := by omega
    have e1 : a.toNat / 4 * 4 + (a.toNat % 4 * 16 + b.toNat / 16) / 16 = a.toNat := by omega
    have e2 : (a.toNat % 4 * 16 + b.toNat / 16) % 16 * 16 + b.toNat % 16 * 4 / 4 = b.toNat := by
      omega
    simp only [encode, decodeFrom_digit _ d1, decodeFrom_digit _ d2, decodeFrom_digit _ d3,
      ofNat_eq e1, ofNat_eq e2]
    rfl
  | case4 a b c r ih =>
    have ha := a.toNat_lt
    have hb := b.toNat_lt
    have hc := c.toNat_lt
    have d1 : a.toNat / 4 < 64 := by omega
    have d2 : a.toNat % 4 * 16 + b.toNat / 16 < 64 := by omega
    have d3 : b.toNat % 16 * 4 + c.toNat / 64 < 64 := by omega
    have d4 : c.toNat % 64 < 64 := by omega
    have e1 : a.toNat / 4 * 4 + (a.toNat % 4 * 16 + b.toNat / 16) / 16 = a.toNat := by omega
    have e2 : (a.toNat % 4 * 16 + b.toNat / 16) % 16 * 16 +
        (b.toNat % 16 * 4 + c.toNat / 64) / 4 = b.toNat := by omega
    have e3 : (b.toNat % 16 * 4 + c.toNat / 64) % 4 * 64 + c.toNat % 64 = c.toNat := by omega
    simp only [encode, decodeFrom_digit _ d1, decodeFrom_digit _ d2, decodeFrom_digit _ d3,
      decodeFrom_digit _ d4, ih, Option.map_some, ofNat_eq e1, ofNat_eq e2, ofNat_eq e3]

end Base64
end Wire
