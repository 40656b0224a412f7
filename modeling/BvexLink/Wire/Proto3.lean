import BvexLink.Wire.Utf8

/-!
# BvexLink.Wire.Proto3

The wire format of protocol buffers: varints, little-endian numbers and length-delimited bytes,
each behind a tag of its field number and wire type. The bytes of strings are taken as they are.

* `readVarint_varint`, `readLe_le`: the numbers are read back, with what follows them.
* `readMessage_message`: a message is read back as the list of its fields.
* `Scalar.read_toWire`: the scalar types survive the wire.
-/

namespace Wire
namespace Proto3

/-! ## Numbers -/

/-- Seven bits a byte, the lowest first; the top bit says that more follow. -/
def varint (n : Nat) : Bytes :=
  if n < 128 then [UInt8.ofNat n] else UInt8.ofNat (n % 128 + 128) :: varint (n / 128)
termination_by n
decreasing_by omega

/-- A varint of at most `limit` bytes, and what follows it. -/
def readVarint : Nat → Bytes → Option (Nat × Bytes)
  | 0, _ => none
  | _ + 1, [] => none
  | limit + 1, b :: bs =>
    if b.toNat < 128 then some (b.toNat, bs)
    else (readVarint limit bs).map fun x => (b.toNat - 128 + 128 * x.1, x.2)

/-- The `k` low bytes, the lowest first. -/
def le : Nat → Nat → Bytes
  | 0, _ => []
  | k + 1, n => UInt8.ofNat n :: le k (n / 256)

def readLe : Nat → Bytes → Option (Nat × Bytes)
  | 0, bs => some (0, bs)
  | _ + 1, [] => none
  | k + 1, b :: bs => (readLe k bs).map fun x => (b.toNat + 256 * x.1, x.2)

theorem toNat_ofNat {n : Nat} (h : n < 256) : (UInt8.ofNat n).toNat = n := by
  simp [Nat.mod_eq_of_lt h]

theorem readVarint_varint (rest : Bytes) : ∀ (limit n : Nat), n < 128 ^ (limit + 1) →
    readVarint (limit + 1) (varint n ++ rest) = some (n, rest) := by
  intro limit
  induction limit with
  | zero =>
    intro n hn
    have hn : n < 128 := by simpa using hn
    rw [varint, if_pos hn, List.singleton_append, readVarint, toNat_ofNat (by omega), if_pos hn]
  | succ limit ih =>
    intro n hn
    rw [varint]
    split
    · rename_i hs
      rw [List.singleton_append, readVarint, toNat_ofNat (by omega), if_pos hs]
    · have hd : n / 128 < 128 ^ (limit + 1) := by
        rw [pow_succ, Nat.mul_comm] at hn
        exact Nat.div_lt_of_lt_mul hn
      rw [List.cons_append, readVarint, toNat_ofNat (by omega), if_neg (by omega), ih _ hd]
      simp only [Option.map_some, Option.some.injEq, Prod.mk.injEq, and_true]
      omega

theorem length_varint_le : ∀ (k n : Nat), n < 128 ^ (k + 1) → (varint n).length ≤ k + 1 := by
  intro k
  induction k with
  | zero =>
    intro n hn
    rw [varint, if_pos (by simpa using hn)]
    simp
  | succ k ih =>
    intro n hn
    rw [varint]
    split
    · simp
    · have hd : n / 128 < 128 ^ (k + 1) := by
        rw [pow_succ, Nat.mul_comm] at hn
        exact Nat.div_lt_of_lt_mul hn
      simpa using ih _ hd

theorem length_varint_pos (n : Nat) : 0 < (varint n).length := by
  rw [varint]
  split <;> simp

theorem readLe_le (rest : Bytes) : ∀ k n, n < 256 ^ k → readLe k (le k n ++ rest) = some (n, rest) := by
  intro k
  induction k with
  | zero =>
    intro n hn
    have hn : n = 0 := by simpa using hn
    subst hn
    rfl
  | succ k ih =>
    intro n hn
    have hd : n / 256 < 256 ^ k := by
      rw [pow_succ, Nat.mul_comm] at hn
      exact Nat.div_lt_of_lt_mul hn
    have hb : (UInt8.ofNat n).toNat = n % 256 := by simp
    rw [le, List.cons_append, readLe, ih _ hd, hb]
    simp only [Option.map_some, Option.some.injEq, Prod.mk.injEq, and_true]
    omega

@[simp] theorem length_le (k : Nat) : ∀ n, (le k n).length = k := by
  induction k with
  | zero => intro n; rfl
  | succ k ih => intro n; rw [le, List.length_cons, ih]

/-! ## Fields -/

inductive WireValue where
  | varint (n : Nat)
  | i64 (n : Nat)
  | len (b : Bytes)
  | i32 (n : Nat)
  deriving DecidableEq

namespace WireValue

def wireType : WireValue → Nat
  | varint _ => 0
  | i64 _ => 1
  | len _ => 2
  | i32 _ => 5

def payload : WireValue → Bytes
  | varint n => Proto3.varint n
  | i64 n => le 8 n
  | len b => Proto3.varint b.length ++ b
  | i32 n => le 4 n

/-- The number fits its bits, the length 32 of them. -/
def Valid : WireValue → Prop
  | varint n => n < 2 ^ 64
  | i64 n => n < 2 ^ 64
  | len b => b.length < 2 ^ 32
  | i32 n => n < 2 ^ 32

theorem wireType_lt (v : WireValue) : v.wireType < 8 := by
  cases v <;> simp [wireType]

end WireValue

def field (f : Nat × WireValue) : Bytes := varint (8 * f.1 + f.2.wireType) ++ f.2.payload

def message (fs : List (Nat × WireValue)) : Bytes := fs.flatMap field

def readValue (wireType : Nat) (bs : Bytes) : Option (WireValue × Bytes) :=
  match wireType with
  | 0 => (readVarint 10 bs).map fun x => (.varint (x.1 % 2 ^ 64), x.2)
  | 1 => (readLe 8 bs).map fun x => (.i64 x.1, x.2)
  | 2 =>
    (readVarint 10 bs).bind fun x =>
      if x.1 ≤ x.2.length then some (.len (x.2.take x.1), x.2.drop x.1) else none
  | 5 => (readLe 4 bs).map fun x => (.i32 x.1, x.2)
  | _ => none

/-- A field number is at least `1`. -/
def readField (bs : Bytes) : Option ((Nat × WireValue) × Bytes) :=
  (readVarint 10 bs).bind fun x =>
    if x.1 / 8 = 0 then none else (readValue (x.1 % 8) x.2).map fun y => ((x.1 / 8, y.1), y.2)

/-- At most `k` fields, up to the end of the bytes. -/
def readFields : Nat → Bytes → Option (List (Nat × WireValue))
  | _, [] => some []
  | 0, _ :: _ => none
  | k + 1, b :: bs =>
    (readField (b :: bs)).bind fun x => (readFields k x.2).map fun fs => x.1 :: fs

/-- A field takes a byte, so there are at most as many fields as bytes. -/
def readMessage (bs : Bytes) : Option (List (Nat × WireValue)) := readFields bs.length bs

theorem readValue_payload (v : WireValue) (h : v.Valid) (rest : Bytes) :
    readValue v.wireType (v.payload ++ rest) = some (v, rest) := by
  cases v with
  | varint n =>
    have hn : n < 2 ^ 64 := h
    simp only [readValue, WireValue.wireType, WireValue.payload]
    rw [readVarint_varint rest 9 n (by omega), Option.map_some, Nat.mod_eq_of_lt hn]
  | i64 n =>
    have hn : n < 2 ^ 64 := h
    simp only [readValue, WireValue.wireType, WireValue.payload]
    rw [readLe_le rest 8 n (by omega)]
    rfl
  | len b =>
    have hb : b.length < 2 ^ 32 := h
    simp only [readValue, WireValue.wireType, WireValue.payload, List.append_assoc]
    rw [readVarint_varint _ 9 _ (by omega)]
    simp
  | i32 n =>
    have hn : n < 2 ^ 32 := h
    simp only [readValue, WireValue.wireType, WireValue.payload]
    rw [readLe_le rest 4 n (by omega)]
    rfl

/-- A field number of 29 bits, and a value that fits. -/
def ValidField (f : Nat × WireValue) : Prop := (0 < f.1 ∧ f.1 < 2 ^ 29) ∧ f.2.Valid

theorem validField_mk {n : Nat} {v : WireValue} (hn : 0 < n ∧ n < 2 ^ 29) (hv : v.Valid) :
    ValidField (n, v) := ⟨hn, hv⟩

theorem readField_field {f : Nat × WireValue} (h : ValidField f) (rest : Bytes) :
    readField (field f ++ rest) = some (f, rest) := by
  obtain ⟨n, v⟩ := f
  obtain ⟨⟨hpos, hlt⟩, hv⟩ := h
  simp only at hpos hlt hv
  have hw := v.wireType_lt
  have ht : 8 * n + v.wireType < 128 ^ (9 + 1) := by omega
  have hd : (8 * n + v.wireType) / 8 = n := by omega
  have hm : (8 * n + v.wireType) % 8 = v.wireType := by omega
  rw [readField, field, List.append_assoc, readVarint_varint _ 9 _ ht]
  simp only [Option.bind_some, hd, hm, readValue_payload v hv]
  rw [if_neg (by omega)]
  rfl

theorem length_field_pos (f : Nat × WireValue) : 0 < (field f).length := by
  have := length_varint_pos (8 * f.1 + f.2.wireType)
  simp only [field, List.length_append]
  omega

theorem readFields_message {fs : List (Nat × WireValue)} (h : ∀ f ∈ fs, ValidField f) :
    ∀ k, (message fs).length ≤ k → readFields k (message fs) = some fs := by
  induction fs with
  | nil =>
    intro k _
    cases k <;> rfl
  | cons f fs ih =>
    intro k hk
    have hpos := length_field_pos f
    have hm : message (f :: fs) = field f ++ message fs := by simp [message]
    rw [hm, List.length_append] at hk
    cases k with
    | zero => omega
    | succ k =>
      obtain ⟨b, bs, hb⟩ : ∃ b bs, field f ++ message fs = b :: bs :=
        List.exists_cons_of_ne_nil (by
          intro h0
          have := congrArg List.length h0
          simp only [List.length_append, List.length_nil] at this
          omega)
      rw [hm, hb, readFields, ← hb, readField_field (h f (by simp))]
      simp only [Option.bind_some]
      rw [ih (fun g hg => h g (by simp [hg])) k (by omega)]
      rfl

@[simp] theorem message_append (fs gs : List (Nat × WireValue)) :
    message (fs ++ gs) = message fs ++ message gs := by
  simp [message]

/-- The tag of a field number below `16` takes one byte. -/
theorem length_message_singleton {n : Nat} {v : WireValue} (h : n < 16) :
    (message [(n, v)]).length = 1 + v.payload.length := by
  have hw := v.wireType_lt
  have ht : 8 * n + v.wireType < 128 := by omega
  rw [message, List.flatMap_singleton, field, varint, if_pos ht]
  simp [Nat.add_comm]

theorem length_payload_len {b : Bytes} {k : Nat} (h : b.length < 128 ^ (k + 1)) :
    (WireValue.len b).payload.length ≤ k + 1 + b.length := by
  have := length_varint_le k _ h
  simp only [WireValue.payload, List.length_append]
  omega

theorem length_payload_varint {n : Nat} (h : n < 2 ^ 64) :
    (WireValue.varint n).payload.length ≤ 10 :=
  length_varint_le 9 n (by omega)

theorem readMessage_message {fs : List (Nat × WireValue)} (h : ∀ f ∈ fs, ValidField f) :
    readMessage (message fs) = some fs :=
  readFields_message h _ (le_refl _)

/-! ## Scalars -/

inductive ScalarType where
  | int32
  | int64
  | float
  | double
  | bool
  /-- shorter than `maxSize` bytes -/
  | string (maxSize : Nat)

/-- The values of the scalar types; the floating-point ones by their bits. -/
inductive Scalar where
  | int32 (x : BitVec 32)
  | int64 (x : BitVec 64)
  | float (x : BitVec 32)
  | double (x : BitVec 64)
  | bool (b : Bool)
  | string (s : Bytes)

namespace Scalar

/-- A negative `int32` is written with 64 bits. -/
def toWire : Scalar → WireValue
  | int32 x => .varint (x.signExtend 64).toNat
  | int64 x => .varint x.toNat
  | float x => .i32 x.toNat
  | double x => .i64 x.toNat
  | bool b => .varint b.toNat
  | string s => .len s

def isDefault : Scalar → Bool
  | int32 x => x == 0
  | int64 x => x == 0
  | float x => x == 0
  | double x => x == 0
  | bool b => !b
  | string s => s.isEmpty

/-- `none` for another wire type and for a string that is too long. -/
def read : ScalarType → WireValue → Option Scalar
  | .int32, .varint n => some (int32 (BitVec.ofNat 32 n))
  | .int64, .varint n => some (int64 (BitVec.ofNat 64 n))
  | .float, .i32 n => some (float (BitVec.ofNat 32 n))
  | .double, .i64 n => some (double (BitVec.ofNat 64 n))
  | .bool, .varint n => some (bool (n != 0))
  | .string maxSize, .len s => if s.length < maxSize then some (string s) else none
  | _, _ => none

def HasType : Scalar → ScalarType → Prop
  | int32 _, .int32 => True
  | int64 _, .int64 => True
  | float _, .float => True
  | double _, .double => True
  | bool _, .bool => True
  | string s, .string maxSize => s.length < maxSize
  | _, _ => False

theorem read_toWire {s : Scalar} {t : ScalarType} (h : s.HasType t) : read t s.toWire = some s := by
  cases s with
  | int32 x =>
    cases t with
    | int32 =>
      simp only [toWire, read, Option.some.injEq, int32.injEq]
      apply BitVec.eq_of_toNat_eq
      rw [BitVec.toNat_ofNat, BitVec.toNat_signExtend]
      simp
      split <;> omega
    | _ => cases h
  | int64 x =>
    cases t with
    | int64 => simp [toWire, read]
    | _ => cases h
  | float x =>
    cases t with
    | float => simp [toWire, read]
    | _ => cases h
  | double x =>
    cases t with
    | double => simp [toWire, read]
    | _ => cases h
  | bool b =>
    cases t with
    | bool => cases b <;> rfl
    | _ => cases h
  | string s =>
    cases t with
    | string maxSize => exact if_pos h
    | _ => cases h

/-- A string has a length of 32 bits. -/
theorem toWire_valid {s : Scalar} {t : ScalarType} (h : s.HasType t)
    (ht : ∀ maxSize, t = .string maxSize → maxSize ≤ 2 ^ 32) : s.toWire.Valid := by
  cases s with
  | int32 x => exact (x.signExtend 64).isLt
  | int64 x => exact x.isLt
  | float x => exact x.isLt
  | double x => exact x.isLt
  | bool b => cases b <;> simp [toWire, WireValue.Valid]
  | string s =>
    cases t with
    | string maxSize => exact lt_of_lt_of_le h (ht maxSize rfl)
    | _ => cases h

end Scalar

/-- A singular field: a default is not written. -/
def singular (number : Nat) (s : Scalar) : List (Nat × WireValue) :=
  if s.isDefault then [] else [(number, s.toWire)]

theorem mem_singular {number : Nat} {s : Scalar} {f : Nat × WireValue}
    (h : f ∈ singular number s) : f = (number, s.toWire) := by
  rw [singular] at h
  split at h
  · cases h
  · exact List.mem_singleton.mp h

theorem length_message_singular {number : Nat} (hn : number < 16) (s : Scalar) :
    (message (singular number s)).length ≤ 1 + s.toWire.payload.length := by
  rw [singular]
  split
  · simp [message]
  · rw [length_message_singleton hn]

/-- Setting the member of a singular field, written or not. -/
theorem foldlM_singular {M : Type} {set : M → Nat × WireValue → Option M} {number : Nat}
    {s : Scalar} {m m' : M} (hset : set m (number, s.toWire) = some m')
    (hd : s.isDefault = true → m = m') : (singular number s).foldlM set m = some m' := by
  rw [singular]
  split
  · rename_i h
    rw [hd h]
    rfl
  · rw [List.foldlM_cons, hset]
    rfl

end Proto3
end Wire
