import BvexLink.FetchClient.SamplePb

/-!
# BvexLink.FetchClient.SendSample

The calls of `send_sample.c`, with their bounds checks on. `pb_encode` is a parameter that writes
the fields of the generated headers (`WritesProto3`).

* `strlcpy_str`: a string shorter than the array is copied whole.
* `Call.run_checked`: a call gets to `send_sample` with its strings copied, or is rejected.
* `transmitted`: every call sends its sample, whole, or reports an error and sends nothing.
-/

namespace BvexLink
namespace FetchClient

open Wire Proto3

/-! ## C strings -/

/-- What a `const char*` that is not `NULL` points to, up to the terminator. -/
structure CString where
  bytes : Bytes
  ok : (0 : UInt8) ∉ bytes

/-- The memory of an array. -/
structure CharArray where
  bytes : Bytes

def CharArray.zero (size : Nat) : CharArray := ⟨List.replicate size 0⟩

/-- The string in an array. -/
def CharArray.str (a : CharArray) : Bytes := a.bytes.takeWhile (· ≠ 0)

def CharArray.Terminated (a : CharArray) : Prop := (0 : UInt8) ∈ a.bytes

def strnlen (s : CString) (maxlen : Nat) : Nat := min s.bytes.length maxlen

/-- At most `size - 1` bytes and a terminator; what lies behind it stays. -/
def strlcpy (dst : CharArray) (src : CString) (size : Nat) : CharArray :=
  if size = 0 then dst
  else
    ⟨src.bytes.take (size - 1) ++ 0 :: dst.bytes.drop (min src.bytes.length (size - 1) + 1)⟩

/-- `none` if `!p || *p == 0`. -/
def nonEmpty (p : Option CString) : Option CString := p.filter fun s => !s.bytes.isEmpty

/-! ## The calls -/

inductive SendStatus where
  | ok
  | encodingError
  | sendError
  | memoryAllocationError
  | threadCreationError
  | boundsCheckError
  deriving DecidableEq

def STRING_VALUE_MAX_SIZE : Nat := 4096
def METRIC_ID_MAX_SIZE : Nat := 64
def FILE_PATH_MAX_SIZE : Nat := 128
def EXTENSION_MAX_SIZE : Nat := 16

def SAMPLE_PB_H_MAX_SIZE : Nat := 4171

section Calls

-- `pb_encode` into a buffer of a size, and the result of `send`
variable (pbEncode : Nat → Sample CharArray → Option Bytes) (send : Int → Bytes → Int)

def sendSample (socket_fd : Int) (message : Sample CharArray) : SendStatus × List Bytes :=
  match pbEncode SAMPLE_PB_H_MAX_SIZE message with
  | none => (.encodingError, [])
  | some buffer => if send socket_fd buffer < 0 then (.sendError, [buffer]) else (.ok, [buffer])

/-- The body shared by the calls that send a number or a truth value. -/
def sendSampleScalar (socket_fd : Int) (metric_id : Option CString) (timestamp : BitVec 32)
    (value : PrimitiveValue CharArray) : SendStatus × List Bytes :=
  match nonEmpty metric_id with
  | none => (.encodingError, [])
  | some metric_id =>
    if strnlen metric_id METRIC_ID_MAX_SIZE = METRIC_ID_MAX_SIZE then (.boundsCheckError, [])
    else sendSample pbEncode send socket_fd
      ⟨strlcpy (.zero sizeofMetricId) metric_id METRIC_ID_MAX_SIZE, timestamp,
        some (.primitive ⟨some value⟩)⟩

def sendSampleInt32 (socket_fd : Int) (metric_id : Option CString) (timestamp : BitVec 32)
    (value : BitVec 32) : SendStatus × List Bytes :=
  sendSampleScalar pbEncode send socket_fd metric_id timestamp (.int_val value)

def sendSampleInt64 (socket_fd : Int) (metric_id : Option CString) (timestamp : BitVec 32)
    (value : BitVec 64) : SendStatus × List Bytes :=
  sendSampleScalar pbEncode send socket_fd metric_id timestamp (.long_val value)

def sendSampleFloat (socket_fd : Int) (metric_id : Option CString) (timestamp : BitVec 32)
    (value : BitVec 32) : SendStatus × List Bytes :=
  sendSampleScalar pbEncode send socket_fd metric_id timestamp (.float_val value)

def sendSampleDouble (socket_fd : Int) (metric_id : Option CString) (timestamp : BitVec 32)
    (value : BitVec 64) : SendStatus × List Bytes :=
  sendSampleScalar pbEncode send socket_fd metric_id timestamp (.double_val value)

def sendSampleBool (socket_fd : Int) (metric_id : Option CString) (timestamp : BitVec 32)
    (value : Bool) : SendStatus × List Bytes :=
  sendSampleScalar pbEncode send socket_fd metric_id timestamp (.bool_val value)

def sendSampleString (socket_fd : Int) (metric_id : Option CString) (timestamp : BitVec 32)
    (value : Option CString) : SendStatus × List Bytes :=
  match nonEmpty metric_id, nonEmpty value with
  | some metric_id, some value =>
    if strnlen metric_id METRIC_ID_MAX_SIZE = METRIC_ID_MAX_SIZE ∨
        strnlen value STRING_VALUE_MAX_SIZE = STRING_VALUE_MAX_SIZE then (.boundsCheckError, [])
    else sendSample pbEncode send socket_fd
      ⟨strlcpy (.zero sizeofMetricId) metric_id METRIC_ID_MAX_SIZE, timestamp,
        some (.primitive ⟨some (.string_val
          (strlcpy (.zero sizeofStringVal) value STRING_VALUE_MAX_SIZE))⟩)⟩
  | _, _ => (.encodingError, [])

def sendSampleFile (socket_fd : Int) (metric_id : Option CString) (timestamp : BitVec 32)
    (filepath extension : Option CString) : SendStatus × List Bytes :=
  match nonEmpty metric_id, nonEmpty filepath, nonEmpty extension with
  | some metric_id, some filepath, some extension =>
    if strnlen metric_id METRIC_ID_MAX_SIZE = METRIC_ID_MAX_SIZE ∨
        strnlen filepath FILE_PATH_MAX_SIZE = FILE_PATH_MAX_SIZE ∨
        strnlen extension EXTENSION_MAX_SIZE = EXTENSION_MAX_SIZE then (.boundsCheckError, [])
    else sendSample pbEncode send socket_fd
      ⟨strlcpy (.zero sizeofMetricId) metric_id METRIC_ID_MAX_SIZE, timestamp,
        some (.file ⟨strlcpy (.zero sizeofFilepath) filepath FILE_PATH_MAX_SIZE,
          strlcpy (.zero sizeofExtension) extension EXTENSION_MAX_SIZE⟩)⟩
  | _, _, _ => (.encodingError, [])

/-- One of the seven calls. -/
inductive Call where
  | int32 (metric_id : Option CString) (timestamp : BitVec 32) (value : BitVec 32)
  | int64 (metric_id : Option CString) (timestamp : BitVec 32) (value : BitVec 64)
  | float (metric_id : Option CString) (timestamp : BitVec 32) (value : BitVec 32)
  | double (metric_id : Option CString) (timestamp : BitVec 32) (value : BitVec 64)
  | bool (metric_id : Option CString) (timestamp : BitVec 32) (value : Bool)
  | string (metric_id : Option CString) (timestamp : BitVec 32) (value : Option CString)
  | file (metric_id : Option CString) (timestamp : BitVec 32) (filepath extension : Option CString)

def Call.run (socket_fd : Int) : Call → SendStatus × List Bytes
  | int32 metric_id timestamp value =>
    sendSampleInt32 pbEncode send socket_fd metric_id timestamp value
  | int64 metric_id timestamp value =>
    sendSampleInt64 pbEncode send socket_fd metric_id timestamp value
  | float metric_id timestamp value =>
    sendSampleFloat pbEncode send socket_fd metric_id timestamp value
  | double metric_id timestamp value =>
    sendSampleDouble pbEncode send socket_fd metric_id timestamp value
  | bool metric_id timestamp value =>
    sendSampleBool pbEncode send socket_fd metric_id timestamp value
  | string metric_id timestamp value =>
    sendSampleString pbEncode send socket_fd metric_id timestamp value
  | file metric_id timestamp filepath extension =>
    sendSampleFile pbEncode send socket_fd metric_id timestamp filepath extension

/-! ## What the calls mean -/

/-- The sample of the arguments, if none that it needs is `NULL`. -/
def Call.sample : Call → Option (Sample Bytes)
  | int32 metric_id timestamp value => scalar metric_id timestamp (.int_val value)
  | int64 metric_id timestamp value => scalar metric_id timestamp (.long_val value)
  | float metric_id timestamp value => scalar metric_id timestamp (.float_val value)
  | double metric_id timestamp value => scalar metric_id timestamp (.double_val value)
  | bool metric_id timestamp value => scalar metric_id timestamp (.bool_val value)
  | string metric_id timestamp value =>
    value.bind fun v => scalar metric_id timestamp (.string_val v.bytes)
  | file metric_id timestamp filepath extension =>
    metric_id.bind fun id => filepath.bind fun f => extension.map fun e =>
      ⟨id.bytes, timestamp, some (.file ⟨f.bytes, e.bytes⟩)⟩
where
  scalar (metric_id : Option CString) (timestamp : BitVec 32) (value : PrimitiveValue Bytes) :
      Option (Sample Bytes) :=
    metric_id.map fun id => ⟨id.bytes, timestamp, some (.primitive ⟨some value⟩)⟩

/-- The pointer is not `NULL`, and the string neither empty nor too long for an array. -/
def Admissible (p : Option CString) (size : Nat) : Prop :=
  ∃ s, p = some s ∧ s.bytes ≠ [] ∧ s.bytes.length < size

def Call.Admissible : Call → Prop
  | int32 metric_id _ _ | int64 metric_id _ _ | float metric_id _ _ | double metric_id _ _
  | bool metric_id _ _ => FetchClient.Admissible metric_id METRIC_ID_MAX_SIZE
  | string metric_id _ value =>
    FetchClient.Admissible metric_id METRIC_ID_MAX_SIZE ∧
      FetchClient.Admissible value STRING_VALUE_MAX_SIZE
  | file metric_id _ filepath extension =>
    FetchClient.Admissible metric_id METRIC_ID_MAX_SIZE ∧
      FetchClient.Admissible filepath FILE_PATH_MAX_SIZE ∧
      FetchClient.Admissible extension EXTENSION_MAX_SIZE

/-- `pb_encode` writes the fields of the strings in the arrays if they fit the buffer, and fails
otherwise. -/
def WritesProto3 : Prop :=
  ∀ capacity (m : Sample CharArray), (∀ x ∈ m.strings, x.1.Terminated) →
    pbEncode capacity m =
      if (message (m.map CharArray.str).fields).length ≤ capacity
      then some (message (m.map CharArray.str).fields) else none

end Calls

/-! ## Strings and checks -/

theorem takeWhile_append_zero {s : Bytes} (h : (0 : UInt8) ∉ s) (rest : Bytes) :
    (s ++ 0 :: rest).takeWhile (· ≠ 0) = s := by
  induction s with
  | nil => rfl
  | cons b s ih =>
    simp only [List.mem_cons, not_or] at h
    rw [List.cons_append, List.takeWhile_cons, if_pos (by simpa using Ne.symm h.1), ih h.2]

theorem strlcpy_str {dst : CharArray} {src : CString} {size : Nat} (h : src.bytes.length < size) :
    (strlcpy dst src size).str = src.bytes := by
  rw [strlcpy, if_neg (by omega), CharArray.str, List.take_of_length_le (by omega)]
  exact takeWhile_append_zero src.ok _

theorem strlcpy_terminated {dst : CharArray} {src : CString} {size : Nat} (h : 0 < size) :
    (strlcpy dst src size).Terminated := by
  rw [strlcpy, if_neg (by omega)]
  simp [CharArray.Terminated]

theorem nonEmpty_eq_some {p : Option CString} {s : CString} :
    nonEmpty p = some s ↔ p = some s ∧ s.bytes ≠ [] := by
  simp [nonEmpty, Option.filter_eq_some_iff]

theorem not_admissible {p : Option CString} {size : Nat} (h : nonEmpty p = none) :
    ¬ Admissible p size := by
  rintro ⟨s, hp, hs, _⟩
  rw [nonEmpty_eq_some.mpr ⟨hp, hs⟩] at h
  cases h

theorem admissible_iff {p : Option CString} {s : CString} {size : Nat} (h : nonEmpty p = some s) :
    Admissible p size ↔ ¬ strnlen s size = size := by
  obtain ⟨rfl, hs⟩ := nonEmpty_eq_some.mp h
  rw [strnlen]
  constructor
  · rintro ⟨_, ⟨⟩, _, hl⟩
    omega
  · intro hn
    exact ⟨s, rfl, hs, by omega⟩

theorem length_lt {p : Option CString} {s : CString} {size : Nat} (h : nonEmpty p = some s)
    (ha : Admissible p size) : s.bytes.length < size := by
  rw [admissible_iff h, strnlen] at ha
  omega

/-! ## What a call does -/

/-- The arrays of the struct hold the strings of the sample. -/
structure Holds (m : Sample CharArray) (s : Sample Bytes) : Prop where
  terminated : ∀ x ∈ m.strings, x.1.Terminated
  map : m.map CharArray.str = s
  bounded : Bounded s.strings

def Rejected (r : SendStatus × List Bytes) : Prop :=
  r = (.encodingError, []) ∨ r = (.boundsCheckError, [])

section Spec

variable {pbEncode : Nat → Sample CharArray → Option Bytes} {send : Int → Bytes → Int}
  {socket_fd : Int}

theorem sendSample_eq (hpb : WritesProto3 pbEncode) {m : Sample CharArray} {s : Sample Bytes}
    (h : Holds m s) : sendSample pbEncode send socket_fd m =
      (if send socket_fd (message s.fields) < 0 then .sendError else .ok, [message s.fields]) := by
  have hl : (message s.fields).length ≤ SAMPLE_PB_H_MAX_SIZE := Sample.length_fields h.bounded
  rw [sendSample, hpb _ m h.terminated, h.map, if_pos hl]
  simp only
  split <;> rfl

theorem holds_primitive {id : CString} (hid : id.bytes.length < METRIC_ID_MAX_SIZE)
    (timestamp : BitVec 32) {v : PrimitiveValue CharArray} {w : PrimitiveValue Bytes}
    (ht : ∀ x ∈ v.strings, x.1.Terminated) (hw : v.map CharArray.str = w) (hb : Bounded w.strings) :
    Holds ⟨strlcpy (.zero sizeofMetricId) id METRIC_ID_MAX_SIZE, timestamp,
      some (.primitive ⟨some v⟩)⟩ ⟨id.bytes, timestamp, some (.primitive ⟨some w⟩)⟩ where
  terminated := by
    intro x hx
    rcases List.mem_cons.mp hx with rfl | hx
    · exact strlcpy_terminated (by decide)
    · exact ht x hx
  map := by simp [Sample.map, SampleData.map, strlcpy_str hid, hw]
  bounded := by
    intro x hx
    rcases List.mem_cons.mp hx with rfl | hx
    · exact hid
    · exact hb x hx

theorem holds_file {id f e : CString} (hid : id.bytes.length < METRIC_ID_MAX_SIZE)
    (timestamp : BitVec 32) (hf : f.bytes.length < FILE_PATH_MAX_SIZE)
    (he : e.bytes.length < EXTENSION_MAX_SIZE) :
    Holds ⟨strlcpy (.zero sizeofMetricId) id METRIC_ID_MAX_SIZE, timestamp,
      some (.file ⟨strlcpy (.zero sizeofFilepath) f FILE_PATH_MAX_SIZE,
        strlcpy (.zero sizeofExtension) e EXTENSION_MAX_SIZE⟩)⟩
      ⟨id.bytes, timestamp, some (.file ⟨f.bytes, e.bytes⟩)⟩ where
  terminated := by
    intro x hx
    simp only [Sample.strings, Option.elim_some, SampleData.strings, List.mem_cons,
      List.not_mem_nil, or_false] at hx
    rcases hx with rfl | rfl | rfl <;> exact strlcpy_terminated (by decide)
  map := by simp [Sample.map, SampleData.map, strlcpy_str hid, strlcpy_str hf, strlcpy_str he]
  bounded := by
    intro x hx
    simp only [Sample.strings, Option.elim_some, SampleData.strings, List.mem_cons,
      List.not_mem_nil, or_false] at hx
    rcases hx with rfl | rfl | rfl
    · exact hid
    · exact hf
    · exact he

/-- The call got to `send_sample` with a struct that holds the sample, or was rejected. -/
def Checked (pbEncode : Nat → Sample CharArray → Option Bytes) (send : Int → Bytes → Int)
    (socket_fd : Int) (admissible : Prop) (sample : Option (Sample Bytes))
    (r : SendStatus × List Bytes) : Prop :=
  (admissible ∧ ∃ m s, sample = some s ∧ Holds m s ∧ r = sendSample pbEncode send socket_fd m) ∨
    ¬ admissible ∧ Rejected r

theorem sendSampleScalar_checked (metric_id : Option CString) (timestamp : BitVec 32)
    {v : PrimitiveValue CharArray} {w : PrimitiveValue Bytes} (hv : v.strings = [])
    (hw : v.map CharArray.str = w) (hb : w.strings = []) :
    Checked pbEncode send socket_fd (Admissible metric_id METRIC_ID_MAX_SIZE)
      (Call.sample.scalar metric_id timestamp w)
      (sendSampleScalar pbEncode send socket_fd metric_id timestamp v) := by
  rw [sendSampleScalar]
  cases h : nonEmpty metric_id with
  | none => exact .inr ⟨not_admissible h, .inl rfl⟩
  | some id =>
    simp only
    split
    · rename_i hl
      exact .inr ⟨fun ha => (admissible_iff h).mp ha hl, .inr rfl⟩
    · rename_i hl
      have ha := (admissible_iff h).mpr hl
      refine .inl ⟨ha, _, _, ?_, holds_primitive (length_lt h ha) timestamp ?_ hw ?_, rfl⟩
      · rw [Call.sample.scalar, (nonEmpty_eq_some.mp h).1]
        rfl
      · simp [hv]
      · simp [hb, Bounded]

theorem sendSampleString_checked (metric_id : Option CString) (timestamp : BitVec 32)
    (value : Option CString) :
    Checked pbEncode send socket_fd (Call.string metric_id timestamp value).Admissible
      (Call.string metric_id timestamp value).sample
      (sendSampleString pbEncode send socket_fd metric_id timestamp value) := by
  rw [sendSampleString]
  cases h : nonEmpty metric_id with
  | none => exact .inr ⟨fun ha => not_admissible h ha.1, .inl rfl⟩
  | some id =>
    cases h' : nonEmpty value with
    | none => exact .inr ⟨fun ha => not_admissible h' ha.2, .inl rfl⟩
    | some v =>
      simp only
      split
      · rename_i hl
        refine .inr ⟨?_, .inr rfl⟩
        rintro ⟨ha, ha'⟩
        rcases hl with hl | hl
        · exact (admissible_iff h).mp ha hl
        · exact (admissible_iff h').mp ha' hl
      · rename_i hl
        obtain ⟨hl, hl'⟩ := not_or.mp hl
        have ha := (admissible_iff h).mpr hl
        have ha' := (admissible_iff h').mpr hl'
        have hv := length_lt h' ha'
        refine .inl ⟨⟨ha, ha'⟩, _, ⟨id.bytes, timestamp, some (.primitive ⟨some (.string_val v.bytes)⟩)⟩,
          ?_, holds_primitive (length_lt h ha) timestamp ?_ ?_ ?_, rfl⟩
        · rw [Call.sample, (nonEmpty_eq_some.mp h).1, (nonEmpty_eq_some.mp h').1]
          rfl
        · simp [PrimitiveValue.strings, strlcpy_terminated (by decide : 0 < STRING_VALUE_MAX_SIZE)]
        · rw [PrimitiveValue.map, strlcpy_str hv]
        · intro x hx
          rw [List.mem_singleton.mp hx]
          exact hv

theorem sendSampleFile_checked (metric_id : Option CString) (timestamp : BitVec 32)
    (filepath extension : Option CString) :
    Checked pbEncode send socket_fd (Call.file metric_id timestamp filepath extension).Admissible
      (Call.file metric_id timestamp filepath extension).sample
      (sendSampleFile pbEncode send socket_fd metric_id timestamp filepath extension) := by
  rw [sendSampleFile]
  cases h : nonEmpty metric_id with
  | none => exact .inr ⟨fun ha => not_admissible h ha.1, .inl rfl⟩
  | some id =>
    cases hf : nonEmpty filepath with
    | none => exact .inr ⟨fun ha => not_admissible hf ha.2.1, .inl rfl⟩
    | some f =>
      cases he : nonEmpty extension with
      | none => exact .inr ⟨fun ha => not_admissible he ha.2.2, .inl rfl⟩
      | some e =>
        simp only
        split
        · rename_i hl
          refine .inr ⟨?_, .inr rfl⟩
          rintro ⟨ha, haf, hae⟩
          rcases hl with hl | hl | hl
          · exact (admissible_iff h).mp ha hl
          · exact (admissible_iff hf).mp haf hl
          · exact (admissible_iff he).mp hae hl
        · rename_i hl
          simp only [not_or] at hl
          have ha := (admissible_iff h).mpr hl.1
          have haf := (admissible_iff hf).mpr hl.2.1
          have hae := (admissible_iff he).mpr hl.2.2
          refine .inl ⟨⟨ha, haf, hae⟩, _, _, ?_,
            holds_file (length_lt h ha) timestamp (length_lt hf haf) (length_lt he hae), rfl⟩
          rw [Call.sample, (nonEmpty_eq_some.mp h).1, (nonEmpty_eq_some.mp hf).1,
            (nonEmpty_eq_some.mp he).1]
          rfl

theorem Call.run_checked (pbEncode : Nat → Sample CharArray → Option Bytes)
    (send : Int → Bytes → Int) (socket_fd : Int) (c : Call) :
    Checked pbEncode send socket_fd c.Admissible c.sample (c.run pbEncode send socket_fd) := by
  cases c with
  | int32 metric_id timestamp value => exact sendSampleScalar_checked _ _ rfl rfl rfl
  | int64 metric_id timestamp value => exact sendSampleScalar_checked _ _ rfl rfl rfl
  | float metric_id timestamp value => exact sendSampleScalar_checked _ _ rfl rfl rfl
  | double metric_id timestamp value => exact sendSampleScalar_checked _ _ rfl rfl rfl
  | bool metric_id timestamp value => exact sendSampleScalar_checked _ _ rfl rfl rfl
  | string metric_id timestamp value => exact sendSampleString_checked _ _ _
  | file metric_id timestamp filepath extension => exact sendSampleFile_checked _ _ _ _

/-- A call sends nothing and reports an error, or hands one datagram to `send` that is decoded to
the sample of its arguments. Arguments that pass the checks are encoded. -/
theorem transmitted (hpb : WritesProto3 pbEncode) (send : Int → Bytes → Int) (socket_fd : Int)
    (c : Call) :
    ((c.run pbEncode send socket_fd).1 ≠ .ok ∧ (c.run pbEncode send socket_fd).2 = [] ∨
      ∃ d s, (c.run pbEncode send socket_fd).2 = [d] ∧ d.length ≤ SAMPLE_PB_H_MAX_SIZE ∧
        c.sample = some s ∧ Sample.decode d = some s) ∧
    (c.Admissible → (c.run pbEncode send socket_fd).1 ≠ .encodingError ∧
      (c.run pbEncode send socket_fd).2 ≠ []) := by
  rcases c.run_checked pbEncode send socket_fd with
    ⟨_, m, s, hs, hm, hr⟩ | ⟨hn, hr⟩
  · rw [hr, sendSample_eq hpb hm]
    refine ⟨.inr ⟨message s.fields, s, rfl, Sample.length_fields hm.bounded, hs,
      Sample.decode_message hm.bounded⟩, ?_⟩
    intro _
    constructor
    · simp only
      split <;> decide
    · simp
  · refine ⟨.inl ?_, fun ha => absurd ha hn⟩
    rcases hr with hr | hr <;> rw [hr] <;> decide

end Spec

/-! ## An instance -/

def encodeFields (capacity : Nat) (m : Sample CharArray) : Option Bytes :=
  if (message (m.map CharArray.str).fields).length ≤ capacity
  then some (message (m.map CharArray.str).fields) else none

/-- `"alt"` -/
def alt : CString := ⟨[97, 108, 116], by decide⟩

/-- The value `-1`, of ten bytes. -/
theorem alt_transmitted : ∃ d s,
    ((Call.int32 (some alt) 0 (-1)).run encodeFields (fun _ b => b.length) 3).2 = [d] ∧
      d.length ≤ SAMPLE_PB_H_MAX_SIZE ∧ (Call.int32 (some alt) 0 (-1)).sample = some s ∧
        Sample.decode d = some s := by
  have h := @transmitted encodeFields (fun _ _ _ => rfl) (fun _ b => b.length) 3
    (.int32 (some alt) 0 (-1))
  exact h.1.resolve_left fun hn => (h.2 ⟨alt, rfl, by decide, by decide⟩).2 hn.2

end FetchClient
end BvexLink
