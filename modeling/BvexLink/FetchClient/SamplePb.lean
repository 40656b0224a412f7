import BvexLink.Wire.Proto3

/-!
# BvexLink.FetchClient.SamplePb

The messages of `sample.proto` and `primitive.proto`, with the sizes of the generated structs. `S`
is what a string is: the array of a struct, or its bytes once decoded. Decoding does not ask for
UTF-8.

* `Sample.length_fields`: `Sample_size` bounds the encoding.
* `Sample.decode_message`: decoding the fields of a sample gives the sample.
-/

namespace BvexLink
namespace FetchClient

open Wire Proto3

/-! ## Samples -/

inductive PrimitiveValue (S : Type) where
  | int_val (x : BitVec 32)
  | long_val (x : BitVec 64)
  | float_val (x : BitVec 32)
  | double_val (x : BitVec 64)
  | bool_val (b : Bool)
  | string_val (s : S)

/-- `none` where `which_value` is `0`. -/
structure Primitive (S : Type) where
  value : Option (PrimitiveValue S)

structure File (S : Type) where
  filepath : S
  extension : S

inductive SampleData (S : Type) where
  | primitive (p : Primitive S)
  | file (f : File S)

/-- `none` where `which_data` is `0`. -/
structure Sample (S : Type) where
  metric_id : S
  timestamp : BitVec 32
  data : Option (SampleData S)

/-! The sizes of the arrays of the generated structs. -/

def sizeofMetricId : Nat := 64
def sizeofStringVal : Nat := 4096
def sizeofFilepath : Nat := 128
def sizeofExtension : Nat := 16

section Map

variable {S T : Type} (f : S → T)

def PrimitiveValue.map : PrimitiveValue S → PrimitiveValue T
  | .int_val x => .int_val x
  | .long_val x => .long_val x
  | .float_val x => .float_val x
  | .double_val x => .double_val x
  | .bool_val b => .bool_val b
  | .string_val s => .string_val (f s)

def SampleData.map : SampleData S → SampleData T
  | .primitive p => .primitive ⟨p.value.map (·.map f)⟩
  | .file v => .file ⟨f v.filepath, f v.extension⟩

def Sample.map (m : Sample S) : Sample T := ⟨f m.metric_id, m.timestamp, m.data.map (·.map f)⟩

/-- The strings, each with the size of its array. -/
def PrimitiveValue.strings : PrimitiveValue S → List (S × Nat)
  | .string_val s => [(s, sizeofStringVal)]
  | _ => []

def SampleData.strings : SampleData S → List (S × Nat)
  | .primitive p => p.value.elim [] PrimitiveValue.strings
  | .file v => [(v.filepath, sizeofFilepath), (v.extension, sizeofExtension)]

def Sample.strings (m : Sample S) : List (S × Nat) :=
  (m.metric_id, sizeofMetricId) :: m.data.elim [] SampleData.strings

end Map

/-! ## The field lists -/

def PrimitiveValue.tag : PrimitiveValue Bytes → Nat
  | .int_val _ => 1
  | .long_val _ => 2
  | .float_val _ => 3
  | .double_val _ => 4
  | .bool_val _ => 5
  | .string_val _ => 6

def PrimitiveValue.scalar : PrimitiveValue Bytes → Scalar
  | .int_val x => .int32 x
  | .long_val x => .int64 x
  | .float_val x => .float x
  | .double_val x => .double x
  | .bool_val b => .bool b
  | .string_val s => .string s

/-- The member of a oneof is written also where it is a default. -/
def Primitive.fields (p : Primitive Bytes) : List (Nat × WireValue) :=
  match p.value with
  | none => []
  | some v => [(v.tag, v.scalar.toWire)]

def File.fields (f : File Bytes) : List (Nat × WireValue) :=
  singular 1 (.string f.filepath) ++ singular 2 (.string f.extension)

def SampleData.fields : SampleData Bytes → List (Nat × WireValue)
  | .primitive p => [(3, .len (message p.fields))]
  | .file f => [(4, .len (message f.fields))]

def Sample.fields (m : Sample Bytes) : List (Nat × WireValue) :=
  singular 1 (.string m.metric_id) ++ singular 2 (.float m.timestamp) ++
    m.data.elim [] SampleData.fields

/-! ## Decoding -/

def readString (maxSize : Nat) (v : WireValue) : Option Bytes :=
  match Scalar.read (.string maxSize) v with
  | some (.string s) => some s
  | _ => none

/-- A field sets its member; an unknown one is skipped. -/
def Primitive.set (p : Primitive Bytes) : Nat × WireValue → Option (Primitive Bytes)
  | (1, v) => (Scalar.read .int32 v).bind fun | .int32 x => some ⟨some (.int_val x)⟩ | _ => none
  | (2, v) => (Scalar.read .int64 v).bind fun | .int64 x => some ⟨some (.long_val x)⟩ | _ => none
  | (3, v) => (Scalar.read .float v).bind fun | .float x => some ⟨some (.float_val x)⟩ | _ => none
  | (4, v) =>
    (Scalar.read .double v).bind fun | .double x => some ⟨some (.double_val x)⟩ | _ => none
  | (5, v) => (Scalar.read .bool v).bind fun | .bool b => some ⟨some (.bool_val b)⟩ | _ => none
  | (6, v) => (readString sizeofStringVal v).map fun s => ⟨some (.string_val s)⟩
  | _ => some p

def File.set (f : File Bytes) : Nat × WireValue → Option (File Bytes)
  | (1, v) => (readString sizeofFilepath v).map fun s => { f with filepath := s }
  | (2, v) => (readString sizeofExtension v).map fun s => { f with extension := s }
  | _ => some f

/-- What a submessage is merged into: the member if it is the one that is set. -/
def Sample.primitiveSet (m : Sample Bytes) : Primitive Bytes :=
  match m.data with
  | some (.primitive p) => p
  | _ => ⟨none⟩

def Sample.fileSet (m : Sample Bytes) : File Bytes :=
  match m.data with
  | some (.file f) => f
  | _ => ⟨[], []⟩

def Sample.set (m : Sample Bytes) : Nat × WireValue → Option (Sample Bytes)
  | (1, v) => (readString sizeofMetricId v).map fun s => { m with metric_id := s }
  | (2, v) => (Scalar.read .float v).bind fun | .float x => some { m with timestamp := x } | _ => none
  | (3, .len b) =>
    ((readMessage b).bind fun fs => fs.foldlM Primitive.set m.primitiveSet).map
      fun p => { m with data := some (.primitive p) }
  | (3, _) => none
  | (4, .len b) =>
    ((readMessage b).bind fun fs => fs.foldlM File.set m.fileSet).map
      fun f => { m with data := some (.file f) }
  | (4, _) => none
  | _ => some m

/-- `pb_decode` into an empty `Sample`. -/
def Sample.decode (datagram : Bytes) : Option (Sample Bytes) :=
  (readMessage datagram).bind fun fs => fs.foldlM Sample.set ⟨[], 0, none⟩

/-! ## Round trip -/

/-- Every string is shorter than its array. -/
def Bounded (strings : List (Bytes × Nat)) : Prop := ∀ x ∈ strings, x.1.length < x.2

theorem readString_string {s : Bytes} {maxSize : Nat} (h : s.length < maxSize) :
    readString maxSize (Scalar.string s).toWire = some s := by
  have ht : (Scalar.string s).HasType (.string maxSize) := h
  rw [readString, Scalar.read_toWire ht]

theorem Primitive.set_scalar {v : PrimitiveValue Bytes} (h : Bounded v.strings)
    (p : Primitive Bytes) : p.set (v.tag, v.scalar.toWire) = some ⟨some v⟩ := by
  cases v with
  | int_val x =>
    have ht : (Scalar.int32 x).HasType .int32 := trivial
    simp [Primitive.set, PrimitiveValue.tag, PrimitiveValue.scalar, Scalar.read_toWire ht]
  | long_val x =>
    have ht : (Scalar.int64 x).HasType .int64 := trivial
    simp [Primitive.set, PrimitiveValue.tag, PrimitiveValue.scalar, Scalar.read_toWire ht]
  | float_val x =>
    have ht : (Scalar.float x).HasType .float := trivial
    simp [Primitive.set, PrimitiveValue.tag, PrimitiveValue.scalar, Scalar.read_toWire ht]
  | double_val x =>
    have ht : (Scalar.double x).HasType .double := trivial
    simp [Primitive.set, PrimitiveValue.tag, PrimitiveValue.scalar, Scalar.read_toWire ht]
  | bool_val b =>
    have ht : (Scalar.bool b).HasType .bool := trivial
    simp [Primitive.set, PrimitiveValue.tag, PrimitiveValue.scalar, Scalar.read_toWire ht]
  | string_val s =>
    have hs : s.length < sizeofStringVal := h (s, sizeofStringVal) (by simp [PrimitiveValue.strings])
    simp [Primitive.set, PrimitiveValue.tag, PrimitiveValue.scalar, readString_string hs]

/-- The strings of a file that fit their arrays. -/
theorem File.bounded {f : File Bytes} (h : Bounded (SampleData.file f).strings) :
    f.filepath.length < sizeofFilepath ∧ f.extension.length < sizeofExtension := by
  have hp := h (f.filepath, sizeofFilepath) (by simp [SampleData.strings])
  have he := h (f.extension, sizeofExtension) (by simp [SampleData.strings])
  exact ⟨hp, he⟩

theorem isDefault_string {s : Bytes} (h : (Scalar.string s).isDefault = true) : s = [] :=
  List.isEmpty_iff.mp h

theorem File.set_fields {f : File Bytes} (h : Bounded (SampleData.file f).strings) :
    f.fields.foldlM File.set ⟨[], []⟩ = some f := by
  obtain ⟨hp, he⟩ := File.bounded h
  have h1 : (singular 1 (.string f.filepath)).foldlM File.set ⟨[], []⟩ = some ⟨f.filepath, []⟩ :=
    foldlM_singular (by simp [File.set, readString_string hp])
      fun hd => by rw [isDefault_string hd]
  have h2 : (singular 2 (.string f.extension)).foldlM File.set ⟨f.filepath, []⟩ = some f :=
    foldlM_singular (by simp [File.set, readString_string he])
      fun hd => by rw [← isDefault_string hd]
  rw [File.fields, List.foldlM_append, h1]
  exact h2

theorem File.fields_valid {f : File Bytes} (h : Bounded (SampleData.file f).strings) :
    ∀ x ∈ f.fields, ValidField x := by
  obtain ⟨hp, he⟩ := File.bounded h
  intro x hx
  rcases List.mem_append.mp hx with hx | hx
  · rw [mem_singular hx]
    exact validField_mk (by decide) (lt_trans hp (by decide))
  · rw [mem_singular hx]
    exact validField_mk (by decide) (lt_trans he (by decide))

/-- `File_size` bounds a file. -/
theorem File.length_fields {f : File Bytes} (h : Bounded (SampleData.file f).strings) :
    (message f.fields).length ≤ 147 := by
  have hp : f.filepath.length < 128 := (File.bounded h).1
  have he : f.extension.length < 16 := (File.bounded h).2
  have h1 := length_message_singular (by decide : 1 < 16) (.string f.filepath)
  have h2 := length_message_singular (by decide : 2 < 16) (.string f.extension)
  have h3 : (Scalar.string f.filepath).toWire.payload.length ≤ 0 + 1 + f.filepath.length :=
    length_payload_len (by omega)
  have h4 : (Scalar.string f.extension).toWire.payload.length ≤ 0 + 1 + f.extension.length :=
    length_payload_len (by omega)
  rw [File.fields, message_append, List.length_append]
  omega

theorem PrimitiveValue.tag_bounds (v : PrimitiveValue Bytes) : 0 < v.tag ∧ v.tag < 16 := by
  cases v <;> simp [PrimitiveValue.tag]

theorem PrimitiveValue.hasType {v : PrimitiveValue Bytes} (h : Bounded v.strings) :
    ∃ t, v.scalar.HasType t ∧ ∀ maxSize, t = .string maxSize → maxSize ≤ 2 ^ 32 := by
  cases v with
  | int_val x => exact ⟨.int32, trivial, nofun⟩
  | long_val x => exact ⟨.int64, trivial, nofun⟩
  | float_val x => exact ⟨.float, trivial, nofun⟩
  | double_val x => exact ⟨.double, trivial, nofun⟩
  | bool_val b => exact ⟨.bool, trivial, nofun⟩
  | string_val s =>
    have hs : s.length < sizeofStringVal := h (s, sizeofStringVal) (by simp [PrimitiveValue.strings])
    refine ⟨.string sizeofStringVal, hs, ?_⟩
    rintro _ ⟨⟩
    decide

theorem PrimitiveValue.length_payload {v : PrimitiveValue Bytes} (h : Bounded v.strings) :
    v.scalar.toWire.payload.length ≤ 4097 := by
  cases v with
  | int_val x => exact (length_payload_varint (x.signExtend 64).isLt).trans (by decide)
  | long_val x => exact (length_payload_varint x.isLt).trans (by decide)
  | float_val x => simp [PrimitiveValue.scalar, Scalar.toWire, WireValue.payload]
  | double_val x => simp [PrimitiveValue.scalar, Scalar.toWire, WireValue.payload]
  | bool_val b =>
    have hb : b.toNat < 2 ^ 64 := by cases b <;> decide
    exact (length_payload_varint hb).trans (by decide)
  | string_val s =>
    have hs : s.length < 4096 := h (s, sizeofStringVal) (by simp [PrimitiveValue.strings])
    have hl : (Scalar.string s).toWire.payload.length ≤ 1 + 1 + s.length :=
      length_payload_len (by omega)
    exact hl.trans (by omega)

theorem Primitive.fields_valid {p : Primitive Bytes} (h : Bounded (SampleData.primitive p).strings) :
    ∀ x ∈ p.fields, ValidField x := by
  obtain ⟨v⟩ := p
  cases v with
  | none => intro x hx; cases hx
  | some v =>
    intro x hx
    rw [List.mem_singleton.mp hx]
    obtain ⟨t, ht, hm⟩ := PrimitiveValue.hasType h
    have hb := v.tag_bounds
    exact validField_mk (by omega) (Scalar.toWire_valid ht hm)

/-- `primitive_Primitive_size` bounds a primitive. -/
theorem Primitive.length_fields {p : Primitive Bytes} (h : Bounded (SampleData.primitive p).strings) :
    (message p.fields).length ≤ 4098 := by
  obtain ⟨v⟩ := p
  cases v with
  | none => simp [Primitive.fields, message]
  | some v =>
    have hl := PrimitiveValue.length_payload h
    have hm : (message (Primitive.mk (some v)).fields).length = 1 + v.scalar.toWire.payload.length :=
      length_message_singleton v.tag_bounds.2
    omega

theorem Primitive.set_fields {p : Primitive Bytes} (h : Bounded (SampleData.primitive p).strings) :
    p.fields.foldlM Primitive.set ⟨none⟩ = some p := by
  obtain ⟨v⟩ := p
  cases v with
  | none => rfl
  | some v =>
    rw [Primitive.fields, List.foldlM_cons, Primitive.set_scalar h]
    rfl

theorem SampleData.fields_valid {d : SampleData Bytes} (h : Bounded d.strings) :
    ∀ x ∈ d.fields, ValidField x := by
  cases d with
  | primitive p =>
    intro x hx
    rw [List.mem_singleton.mp hx]
    exact validField_mk (by decide) (lt_of_le_of_lt (Primitive.length_fields h) (by decide))
  | file f =>
    intro x hx
    rw [List.mem_singleton.mp hx]
    exact validField_mk (by decide) (lt_of_le_of_lt (File.length_fields h) (by decide))

theorem SampleData.length_fields {d : SampleData Bytes} (h : Bounded d.strings) :
    (message d.fields).length ≤ 4101 := by
  cases d with
  | primitive p =>
    have hp := Primitive.length_fields h
    have hl : (WireValue.len (message p.fields)).payload.length ≤ 1 + 1 + (message p.fields).length :=
      length_payload_len (by omega)
    rw [SampleData.fields, length_message_singleton (by decide)]
    omega
  | file f =>
    have hf := File.length_fields h
    have hl : (WireValue.len (message f.fields)).payload.length ≤ 1 + 1 + (message f.fields).length :=
      length_payload_len (by omega)
    rw [SampleData.fields, length_message_singleton (by decide)]
    omega

/-- The member of the oneof sets itself. -/
theorem SampleData.set_fields {d : SampleData Bytes} (h : Bounded d.strings) (id : Bytes)
    (timestamp : BitVec 32) :
    d.fields.foldlM Sample.set ⟨id, timestamp, none⟩ = some ⟨id, timestamp, some d⟩ := by
  cases d with
  | primitive p =>
    rw [SampleData.fields, List.foldlM_cons]
    simp [Sample.set, Sample.primitiveSet, readMessage_message (Primitive.fields_valid h),
      Primitive.set_fields h]
  | file f =>
    rw [SampleData.fields, List.foldlM_cons]
    simp [Sample.set, Sample.fileSet, readMessage_message (File.fields_valid h), File.set_fields h]

section Message

variable {m : Sample Bytes}

theorem Sample.bounded_metric_id (h : Bounded m.strings) : m.metric_id.length < sizeofMetricId :=
  h (m.metric_id, sizeofMetricId) (by simp [Sample.strings])

theorem Sample.bounded_data (h : Bounded m.strings) {d : SampleData Bytes} (hd : m.data = some d) :
    Bounded d.strings := by
  intro x hx
  exact h x (by simp [Sample.strings, hd, hx])

theorem Sample.fields_valid (h : Bounded m.strings) : ∀ x ∈ m.fields, ValidField x := by
  intro x hx
  rcases List.mem_append.mp hx with hx | hx
  · rcases List.mem_append.mp hx with hx | hx
    · rw [mem_singular hx]
      exact validField_mk (by decide) (lt_trans (Sample.bounded_metric_id h) (by decide))
    · rw [mem_singular hx]
      exact validField_mk (by decide) m.timestamp.isLt
  · cases hd : m.data with
    | none => rw [hd] at hx; cases hx
    | some d =>
      rw [hd] at hx
      exact SampleData.fields_valid (Sample.bounded_data h hd) x hx

/-- `Sample_size` bounds a sample. -/
theorem Sample.length_fields (h : Bounded m.strings) : (message m.fields).length ≤ 4171 := by
  have hid : m.metric_id.length < 64 := Sample.bounded_metric_id h
  have h1 := length_message_singular (by decide : 1 < 16) (.string m.metric_id)
  have h2 : (Scalar.string m.metric_id).toWire.payload.length ≤ 0 + 1 + m.metric_id.length :=
    length_payload_len (by omega)
  have h3 := length_message_singular (by decide : 2 < 16) (.float m.timestamp)
  have h4 : (Scalar.float m.timestamp).toWire.payload.length = 4 := length_le 4 _
  have h5 : (message (m.data.elim [] SampleData.fields)).length ≤ 4101 := by
    cases hd : m.data with
    | none => simp [message]
    | some d => exact SampleData.length_fields (Sample.bounded_data h hd)
  rw [Sample.fields, message_append, message_append, List.length_append, List.length_append]
  omega

theorem Sample.decode_message (h : Bounded m.strings) : Sample.decode (message m.fields) = some m := by
  have h1 : (singular 1 (.string m.metric_id)).foldlM Sample.set ⟨[], 0, none⟩ =
      some ⟨m.metric_id, 0, none⟩ :=
    foldlM_singular (by simp [Sample.set, readString_string (Sample.bounded_metric_id h)])
      fun hd => by rw [isDefault_string hd]
  have ht : (Scalar.float m.timestamp).HasType .float := trivial
  have h2 : (singular 2 (.float m.timestamp)).foldlM Sample.set ⟨m.metric_id, 0, none⟩ =
      some ⟨m.metric_id, m.timestamp, none⟩ := by
    refine foldlM_singular (by simp [Sample.set, Scalar.read_toWire ht]) fun hd => ?_
    have h0 : m.timestamp = 0 := by simpa [Scalar.isDefault] using hd
    rw [h0]
  have h3 : (m.data.elim [] SampleData.fields).foldlM Sample.set ⟨m.metric_id, m.timestamp, none⟩ =
      some m := by
    obtain ⟨id, timestamp, data⟩ := m
    cases data with
    | none => rfl
    | some d => exact SampleData.set_fields (Sample.bounded_data h rfl) id timestamp
  rw [Sample.decode, readMessage_message (Sample.fields_valid h), Option.bind_some, Sample.fields,
    List.foldlM_append, List.foldlM_append, h1]
  simp only [Option.bind_eq_bind, Option.bind_some]
  rw [h2]
  exact h3

end Message

end FetchClient
end BvexLink
