import BvexLink.Codec.Equality

/-!
# BvexLink.Codec.CEncoder

The encoders of `primitive.c` and `sample.c`: the cJSON item they build and its text, which the
Python side decodes. A `char *` is its bytes; items are created without running out of memory.

* `readsAs_int`, `readsAs_float`: a number printed in either way is read, under the tag, as the
  value.
* `c_encoders_agree`: the sample decoded is the one Python builds.
-/

namespace BvexLink
namespace Codec

open Wire Json

/-- An item of cJSON. -/
inductive CJson (F : Type) where
  | string (s : Bytes)
  | number (d : F)
  | bool (b : Bool)
  | object (members : List (Bytes × CJson F))

/-- A string literal. -/
abbrev cstr (s : String) : Bytes := Utf8.encode s

inductive WhichDataTypeC where
  | primitive
  | file

section Encoders

variable {F : Type} (cJSON_PrintUnformatted : CJson F → Bytes)

def encodeSample (metric_id : Bytes) (timestamp : F) (which : WhichDataTypeC) (data : CJson F) :
    Bytes :=
  let which_str := match which with
    | .primitive => cstr "primitive"
    | .file => cstr "file"
  let metadata := .object [(cstr "metric_id", .string metric_id),
    (cstr "timestamp", .number timestamp), (cstr "which_data_type", .string which_str)]
  cJSON_PrintUnformatted (.object [(cstr "metadata", metadata), (cstr "data", data)])

/-- `encode_int_sample`; `doubleOfInt` is the conversion of an argument. -/
def encodeIntSample (doubleOfInt : Int32 → F) (metric_id : Bytes) (timestamp : F) (value : Int32) :
    Bytes :=
  encodeSample cJSON_PrintUnformatted metric_id timestamp .primitive
    (.object [(cstr "which_primitive", .string (cstr "int")),
      (cstr "value", .number (doubleOfInt value))])

/-- `encode_float_sample`; `widen` is the conversion of a `float` to a `double`. -/
def encodeFloatSample {G : Type} (widen : G → F) (metric_id : Bytes) (timestamp : F) (value : G) :
    Bytes :=
  encodeSample cJSON_PrintUnformatted metric_id timestamp .primitive
    (.object [(cstr "which_primitive", .string (cstr "float")),
      (cstr "value", .number (widen value))])

def encodeBoolSample (metric_id : Bytes) (timestamp : F) (value : Bool) : Bytes :=
  encodeSample cJSON_PrintUnformatted metric_id timestamp .primitive
    (.object [(cstr "which_primitive", .string (cstr "bool")),
      (cstr "value", .bool value)])

end Encoders

section Agreement

variable {F : Type} [Primitives F] (v : FloatValues F)

/-! ## What is printed -/

/-- The JSON number has the value of the double; it is an integer literal or one with a fraction or
an exponent. cJSON writes it to a buffer of 26 characters. -/
def DenotesNumber (d : F) : Json → Prop
  | .int z => v.value d = .finite z ∧ (printInt z).length < 26
  | .float l => Primitives.isFinite d = true ∧ v.value (Primitives.ofLit l) = v.value d ∧
    l.text.length < 26
  | _ => False

mutual
/-- The JSON document is the item. -/
def Denotes : CJson F → Json → Prop
  | .string s, j => ∃ text, Utf8.decode s = some text ∧ j = .str text
  | .number d, j => DenotesNumber v d j
  | .bool b, j => j = .bool b
  | .object ms, j => ∃ ms', DenotesMembers ms ms' ∧ j = .obj ms'
def DenotesMembers : List (Bytes × CJson F) → List (String × Json) → Prop
  | [], ms' => ms' = []
  | (k, t) :: ms, ms' => ∃ k' j rest, Utf8.decode k = some k' ∧ Denotes t j ∧
      DenotesMembers ms rest ∧ ms' = (k', j) :: rest
end

mutual
/-- Strings are UTF-8 without NUL, and numbers are finite. -/
def CJson.Valid : CJson F → Prop
  | .string s => (∃ text, Utf8.decode s = some text) ∧ 0 ∉ s
  | .number d => Primitives.isFinite d = true
  | .bool _ => True
  | .object ms => CJson.ValidMembers ms
def CJson.ValidMembers : List (Bytes × CJson F) → Prop
  | [] => True
  | (k, t) :: ms => ((∃ text, Utf8.decode k = some text) ∧ 0 ∉ k) ∧ t.Valid ∧ CJson.ValidMembers ms
end

/-- An item is printed as a JSON document of it, numbers with their value. -/
def PrintsJson (cJSON_PrintUnformatted : CJson F → Bytes) : Prop :=
  ∀ t : CJson F, t.Valid → ∃ text j, Utf8.decode (cJSON_PrintUnformatted t) = some text ∧
    parseDoc text.toList = some j ∧ Denotes v t j

/-- `int` and `float` of a number that the other type has. -/
structure FloatValues.Conversions : Prop where
  intOfFloat : ∀ x (z : Int), v.value x = .finite z → Primitives.intOfFloat x = .ok z
  floatOfInt : ∀ x (z : Int), v.value x = .finite z →
    ∃ y, Primitives.floatOfInt z = .ok y ∧ v.value y = .finite z

/-! ## What is read -/

/-- The text decodes to a sample that equals the one Python builds, with the tag and the type of
its value. -/
def Agrees (py : Pydantic) (encoded : Bytes) (metric_id : String) (timestamp : F)
    (value : PrimitiveType F) : Prop :=
  ∃ text decoded data built p, Utf8.decode encoded = some text ∧
    Sample.modelValidateJson py text = .ok decoded ∧
    PrimitiveData.fromValue value = .ok data ∧
    Sample.new ⟨metric_id, .inl timestamp, .primitive⟩ (.primitive data) = .ok built ∧
    decoded.pyEq v built = true ∧ decoded.data = .primitive p ∧
    p.which_primitive = data.which_primitive ∧
    WhichPrimitive.fromValue p.value = WhichPrimitive.fromValue data.value

variable {v}

/-- The parser takes a document that is one number or word. -/
structure ShortAtom (j : Json) : Prop where
  leaves : leaves j = [j]
  depth : depth j = 0
  short : shortNumber j = true

theorem DenotesNumber.shortAtom {d : F} {j : Json} (h : DenotesNumber v d j) : ShortAtom j := by
  cases j with
  | int z =>
    have hlen := h.2
    exact ⟨rfl, rfl, decide_eq_true (by rw [intPart]; omega)⟩
  | float l =>
    have hlen := h.2.2
    have hpart := length_intPart (.float l)
    rw [print] at hpart
    exact ⟨rfl, rfl, decide_eq_true (by omega)⟩
  | _ => exact h.elim

theorem timestampValue_denotes {d : F} {j : Json} (h : DenotesNumber v d j) :
    ∃ t, timestampValue j = .ok t ∧ timestampNumber v t = v.value d := by
  cases j with
  | int z => exact ⟨.inr z, rfl, h.1.symm⟩
  | float l => exact ⟨.inl (Primitives.ofLit l), rfl, h.2.1⟩
  | _ => exact h.elim

/-- A value printed as this JSON document is read back under its tag. -/
def ReadsAs (v : FloatValues F) (j : Json) (value : PrimitiveType F) : Prop :=
  ShortAtom j ∧ ∃ raw value', primitiveValue j = .ok raw ∧
    coerce (WhichPrimitive.fromValue value) raw = .ok value' ∧ value'.1.pyEq v value = true

theorem readsAs_int (hc : v.Conversions) {d : F} {z : Int} (hd : v.value d = .finite z) {j : Json}
    (h : DenotesNumber v d j) : ReadsAs v j (.int z) := by
  have heq : (PrimitiveType.int z : PrimitiveType F).pyEq v (.int z) = true :=
    PrimitiveType.pyEq_self trivial
  cases j with
  | int z' =>
    obtain rfl : z' = z := by
      have hz := Number.finite.inj (h.1.symm.trans hd)
      exact_mod_cast hz
    exact ⟨h.shortAtom, .int z', ⟨.int z', rfl⟩, rfl, rfl, heq⟩
  | float l =>
    have hi := hc.intOfFloat (Primitives.ofLit l) z (h.2.1.trans hd)
    refine ⟨h.shortAtom, .float (Primitives.ofLit l), ⟨.int z, rfl⟩, rfl, ?_, heq⟩
    show (Primitives.intOfFloat (Primitives.ofLit l)).map _ = _
    rw [hi]
    rfl
  | _ => exact h.elim

theorem readsAs_float (hc : v.Conversions) {x : F} {j : Json} (hx : Primitives.isFinite x = true)
    (h : DenotesNumber v x j) : ReadsAs v j (.float x) := by
  have heq : ∀ y : F, v.value y = v.value x →
      (PrimitiveType.float y : PrimitiveType F).pyEq v (.float x) = true := by
    intro y hy
    refine PrimitiveType.pyEq_iff.mpr ⟨congrArg Sum.inr hy, ?_⟩
    rw [PrimitiveType.key, hy]
    simpa using FloatValues.ne_nan hx
  cases j with
  | int z =>
    obtain ⟨y, hy, hv⟩ := hc.floatOfInt x z h.1
    refine ⟨h.shortAtom, .int z, ⟨.float y, rfl⟩, rfl, ?_, heq y (hv.trans h.1.symm)⟩
    show (Primitives.floatOfInt z).map _ = _
    rw [hy]
    rfl
  | float l =>
    exact ⟨h.shortAtom, .float (Primitives.ofLit l), ⟨.float (Primitives.ofLit l), rfl⟩, rfl, rfl,
      heq _ h.2.1⟩
  | _ => exact h.elim

theorem readsAs_bool (b : Bool) : ReadsAs v (.bool b) (.bool b) :=
  ⟨⟨rfl, rfl, rfl⟩, .bool b, ⟨.bool b, rfl⟩, rfl, rfl, PrimitiveType.pyEq_self trivial⟩

theorem zero_notMem_value (w : WhichPrimitive) : 0 ∉ cstr w.value := by
  cases w <;> decide

theorem denotes_data {w : WhichPrimitive} {t : CJson F} {j : Json}
    (h : Denotes v
      (.object [(cstr "which_primitive", .string (cstr w.value)), (cstr "value", t)]) j) :
    ∃ jv, Denotes v t jv ∧ j = .obj [("which_primitive", .str w.value), ("value", jv)] := by
  simp only [Denotes, DenotesMembers, cstr, Utf8.decode_encode, Option.some.injEq] at h
  obtain ⟨_, ⟨_, _, _, rfl, ⟨_, rfl, rfl⟩, ⟨_, jv, _, rfl, hv, rfl, rfl⟩, rfl⟩, rfl⟩ := h
  exact ⟨jv, hv, rfl⟩

theorem denotes_sample {id : Bytes} {metric_id : String} (hid : Utf8.decode id = some metric_id)
    {timestamp : F} {data : CJson F} {j : Json}
    (h : Denotes v (.object [(cstr "metadata", .object [(cstr "metric_id", .string id),
      (cstr "timestamp", .number timestamp), (cstr "which_data_type", .string (cstr "primitive"))]),
      (cstr "data", data)]) j) :
    ∃ jt jd, DenotesNumber v timestamp jt ∧ Denotes v data jd ∧
      j = .obj [("metadata", .obj [("metric_id", .str metric_id), ("timestamp", jt),
        ("which_data_type", .str "primitive")]), ("data", jd)] := by
  simp only [Denotes, DenotesMembers, cstr, Utf8.decode_encode, Option.some.injEq, hid] at h
  obtain ⟨_, ⟨_, _, _, rfl, ⟨_, ⟨_, _, _, rfl, ⟨_, rfl, rfl⟩, ⟨_, jt, _, rfl, ht,
    ⟨_, _, _, rfl, ⟨_, rfl, rfl⟩, rfl, rfl⟩, rfl⟩, rfl⟩, rfl⟩,
    ⟨_, jd, _, rfl, hd, rfl, rfl⟩, rfl⟩, rfl⟩ := h
  exact ⟨jt, jd, ht, hd, rfl⟩

theorem valid_data {w : WhichPrimitive} {t : CJson F} (ht : t.Valid) :
    (CJson.object [(cstr "which_primitive", .string (cstr w.value)), (cstr "value", t)]).Valid := by
  simp only [CJson.Valid, CJson.ValidMembers, cstr, Utf8.decode_encode]
  exact ⟨⟨⟨_, rfl⟩, by decide⟩, ⟨⟨_, rfl⟩, zero_notMem_value w⟩, ⟨⟨_, rfl⟩, by decide⟩, ht, trivial⟩

theorem valid_sample {id : Bytes} {metric_id : String} (hid : Utf8.decode id = some metric_id)
    (h0 : 0 ∉ id) {timestamp : F} (ht : Primitives.isFinite timestamp = true) {data : CJson F}
    (hdata : data.Valid) :
    (CJson.object [(cstr "metadata", .object [(cstr "metric_id", .string id),
      (cstr "timestamp", .number timestamp), (cstr "which_data_type", .string (cstr "primitive"))]),
      (cstr "data", data)]).Valid := by
  simp only [CJson.Valid, CJson.ValidMembers, cstr, Utf8.decode_encode, hid]
  refine ⟨⟨⟨_, rfl⟩, by decide⟩, ?_, ⟨⟨_, rfl⟩, by decide⟩, hdata, trivial⟩
  exact ⟨⟨⟨_, rfl⟩, by decide⟩, ⟨⟨_, rfl⟩, h0⟩, ⟨⟨_, rfl⟩, by decide⟩, ht, ⟨⟨_, rfl⟩, by decide⟩,
    ⟨⟨_, rfl⟩, by decide⟩, trivial⟩

theorem data_validates {w : WhichPrimitive} {jv : Json} {raw value : PrimitiveType F}
    {htag : WhichPrimitive.fromValue value = w} (hraw : primitiveValue jv = .ok raw)
    (hcoerce : coerce w raw = .ok ⟨value, htag⟩) :
    PrimitiveData.validateMembers [("which_primitive", .str w.value), ("value", jv)] =
      .ok ⟨w, value, htag⟩ := by
  refine PrimitiveData.validate_eq_ok.mpr ⟨?_, raw, ?_, hcoerce⟩
  · rw [requiredField_iff rfl]
    exact enumValue_eq_ok.mpr ⟨_, rfl, WhichPrimitive.ofValue_value w⟩
  · rw [requiredField_iff rfl]
    exact hraw

theorem metadata_validates (metric_id : String) {jt : Json} {ts : F ⊕ Int}
    (hts : timestampValue jt = .ok ts) :
    SampleMetadata.validateMembers [("metric_id", .str metric_id), ("timestamp", jt),
      ("which_data_type", .str "primitive")] = .ok ⟨metric_id, ts, .primitive⟩ := by
  refine map_eq_ok.mpr ⟨((metric_id, ts), .primitive), both_eq_ok.mpr ⟨both_eq_ok.mpr
    ⟨?_, ?_⟩, ?_⟩, rfl⟩
  · rw [requiredField_iff rfl]
    rfl
  · rw [requiredField_iff rfl]
    exact hts
  · rw [requiredField_iff rfl]
    rfl

theorem withinLimits_document {jt jv : Json} (ht : ShortAtom jt) (hv : ShortAtom jv)
    (metric_id which : String) : withinLimits (.obj [("metadata", .obj [("metric_id",
      .str metric_id), ("timestamp", jt), ("which_data_type", .str "primitive")]),
      ("data", .obj [("which_primitive", .str which), ("value", jv)])]) = true := by
  rw [withinLimits_obj]
  · simp [leavesMembers, Json.leaves, ht.leaves, hv.leaves, ht.short, hv.short]
  · simp [depthMembers, Json.depth, ht.depth, hv.depth]

/-- A value that is read as itself, whatever number literals are printed, agrees. -/
theorem agrees_of_readsAs {cJSON_PrintUnformatted : CJson F → Bytes}
    (hp : PrintsJson v cJSON_PrintUnformatted) (py : Pydantic) {id : Bytes} {metric_id : String}
    (hid : Utf8.decode id = some metric_id) (h0 : 0 ∉ id) {timestamp : F}
    (ht : Primitives.isFinite timestamp = true) (value : PrimitiveType F) (t : CJson F)
    (hvalid : t.Valid) (hr : ∀ j, Denotes v t j → ReadsAs v j value) :
    Agrees v py (encodeSample cJSON_PrintUnformatted id timestamp .primitive
      (.object [(cstr "which_primitive", .string (cstr (WhichPrimitive.fromValue value).value)),
        (cstr "value", t)])) metric_id timestamp value := by
  obtain ⟨text, j, htext, hparse, hdenotes⟩ := hp _ (valid_sample hid h0 ht (valid_data hvalid))
  obtain ⟨jt, jd, hjt, hjd, rfl⟩ := denotes_sample hid hdenotes
  obtain ⟨jv, hjv, rfl⟩ := denotes_data hjd
  obtain ⟨ts, hts, hnumber⟩ := timestampValue_denotes hjt
  obtain ⟨hatom, raw, ⟨value', htag⟩, hraw, hcoerce, heq⟩ := hr jv hjv
  let decoded : Sample F :=
    ⟨⟨metric_id, ts, .primitive⟩, .primitive ⟨WhichPrimitive.fromValue value, value', htag⟩, rfl⟩
  let data : PrimitiveData F := ⟨WhichPrimitive.fromValue value, value, rfl⟩
  let built : Sample F := ⟨⟨metric_id, .inl timestamp, .primitive⟩, .primitive data, rfl⟩
  refine ⟨text, decoded, data, built, ⟨WhichPrimitive.fromValue value, value', htag⟩, htext, ?_,
    PrimitiveData.fromValue_eq value, Sample.new_eq_ok.mpr ⟨rfl, rfl⟩, ?_, rfl, rfl, htag⟩
  · have hlimits := withinLimits_document hjt.shortAtom hatom metric_id
      (WhichPrimitive.fromValue value).value
    refine modelValidateJson_eq_ok.mpr ⟨_, hparse, hlimits, Sample.validate_eq_ok.mpr ⟨?_, ?_⟩⟩
    · rw [requiredField_iff rfl]
      exact metadata_validates metric_id hts
    · rw [requiredField_iff rfl]
      simp only [sampleDataValue, objectValue, data_validates hraw hcoerce]
      rfl
  · refine Sample.pyEq_iff.mpr ⟨SampleMetadata.pyEq_iff.mpr ⟨rfl, rfl, hnumber, ?_⟩,
      SampleData.pyEq_primitive.mpr ⟨rfl, heq⟩⟩
    show timestampNumber v ts ≠ _
    rw [hnumber]
    exact FloatValues.ne_nan ht

/-- Whatever the C encoders print is decoded to the sample that Python builds of the same metric id,
timestamp and value. -/
theorem c_encoders_agree (hc : v.Conversions) {doubleOfInt : Int32 → F}
    (hint : ∀ z : Int32, v.value (doubleOfInt z) = .finite z.toInt) {G : Type} (widen : G → F)
    {cJSON_PrintUnformatted : CJson F → Bytes} (hp : PrintsJson v cJSON_PrintUnformatted)
    (py : Pydantic) {id : Bytes} {metric_id : String} (hid : Utf8.decode id = some metric_id)
    (h0 : 0 ∉ id) {timestamp : F} (ht : Primitives.isFinite timestamp = true) :
    (∀ value, Agrees v py (encodeIntSample cJSON_PrintUnformatted doubleOfInt id timestamp value)
      metric_id timestamp (.int value.toInt)) ∧
    (∀ value, Primitives.isFinite (widen value) = true →
      Agrees v py (encodeFloatSample cJSON_PrintUnformatted widen id timestamp value) metric_id
        timestamp (.float (widen value))) ∧
    ∀ value, Agrees v py (encodeBoolSample cJSON_PrintUnformatted id timestamp value) metric_id
      timestamp (.bool value) := by
  refine ⟨fun value => ?_, fun value hf => ?_, fun value => ?_⟩
  · have hvalid : CJson.Valid (.number (doubleOfInt value)) := (v.finite _).mpr ⟨_, hint value⟩
    exact agrees_of_readsAs hp py hid h0 ht (.int value.toInt) (.number (doubleOfInt value)) hvalid
      fun j hj => readsAs_int hc (hint value) hj
  · exact agrees_of_readsAs hp py hid h0 ht (.float (widen value)) (.number (widen value)) hf
      fun j hj => readsAs_float hc hf hj
  · refine agrees_of_readsAs hp py hid h0 ht (.bool value) (.bool value) trivial fun j hj => ?_
    obtain rfl : j = .bool value := by
      rwa [Denotes] at hj
    exact readsAs_bool value

/-! ## An instance -/

omit [Primitives F] in
mutual
/-- The document printed, for a way to print numbers. -/
def CJson.toJson (number : F → Json) : CJson F → Json
  | .string s => .str ((Utf8.decode s).getD "")
  | .number d => number d
  | .bool b => .bool b
  | .object ms => .obj (CJson.membersToJson number ms)
def CJson.membersToJson (number : F → Json) : List (Bytes × CJson F) → List (String × Json)
  | [] => []
  | (k, t) :: ms => ((Utf8.decode k).getD "", t.toJson number) :: CJson.membersToJson number ms
end

mutual
theorem denotes_toJson {number : F → Json}
    (h : ∀ d, Primitives.isFinite d = true → DenotesNumber v d (number d)) :
    ∀ t : CJson F, t.Valid → Denotes v t (t.toJson number)
  | .string s, hv => by
    obtain ⟨⟨text, ht⟩, _⟩ := hv
    exact ⟨text, ht, by rw [CJson.toJson, ht, Option.getD_some]⟩
  | .number d, hv => h d hv
  | .bool _, _ => rfl
  | .object ms, hv => ⟨_, denotes_membersToJson h ms hv, rfl⟩
theorem denotes_membersToJson {number : F → Json}
    (h : ∀ d, Primitives.isFinite d = true → DenotesNumber v d (number d)) :
    ∀ ms : List (Bytes × CJson F), CJson.ValidMembers ms →
      DenotesMembers v ms (CJson.membersToJson number ms)
  | [], _ => rfl
  | (k, t) :: ms, hv => by
    obtain ⟨⟨⟨text, hk⟩, _⟩, ht, hms⟩ := hv
    refine ⟨text, t.toJson number, CJson.membersToJson number ms, hk, denotes_toJson h t ht,
      denotes_membersToJson h ms hms, ?_⟩
    rw [CJson.membersToJson, hk, Option.getD_some]
end

theorem printsJson_print {number : F → Json}
    (h : ∀ d, Primitives.isFinite d = true → DenotesNumber v d (number d)) :
    PrintsJson v fun t => Utf8.encode (String.ofList (print (t.toJson number))) := by
  intro t ht
  refine ⟨_, t.toJson number, Utf8.decode_encode _, ?_, denotes_toJson h t ht⟩
  rw [String.toList_ofList, parseDoc_print]

end Agreement

/-- Floats without a fraction. -/
@[reducible] def wholeFloats : Primitives Int32 where
  isFinite _ := true
  lit _ := ⟨"0.0".toList, isFloatToken_zero⟩
  ofLit _ := 0
  ofConstant _ := 0
  intOfFloat x := .ok x.toInt
  floatOfInt z :=
    if (Int32.ofInt z).toInt = z then .ok (Int32.ofInt z)
    else .error "int too large to convert to float"
  floatOfStr _ := .error "could not convert string to float"
  strOfFloat x := toString x.toInt ++ ".0"
  isTrue x := x != 0
  decimal _ := none
  invalidLiteral _ := "invalid literal for int() with base 10"
  laxNumber _ := none

def wholeValues : @FloatValues Int32 wholeFloats :=
  @FloatValues.mk Int32 wholeFloats (fun x => .finite x.toInt)
    fun x => ⟨fun _ => ⟨x.toInt, rfl⟩, fun _ => rfl⟩

theorem wholeValues_conversions : @FloatValues.Conversions Int32 wholeFloats wholeValues := by
  refine @FloatValues.Conversions.mk Int32 wholeFloats wholeValues ?_ ?_
  · intro x z h
    have hz := Number.finite.inj h
    exact congrArg Except.ok (by exact_mod_cast hz)
  · intro x z h
    obtain rfl : x.toInt = z := by
      have hz := Number.finite.inj h
      exact_mod_cast hz
    refine ⟨x, ?_, rfl⟩
    show (if (Int32.ofInt x.toInt).toInt = x.toInt then _ else _) = _
    rw [Int32.ofInt_toInt, if_pos rfl]

theorem length_printInt32 (x : Int32) : (printInt x.toInt).length < 26 := by
  have hle := x.le_toInt
  have hlt := x.toInt_lt
  have hdigits : (Nat.toDigits 10 x.toInt.natAbs).length ≤ 10 :=
    (Nat.length_toDigits_le_iff (by omega) (by omega)).mpr (by omega)
  rw [length_printInt]
  split <;> omega

def printWhole (t : CJson Int32) : Bytes :=
  Utf8.encode (String.ofList (print (t.toJson fun x => .int x.toInt)))

/-- The values `-7`, `3.0` and `true` of the metric `temp`, five seconds after the epoch. -/
theorem c_encoders_agree_temp :
    @Agrees Int32 wholeFloats wholeValues Pydantic.strict
      (encodeIntSample printWhole id (cstr "temp") 5 (-7)) "temp" 5 (.int (-7)) ∧
    @Agrees Int32 wholeFloats wholeValues Pydantic.strict
      (encodeFloatSample printWhole id (cstr "temp") 5 3) "temp" 5 (.float 3) ∧
    @Agrees Int32 wholeFloats wholeValues Pydantic.strict
      (encodeBoolSample printWhole (cstr "temp") 5 true) "temp" 5 (.bool true) := by
  have hprint : @PrintsJson Int32 wholeFloats wholeValues printWhole :=
    @printsJson_print Int32 wholeFloats wholeValues _ fun x _ => ⟨rfl, length_printInt32 x⟩
  have h := @c_encoders_agree Int32 wholeFloats wholeValues wholeValues_conversions id
    (fun _ => rfl) Int32 id printWhole hprint Pydantic.strict (cstr "temp") "temp"
    (Utf8.decode_encode "temp") (by decide) 5 rfl
  exact ⟨h.1 (-7), h.2.1 3 rfl, h.2.2 true⟩

end Codec
end BvexLink
