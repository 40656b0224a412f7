import BvexLink.Codec.Builtins
import BvexLink.Codec.Validation
import BvexLink.Wire.Base64

/-!
# BvexLink.Codec.Sample

Samples (`sample.py`): a value or a file with its metadata. `F` is Python's `float`, of which only
the operations of `Primitives` are used.

A `PrimitiveData` carries that its tag is the type of its value, and a `Sample` that its metadata
name the class of its data: this is what their validators ensure.

* `PrimitiveData.fromValue_eq`, `Sample.new_eq_ok`: constructing them changes nothing.
* `Sample.validateMembers_members_iff`: a sample is read back from its own members exactly when
  its numbers are finite.
* `Sample.modelValidateJson_dump_eq_ok`: it is read back from its text exactly when, besides, the
  parser takes its integers.
-/

namespace BvexLink
namespace Codec

open Wire Json

/-- `float`: its JSON text (a finite number is printed by `lit`; a token is read by `ofLit` and a
word by `ofConstant`), the conversions from and to the primitive types, each with the text of the
error it may raise, `unicodedata.decimal` and the text of the error of `int(s)`, and what pydantic
takes a string or a `bool` for where a number is asked for. -/
class Primitives (F : Type) where
  isFinite : F → Bool
  lit : F → FloatLit
  ofLit : FloatLit → F
  ofConstant : Constant → F
  intOfFloat : F → Except String Int
  floatOfInt : Int → Except String F
  floatOfStr : String → Except String F
  strOfFloat : F → String
  isTrue : F → Bool
  decimal : Char → Option Nat
  invalidLiteral : String → String
  laxNumber : Bool ⊕ String → Option (F ⊕ Int)

/-- Printing a finite number and reading the text gives the number; the text is one that the parser
takes. -/
structure FloatsRoundTrip (F : Type) [Primitives F] : Prop where
  ofLit_lit : ∀ x : F, Primitives.isFinite x = true → Primitives.ofLit (Primitives.lit x) = x
  short : ∀ x : F, Primitives.isFinite x = true → shortNumber (.float (Primitives.lit x)) = true

section Sample

variable {F : Type}

/-! ## Values -/

/-- An instance of `int`, `float`, `str` or `bool`. -/
inductive PrimitiveType (F : Type) where
  | int (z : Int)
  | float (x : F)
  | str (s : String)
  | bool (b : Bool)
  deriving DecidableEq

inductive WhichPrimitive where
  | int
  | float
  | str
  | bool
  deriving DecidableEq

def WhichPrimitive.value : WhichPrimitive → String
  | .int => "int"
  | .float => "float"
  | .str => "str"
  | .bool => "bool"

def WhichPrimitive.ofValue (s : String) : Option WhichPrimitive :=
  if s = "int" then some .int
  else if s = "float" then some .float
  else if s = "str" then some .str
  else if s = "bool" then some .bool
  else none

/-- How the member is formatted. -/
def WhichPrimitive.format : WhichPrimitive → String
  | .int => "WhichPrimitive.INT"
  | .float => "WhichPrimitive.FLOAT"
  | .str => "WhichPrimitive.STR"
  | .bool => "WhichPrimitive.BOOL"

@[simp] theorem WhichPrimitive.ofValue_value (w : WhichPrimitive) : ofValue w.value = some w := by
  cases w <;> decide

def WhichPrimitive.fromValue : PrimitiveType F → WhichPrimitive
  | .bool _ => .bool
  | .int _ => .int
  | .float _ => .float
  | .str _ => .str

structure PrimitiveData (F : Type) where
  which_primitive : WhichPrimitive
  value : PrimitiveType F
  ok : WhichPrimitive.fromValue value = which_primitive

variable [Primitives F]

/-- `int(s)`, with the text of its `ValueError`. -/
def intOfString (F : Type) [Primitives F] (s : String) : Except String Int :=
  match intOfStr (Primitives.decimal F) s with
  | some z => .ok z
  | none => .error (Primitives.invalidLiteral F s)

/-- `int(v)`, `float(v)`, `str(v)` or `bool(v)`. -/
def coerce (w : WhichPrimitive) (v : PrimitiveType F) :
    Except String { v' : PrimitiveType F // WhichPrimitive.fromValue v' = w } :=
  match w, v with
  | .int, .int z => .ok ⟨.int z, rfl⟩
  | .int, .float x => (Primitives.intOfFloat x).map fun z => ⟨.int z, rfl⟩
  | .int, .str s => (intOfString F s).map fun z => ⟨.int z, rfl⟩
  | .int, .bool b => .ok ⟨.int b.toInt, rfl⟩
  | .float, .int z => (Primitives.floatOfInt z).map fun x => ⟨.float x, rfl⟩
  | .float, .float x => .ok ⟨.float x, rfl⟩
  | .float, .str s => (Primitives.floatOfStr s).map fun x => ⟨.float x, rfl⟩
  | .float, .bool b => (Primitives.floatOfInt b.toInt).map fun x => ⟨.float x, rfl⟩
  | .str, .int z => (strOfInt z).map fun s => ⟨.str s, rfl⟩
  | .str, .float x => .ok ⟨.str (Primitives.strOfFloat x), rfl⟩
  | .str, .str s => .ok ⟨.str s, rfl⟩
  | .str, .bool b => .ok ⟨.str (if b then "True" else "False"), rfl⟩
  | .bool, .int z => .ok ⟨.bool (z != 0), rfl⟩
  | .bool, .float x => .ok ⟨.bool (Primitives.isTrue x), rfl⟩
  | .bool, .str s => .ok ⟨.bool (s != ""), rfl⟩
  | .bool, .bool b => .ok ⟨.bool b, rfl⟩

/-- The field `value`: a member of the union of the four types, matched by its type. -/
def primitiveValue : Json → Except Errors (PrimitiveType F)
  | .int z => .ok (.int z)
  | .float l => .ok (.float (Primitives.ofLit l))
  | .constant c => .ok (.float (Primitives.ofConstant c))
  | .str s => .ok (.str s)
  | .bool b => .ok (.bool b)
  | _ => .error (["int", "float", "str", "bool"].map fun t => ⟨[t], .wrongType⟩)

def failedToCoerce (w : WhichPrimitive) (e : String) : ErrorDetails :=
  ⟨["value"], .value ("Failed to coerce value to " ++ w.format ++ ": " ++ e)⟩

/-- The two fields; `validate_value_type` runs where both are valid. -/
def PrimitiveData.validate (which : Except Errors WhichPrimitive)
    (value : Except Errors (PrimitiveType F)) : Except Errors (PrimitiveData F) :=
  (both which value).bind fun x =>
    match coerce x.1 x.2 with
    | .ok v => .ok ⟨x.1, v.1, v.2⟩
    | .error e => .error [failedToCoerce x.1 e]

def PrimitiveData.fromValue (value : PrimitiveType F) : Except Errors (PrimitiveData F) :=
  validate (.ok (WhichPrimitive.fromValue value)) (.ok value)

def PrimitiveData.validateMembers (ms : List (String × Json)) :
    Except Errors (PrimitiveData F) :=
  validate (requiredField ms "which_primitive" (enumValue WhichPrimitive.ofValue))
    (requiredField ms "value" primitiveValue)

/-- A number that is not finite is printed as `null`. -/
def floatJson (x : F) : Json :=
  if Primitives.isFinite x then .float (Primitives.lit x) else .null

def PrimitiveType.toJson : PrimitiveType F → Json
  | .int z => .int z
  | .float x => floatJson x
  | .str s => .str s
  | .bool b => .bool b

def PrimitiveData.members (p : PrimitiveData F) : List (String × Json) :=
  [("which_primitive", .str p.which_primitive.value), ("value", p.value.toJson)]

/-! ## Files -/

structure FileData where
  filename : String
  data : Bytes
  deriving DecidableEq

/-- `validate_data` of a JSON value. -/
def validateData (py : Pydantic) : Json → Except Errors Bytes
  | .str s =>
    match Base64.decode s.toList with
    | some b => .ok b
    | none => fail (.value (py.binasciiError s))
  | j => fail (.value ("Expected str or bytes for data field, got " ++ pyType j))
where
  pyType : Json → String
    | .null => "<class 'NoneType'>"
    | .bool _ => "<class 'bool'>"
    | .int _ => "<class 'int'>"
    | .float _ | .constant _ => "<class 'float'>"
    | .str _ => "<class 'str'>"
    | .arr _ => "<class 'list'>"
    | .obj _ => "<class 'dict'>"

def FileData.validateMembers (py : Pydantic) (ms : List (String × Json)) :
    Except Errors FileData :=
  (both (requiredField ms "filename" strValue) (requiredField ms "data" (validateData py))).map
    fun x => ⟨x.1, x.2⟩

def FileData.members (f : FileData) : List (String × Json) :=
  [("filename", .str f.filename), ("data", .str (String.ofList (Base64.encode f.data)))]

/-! ## Metadata -/

inductive WhichDataType where
  | primitive
  | file
  deriving DecidableEq

def WhichDataType.value : WhichDataType → String
  | .primitive => "primitive"
  | .file => "file"

def WhichDataType.ofValue (s : String) : Option WhichDataType :=
  if s = "primitive" then some .primitive else if s = "file" then some .file else none

@[simp] theorem WhichDataType.ofValue_value (w : WhichDataType) : ofValue w.value = some w := by
  cases w <;> decide

structure SampleMetadata (F : Type) where
  metric_id : String
  timestamp : F ⊕ Int
  which_data_type : WhichDataType

/-- The field `timestamp`: a `float` or an `int`, matched by its type. -/
def timestampValue : Json → Except Errors (F ⊕ Int)
  | .int z => .ok (.inr z)
  | .float l => .ok (.inl (Primitives.ofLit l))
  | .constant c => .ok (.inl (Primitives.ofConstant c))
  | .str s => lax (.inr s)
  | .bool b => lax (.inl b)
  | _ => bad
where
  bad : Except Errors (F ⊕ Int) := .error (["float", "int"].map fun t => ⟨[t], .wrongType⟩)
  lax (v : Bool ⊕ String) : Except Errors (F ⊕ Int) :=
    match Primitives.laxNumber v with
    | some n => .ok n
    | none => bad

def SampleMetadata.validateMembers (ms : List (String × Json)) :
    Except Errors (SampleMetadata F) :=
  (both (both (requiredField ms "metric_id" strValue)
    (requiredField ms "timestamp" timestampValue))
    (requiredField ms "which_data_type" (enumValue WhichDataType.ofValue))).map
    fun x => ⟨x.1.1, x.1.2, x.2⟩

def timestampJson : F ⊕ Int → Json
  | .inl x => floatJson x
  | .inr z => .int z

def SampleMetadata.members (m : SampleMetadata F) : List (String × Json) :=
  [("metric_id", .str m.metric_id), ("timestamp", timestampJson m.timestamp),
    ("which_data_type", .str m.which_data_type.value)]

/-! ## Samples -/

/-- An instance of `PrimitiveData` or `FileData`. -/
inductive SampleData (F : Type) where
  | primitive (p : PrimitiveData F)
  | file (f : FileData)

def SampleData.kind : SampleData F → WhichDataType
  | .primitive _ => .primitive
  | .file _ => .file

/-- `type(v)`, formatted. -/
def SampleData.pyType : SampleData F → String
  | .primitive _ => "<class 'bvex_codec.sample.PrimitiveData'>"
  | .file _ => "<class 'bvex_codec.sample.FileData'>"

structure Sample (F : Type) where
  metadata : SampleMetadata F
  data : SampleData F
  ok : data.kind = metadata.which_data_type

/-- The union of the two classes, for a JSON value. -/
def sampleDataValue (py : Pydantic) : Json → Except Errors (SampleData F)
  | j =>
    match objectValue PrimitiveData.validateMembers j,
      objectValue (FileData.validateMembers py) j with
    | .ok p, .ok f =>
      match j with
      | .obj ms => .ok (if py.preferSecond ms then .file f else .primitive p)
      | _ => .ok (.primitive p)
    | .ok p, .error _ => .ok (.primitive p)
    | .error _, .ok f => .ok (.file f)
    | .error e, .error e' => .error (e.under "PrimitiveData" ++ e'.under "FileData")

/-- The text of the `ValueError` of `validate_data_type`. -/
def wrongDataType (w : WhichDataType) (v : SampleData F) : String :=
  match w with
  | .primitive => "Expected PrimitiveData for PRIMITIVE data type, got " ++ v.pyType
  | .file => "Expected FileData for FILE data type, got " ++ v.pyType

/-- The two fields; `validate_data_type` runs where both are valid. -/
def Sample.validate (metadata : Except Errors (SampleMetadata F))
    (data : Except Errors (SampleData F)) : Except Errors (Sample F) :=
  (both metadata data).bind fun x =>
    if h : x.2.kind = x.1.which_data_type then .ok ⟨x.1, x.2, h⟩
    else .error [⟨["data"], .value (wrongDataType x.1.which_data_type x.2)⟩]

/-- `Sample(metadata=..., data=...)`. -/
def Sample.new (metadata : SampleMetadata F) (data : SampleData F) : Except Errors (Sample F) :=
  validate (.ok metadata) (.ok data)

def Sample.validateMembers (py : Pydantic) (ms : List (String × Json)) :
    Except Errors (Sample F) :=
  validate (requiredField ms "metadata" (objectValue SampleMetadata.validateMembers))
    (requiredField ms "data" (sampleDataValue py))

def Sample.modelValidateJson (py : Pydantic) (s : String) : Except Errors (Sample F) :=
  Codec.modelValidateJson (validateMembers py) s

def SampleData.members : SampleData F → List (String × Json)
  | .primitive p => p.members
  | .file f => f.members

def Sample.members (s : Sample F) : List (String × Json) :=
  [("metadata", .obj s.metadata.members), ("data", .obj s.data.members)]

def Sample.modelDumpJson (s : Sample F) : String := String.ofList (print (.obj s.members))

/-! ## Construction -/

theorem coerce_self (v : PrimitiveType F) :
    coerce (WhichPrimitive.fromValue v) v = .ok ⟨v, rfl⟩ := by
  cases v <;> rfl

theorem PrimitiveData.validate_eq_ok {which : Except Errors WhichPrimitive}
    {value : Except Errors (PrimitiveType F)} {p : PrimitiveData F} :
    PrimitiveData.validate which value = .ok p ↔ which = .ok p.which_primitive ∧
      ∃ v, value = .ok v ∧ coerce p.which_primitive v = .ok ⟨p.value, p.ok⟩ := by
  rw [PrimitiveData.validate, bind_eq_ok]
  constructor
  · rintro ⟨⟨w, v⟩, hb, hc⟩
    obtain ⟨rfl, rfl⟩ := both_eq_ok.mp hb
    split at hc
    · rename_i hv
      cases hc
      exact ⟨rfl, v, rfl, hv⟩
    · cases hc
  · rintro ⟨rfl, v, rfl, hc⟩
    refine ⟨(p.which_primitive, v), both_eq_ok.mpr ⟨rfl, rfl⟩, ?_⟩
    simp only [hc]

/-- `from_value` keeps the value, under the tag of its type. -/
theorem PrimitiveData.fromValue_eq (v : PrimitiveType F) :
    PrimitiveData.fromValue v = .ok ⟨WhichPrimitive.fromValue v, v, rfl⟩ :=
  PrimitiveData.validate_eq_ok.mpr ⟨rfl, v, rfl, coerce_self v⟩

omit [Primitives F] in
theorem Sample.validate_eq_ok {metadata : Except Errors (SampleMetadata F)}
    {data : Except Errors (SampleData F)} {s : Sample F} :
    Sample.validate metadata data = .ok s ↔ metadata = .ok s.metadata ∧ data = .ok s.data := by
  rw [Sample.validate, bind_eq_ok]
  constructor
  · rintro ⟨⟨m, d⟩, hb, hs⟩
    obtain ⟨rfl, rfl⟩ := both_eq_ok.mp hb
    split at hs
    · cases hs
      exact ⟨rfl, rfl⟩
    · cases hs
  · rintro ⟨rfl, rfl⟩
    exact ⟨(s.metadata, s.data), both_eq_ok.mpr ⟨rfl, rfl⟩, dif_pos s.ok⟩

omit [Primitives F] in
/-- A sample is constructed from its metadata and its data exactly if they fit. -/
theorem Sample.new_eq_ok {m : SampleMetadata F} {d : SampleData F} {s : Sample F} :
    Sample.new m d = .ok s ↔ s.metadata = m ∧ s.data = d := by
  rw [Sample.new, Sample.validate_eq_ok, Except.ok.injEq, Except.ok.injEq, eq_comm (a := m),
    eq_comm (a := d)]

/-! ## Reading back -/

def PrimitiveType.Finite : PrimitiveType F → Prop
  | .float x => Primitives.isFinite x = true
  | _ => True

def SampleMetadata.Finite (m : SampleMetadata F) : Prop :=
  ∀ x, m.timestamp = .inl x → Primitives.isFinite x = true

def SampleData.Finite : SampleData F → Prop
  | .primitive p => p.value.Finite
  | .file _ => True

/-- No number of the sample is infinite or `nan`. -/
structure Sample.Finite (s : Sample F) : Prop where
  metadata : s.metadata.Finite
  data : s.data.Finite

omit [Primitives F] in
/-- No integer of the sample has more characters than the parser takes. -/
structure Sample.Short (s : Sample F) : Prop where
  metadata : ∀ z, s.metadata.timestamp = .inr z → (printInt z).length ≤ 4300
  data : ∀ p z, s.data = .primitive p → p.value = .int z → (printInt z).length ≤ 4300

structure Sample.Readable (s : Sample F) : Prop where
  finite : s.Finite
  short : s.Short

theorem primitiveValue_toJson_iff (hF : FloatsRoundTrip F) (v : PrimitiveType F) :
    primitiveValue v.toJson = .ok v ↔ v.Finite := by
  cases v with
  | float x =>
    show primitiveValue (floatJson x) = _ ↔ Primitives.isFinite x = true
    unfold floatJson
    split
    · rename_i hx
      refine iff_of_true ?_ hx
      rw [primitiveValue, hF.ofLit_lit x hx]
    · rename_i hx
      exact iff_of_false nofun hx
  | int z => exact iff_of_true rfl trivial
  | str s => exact iff_of_true rfl trivial
  | bool b => exact iff_of_true rfl trivial

/-- What is printed for a number that is not finite is no value. -/
theorem primitiveValue_finite {v v' : PrimitiveType F} (h : primitiveValue v.toJson = .ok v') :
    v.Finite := by
  cases v with
  | float x =>
    have h' : primitiveValue (floatJson x) = .ok v' := h
    unfold floatJson at h'
    split at h'
    · assumption
    · cases h'
  | int z => trivial
  | str s => trivial
  | bool b => trivial

theorem PrimitiveData.validateMembers_members_iff (hF : FloatsRoundTrip F)
    (p : PrimitiveData F) : PrimitiveData.validateMembers p.members = .ok p ↔ p.value.Finite := by
  have hw : field p.members "which_primitive" = some (.str p.which_primitive.value) := rfl
  have hv : field p.members "value" = some p.value.toJson := rfl
  rw [PrimitiveData.validateMembers, PrimitiveData.validate_eq_ok, requiredField_iff hw]
  simp only [requiredField_iff hv]
  constructor
  · rintro ⟨_, v, h, _⟩
    exact primitiveValue_finite h
  · intro hf
    refine ⟨enumValue_eq_ok.mpr ⟨_, rfl, WhichPrimitive.ofValue_value _⟩, p.value,
      (primitiveValue_toJson_iff hF _).mpr hf, ?_⟩
    obtain ⟨w, v, rfl⟩ := p
    exact coerce_self v

theorem FileData.validateMembers_members (py : Pydantic) (f : FileData) :
    FileData.validateMembers py f.members = .ok f := by
  have hn : field f.members "filename" = some (.str f.filename) := rfl
  have hd : field f.members "data" = some (.str (String.ofList (Base64.encode f.data))) := rfl
  rw [FileData.validateMembers, map_eq_ok]
  refine ⟨(f.filename, f.data), both_eq_ok.mpr ⟨?_, ?_⟩, rfl⟩
  · rw [requiredField_iff hn]
    rfl
  · rw [requiredField_iff hd, validateData, String.toList_ofList, Base64.decode_encode]

theorem timestampValue_json_iff (hF : FloatsRoundTrip F) (t : F ⊕ Int) :
    timestampValue (timestampJson t) = .ok t ↔ ∀ x, t = .inl x → Primitives.isFinite x = true := by
  cases t with
  | inl x =>
    simp only [timestampJson, floatJson, Sum.inl.injEq, forall_eq']
    split
    · rename_i hx
      refine iff_of_true ?_ hx
      rw [timestampValue, hF.ofLit_lit x hx]
    · rename_i hx
      exact iff_of_false nofun hx
  | inr z => exact iff_of_true rfl nofun

theorem SampleMetadata.validateMembers_members_iff (hF : FloatsRoundTrip F)
    (m : SampleMetadata F) : SampleMetadata.validateMembers m.members = .ok m ↔ m.Finite := by
  have hi : field m.members "metric_id" = some (.str m.metric_id) := rfl
  have ht : field m.members "timestamp" = some (timestampJson m.timestamp) := rfl
  have hw : field m.members "which_data_type" = some (.str m.which_data_type.value) := rfl
  rw [SampleMetadata.validateMembers, map_eq_ok, SampleMetadata.Finite,
    ← timestampValue_json_iff hF]
  constructor
  · rintro ⟨⟨⟨i, t⟩, w⟩, hb, rfl⟩
    have := (both_eq_ok.mp (both_eq_ok.mp hb).1).2
    rwa [requiredField_iff ht] at this
  · intro h
    refine ⟨((m.metric_id, m.timestamp), m.which_data_type), both_eq_ok.mpr ⟨both_eq_ok.mpr
      ⟨?_, ?_⟩, ?_⟩, rfl⟩
    · rw [requiredField_iff hi]
      rfl
    · rw [requiredField_iff ht]
      exact h
    · rw [requiredField_iff hw]
      exact enumValue_eq_ok.mpr ⟨_, rfl, WhichDataType.ofValue_value _⟩

/-- The members of one class are not those of the other. -/
theorem sampleDataValue_members_iff (hF : FloatsRoundTrip F) (py : Pydantic) (d : SampleData F) :
    sampleDataValue py (.obj d.members) = .ok d ↔ d.Finite := by
  cases d with
  | primitive p =>
    have hp := PrimitiveData.validateMembers_members_iff hF p
    have hf : ∃ e, FileData.validateMembers py p.members = .error e := ⟨_, rfl⟩
    obtain ⟨e, hf⟩ := hf
    simp only [sampleDataValue, SampleData.members, objectValue, hf]
    cases hv : (PrimitiveData.validateMembers p.members : Except Errors (PrimitiveData F)) with
    | ok p' =>
      simp only [Except.ok.injEq, SampleData.primitive.injEq]
      rw [hv, Except.ok.injEq] at hp
      exact hp
    | error e' =>
      refine iff_of_false (fun he => by cases he) ?_
      intro hfin
      rw [hv] at hp
      cases hp.mpr hfin
  | file f =>
    have hp : ∃ e, PrimitiveData.validateMembers (F := F) f.members = .error e := ⟨_, rfl⟩
    obtain ⟨e, hp⟩ := hp
    refine iff_of_true ?_ trivial
    simp only [sampleDataValue, SampleData.members, objectValue, hp,
      FileData.validateMembers_members]

/-- A sample is read back from its members exactly if its numbers are finite. -/
theorem Sample.validateMembers_members_iff (hF : FloatsRoundTrip F) (py : Pydantic)
    (s : Sample F) : Sample.validateMembers py s.members = .ok s ↔ s.Finite := by
  have hm : field s.members "metadata" = some (.obj s.metadata.members) := rfl
  have hd : field s.members "data" = some (.obj s.data.members) := rfl
  rw [Sample.validateMembers, Sample.validate_eq_ok, requiredField_iff hm, requiredField_iff hd,
    objectValue, SampleMetadata.validateMembers_members_iff hF, sampleDataValue_members_iff hF]
  exact ⟨fun h => ⟨h.1, h.2⟩, fun h => ⟨h.metadata, h.data⟩⟩

theorem timestampValue_finite {t t' : F ⊕ Int} (h : timestampValue (timestampJson t) = .ok t') :
    ∀ x, t = .inl x → Primitives.isFinite x = true := by
  rintro x rfl
  have h' : timestampValue (floatJson x) = .ok t' := h
  unfold floatJson at h'
  split at h'
  · assumption
  · cases h'

theorem sampleDataValue_finite {py : Pydantic} {d d' : SampleData F}
    (h : sampleDataValue py (.obj d.members) = .ok d') : d.Finite := by
  cases d with
  | primitive p =>
    obtain ⟨e, hf⟩ : ∃ e, FileData.validateMembers py p.members = .error e := ⟨_, rfl⟩
    have hv : field p.members "value" = some p.value.toJson := rfl
    simp only [sampleDataValue, SampleData.members, objectValue, hf] at h
    cases hp : (PrimitiveData.validateMembers p.members : Except Errors (PrimitiveData F)) with
    | ok p' =>
      obtain ⟨_, v, hvalue, _⟩ := PrimitiveData.validate_eq_ok.mp hp
      exact primitiveValue_finite ((requiredField_iff hv).mp hvalue)
    | error e' =>
      rw [hp] at h
      cases h
  | file f => trivial

/-- What is read from the members of a sample is the sample. -/
theorem Sample.validateMembers_members_eq_ok (hF : FloatsRoundTrip F) {py : Pydantic}
    {s s' : Sample F} : Sample.validateMembers py s.members = .ok s' ↔ s' = s ∧ s.Finite := by
  have hm : field s.members "metadata" = some (.obj s.metadata.members) := rfl
  have hd : field s.members "data" = some (.obj s.data.members) := rfl
  have ht : field s.metadata.members "timestamp" = some (timestampJson s.metadata.timestamp) := rfl
  have hread := Sample.validateMembers_members_iff hF py s
  constructor
  · intro h
    obtain ⟨hmeta, hdata⟩ := Sample.validate_eq_ok.mp h
    rw [requiredField_iff hm, objectValue, SampleMetadata.validateMembers, map_eq_ok] at hmeta
    rw [requiredField_iff hd] at hdata
    obtain ⟨⟨⟨i, t⟩, w⟩, hb, _⟩ := hmeta
    have htime := (both_eq_ok.mp (both_eq_ok.mp hb).1).2
    rw [requiredField_iff ht] at htime
    have hfin : s.Finite := ⟨timestampValue_finite htime, sampleDataValue_finite hdata⟩
    rw [hread.mpr hfin] at h
    exact ⟨(Except.ok.inj h).symm, hfin⟩
  · rintro ⟨rfl, hfin⟩
    exact hread.mpr hfin

/-! ## Limits -/

theorem shortNumber_floatJson (hF : FloatsRoundTrip F) (x : F) :
    shortNumber (floatJson x) = true := by
  rw [floatJson]
  split
  · rename_i hx
    exact hF.short x hx
  · rfl

theorem shortNumber_timestampJson (hF : FloatsRoundTrip F) (t : F ⊕ Int) :
    shortNumber (timestampJson t) = true ↔ ∀ z, t = .inr z → (printInt z).length ≤ 4300 := by
  cases t with
  | inl x => exact iff_of_true (shortNumber_floatJson hF x) nofun
  | inr z => simp [timestampJson]

theorem shortNumber_toJson (hF : FloatsRoundTrip F) (v : PrimitiveType F) :
    shortNumber v.toJson = true ↔ ∀ z, v = .int z → (printInt z).length ≤ 4300 := by
  cases v with
  | int z => simp [PrimitiveType.toJson]
  | float x => exact iff_of_true (shortNumber_floatJson hF x) nofun
  | str s => exact iff_of_true rfl nofun
  | bool b => exact iff_of_true rfl nofun

theorem leaves_floatJson (x : F) : leaves (floatJson x) = [floatJson x] ∧ depth (floatJson x) = 0 := by
  rw [floatJson]
  split <;> exact ⟨rfl, rfl⟩

theorem leaves_timestampJson (t : F ⊕ Int) :
    leaves (timestampJson t) = [timestampJson t] ∧ depth (timestampJson t) = 0 := by
  cases t with
  | inl x => exact leaves_floatJson x
  | inr z => exact ⟨rfl, rfl⟩

theorem leaves_toJson (v : PrimitiveType F) : leaves v.toJson = [v.toJson] ∧ depth v.toJson = 0 := by
  cases v with
  | float x => exact leaves_floatJson x
  | _ => exact ⟨rfl, rfl⟩

theorem leaves_dataMembers (hF : FloatsRoundTrip F) (d : SampleData F) :
    depthMembers d.members = 1 ∧ ((∀ x ∈ leavesMembers d.members, shortNumber x = true) ↔
      ∀ p z, d = .primitive p → p.value = .int z → (printInt z).length ≤ 4300) := by
  cases d with
  | primitive p =>
    obtain ⟨hleaves, hdepth⟩ := leaves_toJson p.value
    have hshort := shortNumber_toJson hF p.value
    refine ⟨by simp [SampleData.members, PrimitiveData.members, depthMembers, hdepth, depth], ?_⟩
    simp only [SampleData.members, PrimitiveData.members, leavesMembers, leaves, hleaves,
      List.cons_append, List.nil_append, List.forall_mem_cons, shortNumber_str, true_and, hshort,
      List.not_mem_nil, false_imp_iff, implies_true, and_true, SampleData.primitive.injEq]
    exact ⟨fun h q z hq => hq ▸ h z, fun h z => h p z rfl⟩
  | file f =>
    exact ⟨rfl, iff_of_true (by simp [SampleData.members, FileData.members, leavesMembers, leaves])
      fun _ _ he => by cases he⟩

theorem Sample.leaves_members (hF : FloatsRoundTrip F) (s : Sample F) :
    depthMembers s.members = 2 ∧
      ((∀ x ∈ leavesMembers s.members, shortNumber x = true) ↔ s.Short) := by
  obtain ⟨htleaves, htdepth⟩ := leaves_timestampJson s.metadata.timestamp
  obtain ⟨hddepth, hdshort⟩ := leaves_dataMembers hF s.data
  have htshort := shortNumber_timestampJson hF s.metadata.timestamp
  refine ⟨?_, ?_⟩
  · simp [Sample.members, SampleMetadata.members, depth, depthMembers, htdepth, hddepth]
  · simp only [Sample.members, SampleMetadata.members, leaves, leavesMembers, htleaves,
      List.append_nil, List.cons_append, List.nil_append, List.forall_mem_cons, shortNumber_str,
      true_and, htshort, hdshort]
    exact ⟨fun h => ⟨h.1, h.2⟩, fun h => ⟨h.metadata, h.data⟩⟩

/-- The parser takes the text of a sample exactly if it takes its integers. -/
theorem Sample.withinLimits_members (hF : FloatsRoundTrip F) (s : Sample F) :
    withinLimits (.obj s.members) = true ↔ s.Short := by
  obtain ⟨hdepth, hshort⟩ := s.leaves_members hF
  rw [withinLimits_obj (by omega), hshort]

/-- What a sample is printed as is read as nothing but the sample. -/
theorem Sample.modelValidateJson_dump_eq_ok (hF : FloatsRoundTrip F) {py : Pydantic}
    {s s' : Sample F} :
    Sample.modelValidateJson py s.modelDumpJson = .ok s' ↔ s' = s ∧ s.Readable := by
  rw [Sample.modelValidateJson, Sample.modelDumpJson, modelValidateJson_print_eq_ok,
    Sample.withinLimits_members hF, Sample.validateMembers_members_eq_ok hF]
  exact ⟨fun h => ⟨h.2.1, h.2.2, h.1⟩, fun h => ⟨h.2.short, h.1, h.2.finite⟩⟩

theorem Sample.modelValidateJson_dump_iff (hF : FloatsRoundTrip F) (py : Pydantic)
    (s : Sample F) : Sample.modelValidateJson py s.modelDumpJson = .ok s ↔ s.Readable := by
  rw [Sample.modelValidateJson_dump_eq_ok hF]
  exact and_iff_right rfl

end Sample

end Codec
end BvexLink
