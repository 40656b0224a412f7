import BvexLink.Codec.Sample

/-!
# BvexLink.Codec.Telemetry

The downlink messages (`telemetry.py`): samples and lists of metric ids in a `Telemetry` envelope.

* `Telemetry.modelValidateJson_dump_iff`: an envelope whose tag fits is read back from its JSON
  exactly when its message can be read.
* `messages_round_trip`: which samples and metric ids survive both ways of decoding.
-/

namespace BvexLink
namespace Codec

open Wire Json

structure MetricIds where
  metric_ids : List String
  deriving DecidableEq

def MetricIds.validateMembers (ms : List (String × Json)) : Except Errors MetricIds :=
  (requiredField ms "metric_ids" (listValue strValue)).map fun ids => ⟨ids⟩

def MetricIds.modelValidateJson (s : String) : Except Errors MetricIds :=
  Codec.modelValidateJson validateMembers s

def MetricIds.members (m : MetricIds) : List (String × Json) :=
  [("metric_ids", .arr (m.metric_ids.map .str))]

def MetricIds.modelDumpJson (m : MetricIds) : String := String.ofList (print (.obj m.members))

theorem MetricIds.validateMembers_members (m : MetricIds) :
    MetricIds.validateMembers m.members = .ok m := by
  have hf : field m.members "metric_ids" = some (.arr (m.metric_ids.map .str)) := rfl
  rw [MetricIds.validateMembers, map_eq_ok]
  refine ⟨m.metric_ids, ?_, rfl⟩
  rw [requiredField_iff hf]
  exact @itemsValue_map String strValue .str (fun _ => rfl) m.metric_ids 0

section Telemetry

variable {F : Type}

/-- An instance of `Sample` or `MetricIds`. -/
inductive TMMessage (F : Type) where
  | sample (s : Sample F)
  | metricIds (m : MetricIds)

inductive WhichTMMessageType where
  | metricIds
  | sample
  deriving DecidableEq

def WhichTMMessageType.value : WhichTMMessageType → String
  | .metricIds => "metric_ids"
  | .sample => "sample"

def WhichTMMessageType.ofValue (s : String) : Option WhichTMMessageType :=
  if s = "metric_ids" then some .metricIds else if s = "sample" then some .sample else none

@[simp] theorem WhichTMMessageType.ofValue_value (w : WhichTMMessageType) :
    ofValue w.value = some w := by
  cases w <;> decide

/-- The raw input of the `data` field: a message or a JSON value. -/
inductive RawMessage (F : Type) where
  | model (m : TMMessage F)
  | json (j : Json)

structure Telemetry (F : Type) where
  which_type : WhichTMMessageType
  data : TMMessage F

def TMMessage.tag : TMMessage F → WhichTMMessageType
  | .sample _ => .sample
  | .metricIds _ => .metricIds

variable [Primitives F]

/-- `except Exception as e: raise ValueError(...)` around the validation of a message class. -/
def Telemetry.failedToValidate (py : Pydantic) (title : String) (e : Errors) : String :=
  "Failed to validate telemetry data: " ++ py.str title e

/-- `is_data_valid`; `which_type` is what `info.data` holds under that name, and the error is the
text of the `ValueError`. -/
def Telemetry.isDataValid (py : Pydantic) (data : RawMessage F)
    (which_type : Option WhichTMMessageType) : Except String (TMMessage F) :=
  match data with
  | .model m => .ok m
  | .json (.obj ms) =>
    match which_type with
    | none => .error "Missing 'which_type' field"
    | some .metricIds =>
      ((MetricIds.validateMembers ms).mapError (failedToValidate py "MetricIds")).map .metricIds
    | some .sample =>
      ((Sample.validateMembers py ms).mapError (failedToValidate py "Sample")).map .sample
  | .json _ => .error "Data must be a dictionary or a command object"

def Telemetry.validate (py : Pydantic) (which : Except Errors WhichTMMessageType)
    (data : Except Errors (RawMessage F)) : Except Errors (Telemetry F) :=
  (taggedFields which data (isDataValid py)).map fun v => ⟨v.1, v.2⟩

/-- `Telemetry(which_type=..., data=...)`. -/
def Telemetry.new (py : Pydantic) (which_type : WhichTMMessageType) (data : TMMessage F) :
    Except Errors (Telemetry F) :=
  validate py (.ok which_type) (.ok (.model data))

def Telemetry.fromTelemetry (py : Pydantic) (telemetry : TMMessage F) :
    Except Errors (Telemetry F) :=
  new py telemetry.tag telemetry

def Telemetry.validateMembers (py : Pydantic) (ms : List (String × Json)) :
    Except Errors (Telemetry F) :=
  validate py (requiredField ms "which_type" (enumValue WhichTMMessageType.ofValue))
    (requiredField ms "data" fun j => .ok (.json j))

def Telemetry.modelValidateJson (py : Pydantic) (s : String) : Except Errors (Telemetry F) :=
  Codec.modelValidateJson (validateMembers py) s

def TMMessage.members : TMMessage F → List (String × Json)
  | .sample s => s.members
  | .metricIds m => m.members

def Telemetry.members (t : Telemetry F) : List (String × Json) :=
  [("which_type", .str t.which_type.value), ("data", .obj t.data.members)]

def Telemetry.modelDumpJson (t : Telemetry F) : String := String.ofList (print (.obj t.members))

/-! ## Round trip -/

/-- The message holds no number that JSON lacks. -/
def TMMessage.Finite : TMMessage F → Prop
  | .sample s => s.Finite
  | .metricIds _ => True

def TMMessage.Readable : TMMessage F → Prop
  | .sample s => s.Readable
  | .metricIds _ => True

theorem MetricIds.leaves_members (m : MetricIds) :
    depthMembers m.members ≤ 2 ∧ ∀ x ∈ leavesMembers m.members, shortNumber x = true := by
  obtain ⟨hdepth, hshort⟩ := strings_short m.metric_ids
  refine ⟨?_, ?_⟩
  · simp only [members, depthMembers, depth]
    omega
  · simpa [members, leavesMembers, leaves] using hshort

/-- The parser takes the text of a message that is finite exactly if it can be read. -/
theorem Telemetry.withinLimits_members (hF : FloatsRoundTrip F) (w : WhichTMMessageType)
    (m : TMMessage F) :
    withinLimits (.obj (⟨w, m⟩ : Telemetry F).members) = true ∧ m.Finite ↔ m.Readable := by
  rw [Telemetry.members]
  cases m with
  | sample s =>
    obtain ⟨hdepth, hshort⟩ := s.leaves_members hF
    rw [TMMessage.members, withinLimits_tagged (by omega), hshort]
    exact ⟨fun h => ⟨h.2, h.1⟩, fun h => ⟨h.short, h.finite⟩⟩
  | metricIds ids =>
    obtain ⟨hdepth, hshort⟩ := ids.leaves_members
    rw [TMMessage.members, withinLimits_tagged (by omega)]
    exact iff_of_true ⟨hshort, trivial⟩ trivial

theorem Telemetry.validate_eq_ok {py : Pydantic} {which : Except Errors WhichTMMessageType}
    {data : Except Errors (RawMessage F)} {t : Telemetry F} :
    Telemetry.validate py which data = .ok t ↔ which = .ok t.which_type ∧
      ∃ d, data = .ok d ∧ Telemetry.isDataValid py d (some t.which_type) = .ok t.data := by
  rw [Telemetry.validate, map_eq_ok]
  constructor
  · rintro ⟨⟨w, m⟩, h, rfl⟩
    exact taggedFields_eq_ok.mp h
  · intro h
    exact ⟨(t.which_type, t.data), taggedFields_eq_ok.mpr h, rfl⟩

theorem Telemetry.new_eq (py : Pydantic) (w : WhichTMMessageType) (m : TMMessage F) :
    Telemetry.new py w m = .ok ⟨w, m⟩ :=
  Telemetry.validate_eq_ok.mpr ⟨rfl, _, rfl, rfl⟩

theorem isDataValid_message_iff (hF : FloatsRoundTrip F) (py : Pydantic) (m : TMMessage F) :
    Telemetry.isDataValid py (.json (.obj m.members)) (some m.tag) = .ok m ↔ m.Finite := by
  cases m with
  | sample s =>
    simp only [Telemetry.isDataValid, TMMessage.members, TMMessage.tag, map_eq_ok, mapError_eq_ok,
      TMMessage.sample.injEq, exists_eq_right]
    exact Sample.validateMembers_members_iff hF py s
  | metricIds ids =>
    refine iff_of_true ?_ trivial
    simp only [Telemetry.isDataValid, TMMessage.members, TMMessage.tag,
      MetricIds.validateMembers_members]
    rfl

theorem Telemetry.modelValidateJson_dump_tag {py : Pydantic} {m : TMMessage F} {t : Telemetry F}
    (h : Telemetry.modelValidateJson py (⟨m.tag, m⟩ : Telemetry F).modelDumpJson = .ok t) :
    t.which_type = m.tag := by
  have hw : field (⟨m.tag, m⟩ : Telemetry F).members "which_type" = some (.str m.tag.value) := rfl
  rw [Telemetry.modelValidateJson, Telemetry.modelDumpJson, modelValidateJson_print_eq_ok,
    Telemetry.validateMembers, Telemetry.validate_eq_ok, requiredField_iff hw,
    enumValue_eq_ok] at h
  obtain ⟨_, ⟨s, hs, hv⟩, _⟩ := h
  cases hs
  rw [WhichTMMessageType.ofValue_value] at hv
  exact (Option.some.inj hv).symm

/-- The JSON of a message in its envelope is read back exactly if the message can be read. -/
theorem Telemetry.modelValidateJson_dump_iff (hF : FloatsRoundTrip F) (py : Pydantic)
    (m : TMMessage F) :
    Telemetry.modelValidateJson py (⟨m.tag, m⟩ : Telemetry F).modelDumpJson = .ok ⟨m.tag, m⟩ ↔
      m.Readable := by
  have hw : field (⟨m.tag, m⟩ : Telemetry F).members "which_type" = some (.str m.tag.value) := rfl
  have hd : field (⟨m.tag, m⟩ : Telemetry F).members "data" = some (.obj m.members) := rfl
  rw [Telemetry.modelValidateJson, Telemetry.modelDumpJson, modelValidateJson_print_eq_ok,
    Telemetry.validateMembers, Telemetry.validate_eq_ok, requiredField_iff hw,
    ← Telemetry.withinLimits_members hF m.tag, ← isDataValid_message_iff hF py]
  simp only [requiredField_iff hd, Except.ok.injEq, exists_eq_left']
  refine and_congr_right fun _ => ?_
  exact and_iff_right (enumValue_eq_ok.mpr ⟨_, rfl, WhichTMMessageType.ofValue_value _⟩)

/-- A message comes back from its `Telemetry` envelope: constructed, printed and read again. -/
def ComesBack (py : Pydantic) (m : TMMessage F) : Prop :=
  ∃ t, Telemetry.fromTelemetry py m = .ok t ∧ t.data = m ∧
    Telemetry.modelValidateJson py t.modelDumpJson = .ok t

theorem comesBack_iff (hF : FloatsRoundTrip F) (py : Pydantic) (m : TMMessage F) :
    ComesBack py m ↔ m.Readable := by
  rw [ComesBack, ← Telemetry.modelValidateJson_dump_iff hF py]
  constructor
  · rintro ⟨t, ht, _, h⟩
    rw [Telemetry.fromTelemetry, Telemetry.new_eq] at ht
    cases ht
    exact h
  · intro h
    exact ⟨_, Telemetry.new_eq py m.tag m, rfl, h⟩

/-- The sample is what its encoding decodes to, on its own and in a `Telemetry`. -/
def RoundTripsBoth (py : Pydantic) (s : Sample F) : Prop :=
  Sample.modelValidateJson py s.modelDumpJson = .ok s ∧ ComesBack py (.sample s)

/-- A sample whose numbers are finite comes back, both ways, exactly if its integers do. -/
theorem roundTripsBoth_iff (hF : FloatsRoundTrip F) (py : Pydantic) {s : Sample F}
    (hs : s.Finite) : RoundTripsBoth py s ↔ s.Short := by
  have hread : s.Readable ↔ s.Short := ⟨fun h => h.short, fun h => ⟨hs, h⟩⟩
  rw [RoundTripsBoth, Sample.modelValidateJson_dump_iff hF, comesBack_iff hF, TMMessage.Readable,
    and_self, hread]

/-- Metric ids are what their encoding decodes to, on their own and in a `Telemetry`. So are samples
of values and samples of files with finite numbers, exactly if no integer in them has more than 4300
characters. -/
theorem messages_round_trip (hF : FloatsRoundTrip F) (py : Pydantic) :
    (∀ ids : List String, MetricIds.modelValidateJson (MetricIds.modelDumpJson ⟨ids⟩) = .ok ⟨ids⟩ ∧
      ComesBack (F := F) py (.metricIds ⟨ids⟩)) ∧
    (∀ (metric_id : String) (timestamp : F ⊕ Int) (v : PrimitiveType F),
      (∀ x, timestamp = .inl x → Primitives.isFinite x = true) → v.Finite →
      ∃ p s, PrimitiveData.fromValue v = .ok p ∧ p.value = v ∧
        Sample.new ⟨metric_id, timestamp, .primitive⟩ (.primitive p) = .ok s ∧
        (RoundTripsBoth py s ↔ (∀ z, timestamp = .inr z → (printInt z).length ≤ 4300) ∧
          ∀ z, v = .int z → (printInt z).length ≤ 4300)) ∧
    ∀ (metric_id : String) (timestamp : F ⊕ Int) (filename : String) (data : Bytes),
      (∀ x, timestamp = .inl x → Primitives.isFinite x = true) →
      ∃ s, Sample.new ⟨metric_id, timestamp, .file⟩ (.file ⟨filename, data⟩) = .ok s ∧
        (RoundTripsBoth py s ↔ ∀ z, timestamp = .inr z → (printInt z).length ≤ 4300) := by
  refine ⟨?_, ?_, ?_⟩
  · intro ids
    refine ⟨?_, (comesBack_iff hF py _).mpr trivial⟩
    obtain ⟨hdepth, hshort⟩ := MetricIds.leaves_members ⟨ids⟩
    rw [MetricIds.modelValidateJson, MetricIds.modelDumpJson, modelValidateJson_print_eq_ok]
    exact ⟨(withinLimits_obj (by omega)).mpr hshort, MetricIds.validateMembers_members ⟨ids⟩⟩
  · intro metric_id timestamp v ht hv
    let s : Sample F := ⟨⟨metric_id, timestamp, .primitive⟩, .primitive ⟨_, v, rfl⟩, rfl⟩
    have hs : s.Finite := ⟨ht, hv⟩
    refine ⟨_, s, PrimitiveData.fromValue_eq v, rfl, Sample.new_eq_ok.mpr ⟨rfl, rfl⟩, ?_⟩
    refine (roundTripsBoth_iff hF py hs).trans ⟨?_, ?_⟩
    · intro h
      exact ⟨h.metadata, fun z hz => h.data _ z rfl hz⟩
    · rintro ⟨hm, hd⟩
      refine ⟨hm, fun p z hp hz => ?_⟩
      cases hp
      exact hd z hz
  · intro metric_id timestamp filename data ht
    let s : Sample F := ⟨⟨metric_id, timestamp, .file⟩, .file ⟨filename, data⟩, rfl⟩
    have hs : s.Finite := ⟨ht, trivial⟩
    refine ⟨s, Sample.new_eq_ok.mpr ⟨rfl, rfl⟩, ?_⟩
    exact (roundTripsBoth_iff hF py hs).trans
      ⟨fun h => h.metadata, fun h => ⟨h, nofun⟩⟩

end Telemetry

/-! ## An instance -/

/-- The floats `0.0` (`false`) and `1.5` (`true`). -/
@[reducible] def twoFloats : Primitives Bool where
  isFinite _ := true
  lit b := if b then ⟨"1.5".toList, by decide⟩ else ⟨"0.0".toList, by decide⟩
  ofLit l := l.text == "1.5".toList
  ofConstant _ := false
  intOfFloat b := .ok b.toInt
  floatOfInt z := if z = 0 then .ok false else .error "int too large to convert to float"
  floatOfStr s := if s = "1.5" then .ok true else .error "could not convert string to float"
  strOfFloat b := if b then "1.5" else "0.0"
  isTrue b := b
  decimal _ := none
  invalidLiteral _ := "invalid literal for int() with base 10"
  laxNumber _ := none

theorem twoFloats_roundTrip : @FloatsRoundTrip Bool twoFloats := by
  refine @FloatsRoundTrip.mk Bool twoFloats ?_ ?_
  · intro x _
    cases x <;> decide
  · intro x _
    cases x <;> decide

/-- A truth value of the metric `temp`, taken at the time `0`. -/
def flagSample (b : Bool) : Sample Bool :=
  ⟨⟨"temp", .inr 0, .primitive⟩, .primitive ⟨.bool, .bool b, rfl⟩, rfl⟩

theorem flagSample_readable (b : Bool) : @Sample.Readable Bool twoFloats (flagSample b) := by
  refine @Sample.Readable.mk Bool twoFloats _
    (@Sample.Finite.mk Bool twoFloats _ (fun _ _ => rfl) trivial) ⟨?_, ?_⟩
  · intro z hz
    cases hz
    decide
  · intro p z hp hz
    cases hp
    cases hz

/-- The value `1.5` taken at the time `0`. -/
theorem float_sample_round_trips : ∃ p s,
    @PrimitiveData.fromValue Bool twoFloats (.float true) = .ok p ∧ p.value = .float true ∧
    Sample.new ⟨"temp", .inr 0, .primitive⟩ (.primitive p) = .ok s ∧
    @RoundTripsBoth Bool twoFloats Pydantic.strict s := by
  obtain ⟨p, s, hp, hv, hs, h⟩ :=
    (@messages_round_trip Bool twoFloats twoFloats_roundTrip Pydantic.strict).2.1 "temp" (.inr 0)
      (.float true) nofun rfl
  refine ⟨p, s, hp, hv, hs, h.mpr ⟨?_, nofun⟩⟩
  intro z hz
  cases hz
  decide

/-- A one and 4300 zeros are printed and not read. -/
theorem long_int_does_not_round_trip : ¬∀ (v : PrimitiveType Bool),
    @PrimitiveType.Finite Bool twoFloats v → ∀ (p : PrimitiveData Bool) (s : Sample Bool),
      @PrimitiveData.fromValue Bool twoFloats v = .ok p →
        Sample.new ⟨"temp", .inr 0, .primitive⟩ (.primitive p) = .ok s →
          @RoundTripsBoth Bool twoFloats Pydantic.strict s := by
  intro h
  have hs := h (.int (10 ^ 4300 : Nat)) trivial ⟨.int, .int (10 ^ 4300 : Nat), rfl⟩
    ⟨⟨"temp", .inr 0, .primitive⟩, .primitive ⟨.int, .int (10 ^ 4300 : Nat), rfl⟩, rfl⟩ rfl rfl
  have hread := (@Sample.modelValidateJson_dump_iff Bool twoFloats twoFloats_roundTrip _ _).mp hs.1
  have hlen := (@Sample.Readable.short Bool twoFloats _ hread).data _ _ rfl rfl
  exact printInt_pow_long (by omega) hlen

end Codec
end BvexLink
