import BvexLink.Codec.Telecommand
import BvexLink.Codec.Telemetry

/-!
# BvexLink.Codec.Construction

The two envelopes built in any of the ways validation allows: from Python objects (the constructor
and `model_validate` of a dictionary) or from JSON text. `V` are the objects that can be given.

* `Telecommand.tagged_iff`, `Telemetry.tagged_iff`: when the tag of what was built names the class
  of its payload and the JSON is read back.
* `tags_agree_iff`: both together.
-/

namespace BvexLink
namespace Codec

open Wire Json

inductive Route (V : Type) where
  | python (fields : List (String × V))
  | json (text : String)

/-- A required field of a dictionary. -/
def objectField {V α : Type} (fields : List (String × V)) (loc : String) (convert : V → Option α) :
    Except Errors α :=
  ((match fields.lookup loc with
    | none => fail .missing
    | some v =>
      match convert v with
      | some a => .ok a
      | none => fail .wrongType).mapError (Errors.under loc))

theorem objectField_eq_ok {V α : Type} {fields : List (String × V)} {loc : String}
    {convert : V → Option α} {a : α} :
    objectField fields loc convert = .ok a ↔ ∃ v, fields.lookup loc = some v ∧ convert v = some a := by
  rw [objectField, mapError_eq_ok]
  cases fields.lookup loc with
  | none => simp
  | some v => cases h : convert v <;> simp [h]

/-! ## Telecommands -/

/-- What the objects are taken for: a tag, a payload object, a dictionary, a `str` and an `int`. -/
structure CommandObjects (V : Type) where
  which : V → Option WhichCommandType
  command : V → Option CommandTypes
  dict : V → Option (List (String × V))
  str : V → Option String
  int : V → Option Int

section Telecommand

variable {V : Type} (o : CommandObjects V) (py : Pydantic)

def Subscribe.modelValidateObject (ms : List (String × V)) : Except Errors CommandTypes :=
  (both (objectField ms "metric_id" o.str) (objectField ms "bps" o.int)).map
    fun v => .subscribe v.1 v.2

def isDataValidObject (data : V) (which_command : Option WhichCommandType) :
    Except String CommandTypes :=
  match o.command data with
  | some c => isDataValid py (.model c) which_command
  | none =>
    match o.dict data with
    | none => .error "Data must be a dictionary or a command object"
    | some ms =>
      match which_command with
      | none => .error "Missing 'which_command' field"
      | some .subscribe =>
        (Subscribe.modelValidateObject o ms).mapError (failedToValidate py "Subscribe")
      | some .getMetricIds => .ok .getMetricIds
      | some .cancel => .ok .cancel
      | some .end_ => .ok .end_

def Telecommand.build : Route V → Except Errors Telecommand
  | .python fields =>
    (taggedFields (objectField fields "which_command" o.which) (objectField fields "data" some)
      (isDataValidObject o py)).map fun v => ⟨v.1, v.2⟩
  | .json text => Telecommand.modelValidateJson py text

/-- A payload object is given under the tag of its class. -/
def Telecommand.Fits : Route V → Prop
  | .python fields => ∀ data ∈ fields.lookup "data", ∀ c ∈ o.command data,
      (fields.lookup "which_command").bind o.which = some c.tag
  | .json _ => True

variable {o py}

theorem Telecommand.build_python_eq_ok {fields : List (String × V)} {tc : Telecommand} :
    Telecommand.build o py (.python fields) = .ok tc ↔
      (fields.lookup "which_command").bind o.which = some tc.which_command ∧
        ∃ data, fields.lookup "data" = some data ∧
          isDataValidObject o py data (some tc.which_command) = .ok tc.data := by
  obtain ⟨w, c⟩ := tc
  simp only [Telecommand.build, map_eq_ok, Prod.exists, taggedFields_eq_ok, objectField_eq_ok,
    Option.bind_eq_some_iff, Telecommand.mk.injEq]
  constructor
  · rintro ⟨w, c, ⟨hw, r, ⟨v, hv, hr⟩, hd⟩, rfl, rfl⟩
    cases hr
    exact ⟨hw, _, hv, hd⟩
  · rintro ⟨hw, data, hd, hv⟩
    exact ⟨w, c, ⟨hw, data, ⟨data, hd, rfl⟩, hv⟩, rfl, rfl⟩

theorem isDataValidObject_tag {data : V} {w : WhichCommandType} {c : CommandTypes}
    (ho : o.command data = none) (h : isDataValidObject o py data (some w) = .ok c) : c.tag = w := by
  simp only [isDataValidObject, ho] at h
  split at h
  · cases h
  · cases w with
    | subscribe =>
      simp only [mapError_eq_ok, Subscribe.modelValidateObject, map_eq_ok] at h
      obtain ⟨v, _, rfl⟩ := h
      rfl
    | getMetricIds => cases h; rfl
    | cancel => cases h; rfl
    | end_ => cases h; rfl

theorem isDataValidObject_model {data : V} {w : Option WhichCommandType} {c c' : CommandTypes}
    (ho : o.command data = some c) (h : isDataValidObject o py data w = .ok c') : c' = c := by
  simp only [isDataValidObject, ho, isDataValid] at h
  split at h
  · cases h
    rfl
  · cases h

/-- The tag of an envelope that was built names the class of its payload exactly if no payload
object was given under another one. -/
theorem Telecommand.tagged_iff {r : Route V} {tc : Telecommand}
    (h : Telecommand.build o py r = .ok tc) : tc.Tagged ↔ Telecommand.Fits o r := by
  cases r with
  | json text =>
    refine iff_of_true ?_ trivial
    obtain ⟨ms, _, _, hv⟩ := modelValidateJson_eq_ok.mp h
    rw [Telecommand.validateMembers, validate_eq_ok] at hv
    obtain ⟨_, d, hd, hv⟩ := hv
    obtain ⟨j, _, hj⟩ := requiredField_eq_ok.mp hd
    cases hj
    exact (isDataValid_json_tag hv).symm
  | python fields =>
    obtain ⟨hw, data, hd, hv⟩ := Telecommand.build_python_eq_ok.mp h
    simp only [Telecommand.Fits, hd, Option.mem_def, Option.some.injEq, forall_eq', hw]
    cases ho : o.command data with
    | none =>
      refine iff_of_true (isDataValidObject_tag ho hv).symm ?_
      intro c hc
      cases hc
    | some c =>
      rw [Telecommand.Tagged, isDataValidObject_model ho hv]
      simp

end Telecommand

/-! ## Telemetry -/

/-- The classes `isinstance` takes for a `Sample` or a `MetricIds`. -/
inductive TMClass where
  | metricIds
  | sample
  | fileSample
  | primitiveSample
  deriving DecidableEq

def TMClass.Holds {F : Type} : TMClass → TMMessage F → Prop
  | .metricIds, m => ∃ ids, m = .metricIds ids
  | .sample, m => ∃ s, m = .sample s
  | .fileSample, m => ∃ s f, m = .sample s ∧ s.data = .file f
  | .primitiveSample, m => ∃ s p, m = .sample s ∧ s.data = .primitive p

/-- An instance of one of the classes. -/
structure MessageObject (F : Type) where
  pyClass : TMClass
  message : TMMessage F
  ok : pyClass.Holds message

/-- What the validation of a message class returns. -/
def MessageObject.ofMessage {F : Type} : TMMessage F → MessageObject F
  | .sample s => ⟨.sample, .sample s, s, rfl⟩
  | .metricIds ids => ⟨.metricIds, .metricIds ids, ids, rfl⟩

def WhichTMMessageType.pyClass : WhichTMMessageType → TMClass
  | .metricIds => .metricIds
  | .sample => .sample

/-- A `Telemetry` with the class of its payload. -/
structure TelemetryObject (F : Type) where
  which_type : WhichTMMessageType
  data : MessageObject F

/-- What the objects are taken for: a tag, a message object, a dictionary, a list of `str`, and the
two fields of a `Sample`. -/
structure MessageObjects (V F : Type) where
  which : V → Option WhichTMMessageType
  message : V → Option (MessageObject F)
  dict : V → Option (List (String × V))
  strs : V → Option (List String)
  metadata : V → Option (SampleMetadata F)
  data : V → Option (SampleData F)

section Telemetry

variable {V F : Type} (o : MessageObjects V F) (py : Pydantic)

def MetricIds.modelValidateObject (ms : List (String × V)) : Except Errors MetricIds :=
  (objectField ms "metric_ids" o.strs).map fun ids => ⟨ids⟩

def Sample.modelValidateObject (ms : List (String × V)) : Except Errors (Sample F) :=
  Sample.validate (objectField ms "metadata" o.metadata) (objectField ms "data" o.data)

def Telemetry.isDataValidObject (data : V) (which_type : Option WhichTMMessageType) :
    Except String (MessageObject F) :=
  match o.message data with
  | some m => .ok m
  | none =>
    match o.dict data with
    | none => .error "Data must be a dictionary or a command object"
    | some ms =>
      match which_type with
      | none => .error "Missing 'which_type' field"
      | some .metricIds =>
        ((MetricIds.modelValidateObject o ms).mapError (Telemetry.failedToValidate py "MetricIds")).map
          fun ids => .ofMessage (.metricIds ids)
      | some .sample =>
        ((Sample.modelValidateObject o ms).mapError (Telemetry.failedToValidate py "Sample")).map
          fun s => .ofMessage (.sample s)

variable [Primitives F]

def TelemetryObject.modelValidateJson (s : String) : Except Errors (TelemetryObject F) :=
  (Telemetry.modelValidateJson py s).map fun t => ⟨t.which_type, .ofMessage t.data⟩

/-- A message is dumped by the fields of the class in the annotation. -/
def TelemetryObject.modelDumpJson (t : TelemetryObject F) : String :=
  (⟨t.which_type, t.data.message⟩ : Telemetry F).modelDumpJson

def Telemetry.build : Route V → Except Errors (TelemetryObject F)
  | .python fields =>
    (taggedFields (objectField fields "which_type" o.which) (objectField fields "data" some)
      (isDataValidObject o py)).map fun v => ⟨v.1, v.2⟩
  | .json text => TelemetryObject.modelValidateJson py text

/-- A message object is given under the tag that names its class. -/
def Telemetry.Fits : Route V → Prop
  | .python fields => ∀ data ∈ fields.lookup "data", ∀ m ∈ o.message data,
      ((fields.lookup "which_type").bind o.which).map (·.pyClass) = some m.pyClass
  | .json _ => True

def TelemetryObject.Tagged (t : TelemetryObject F) : Prop := t.data.pyClass = t.which_type.pyClass

variable {o py}

omit [Primitives F] in
@[simp] theorem MessageObject.pyClass_ofMessage (m : TMMessage F) :
    (MessageObject.ofMessage m).pyClass = m.tag.pyClass := by
  cases m <;> rfl

omit [Primitives F] in
@[simp] theorem MessageObject.message_ofMessage (m : TMMessage F) :
    (MessageObject.ofMessage m).message = m := by
  cases m <;> rfl

omit [Primitives F] in
theorem MessageObject.eq_ofMessage {m : MessageObject F} {w : WhichTMMessageType}
    (h : m.pyClass = w.pyClass) : w = m.message.tag ∧ .ofMessage m.message = m := by
  obtain ⟨c, message, ok⟩ := m
  cases w with
  | metricIds =>
    cases h
    obtain ⟨ids, rfl⟩ := ok
    exact ⟨rfl, rfl⟩
  | sample =>
    cases h
    obtain ⟨s, rfl⟩ := ok
    exact ⟨rfl, rfl⟩

omit [Primitives F] in
theorem Telemetry.isDataValidObject_tag {data : V} {w : WhichTMMessageType} {m : MessageObject F}
    (ho : o.message data = none) (h : Telemetry.isDataValidObject o py data (some w) = .ok m) :
    m.pyClass = w.pyClass := by
  simp only [Telemetry.isDataValidObject, ho] at h
  split at h
  · cases h
  · cases w with
    | metricIds =>
      simp only [map_eq_ok] at h
      obtain ⟨ids, _, rfl⟩ := h
      simp [TMMessage.tag]
    | sample =>
      simp only [map_eq_ok] at h
      obtain ⟨s, _, rfl⟩ := h
      simp [TMMessage.tag]

omit [Primitives F] in
theorem Telemetry.isDataValidObject_message {data : V} {w : Option WhichTMMessageType}
    {m m' : MessageObject F} (ho : o.message data = some m)
    (h : Telemetry.isDataValidObject o py data w = .ok m') : m' = m := by
  simp only [Telemetry.isDataValidObject, ho, Except.ok.injEq] at h
  exact h.symm

theorem Telemetry.build_python_eq_ok {fields : List (String × V)} {t : TelemetryObject F} :
    Telemetry.build o py (.python fields) = .ok t ↔
      (fields.lookup "which_type").bind o.which = some t.which_type ∧
        ∃ data, fields.lookup "data" = some data ∧
          Telemetry.isDataValidObject o py data (some t.which_type) = .ok t.data := by
  obtain ⟨w, m⟩ := t
  simp only [Telemetry.build, map_eq_ok, Prod.exists, taggedFields_eq_ok, objectField_eq_ok,
    Option.bind_eq_some_iff, TelemetryObject.mk.injEq]
  constructor
  · rintro ⟨w, m, ⟨hw, r, ⟨v, hv, hr⟩, hd⟩, rfl, rfl⟩
    cases hr
    exact ⟨hw, _, hv, hd⟩
  · rintro ⟨hw, data, hd, hv⟩
    exact ⟨w, m, ⟨hw, data, ⟨data, hd, rfl⟩, hv⟩, rfl, rfl⟩

theorem Telemetry.isDataValid_json_tag {j : Json} {w : WhichTMMessageType} {m : TMMessage F}
    (h : Telemetry.isDataValid py (.json j) (some w) = .ok m) : m.tag = w := by
  cases j with
  | obj ms =>
    cases w with
    | metricIds =>
      simp only [Telemetry.isDataValid, map_eq_ok] at h
      obtain ⟨ids, _, rfl⟩ := h
      rfl
    | sample =>
      simp only [Telemetry.isDataValid, map_eq_ok] at h
      obtain ⟨s, _, rfl⟩ := h
      rfl
  | _ => cases h

theorem Telemetry.tagged_iff {r : Route V} {t : TelemetryObject F}
    (h : Telemetry.build o py r = .ok t) : t.Tagged ↔ Telemetry.Fits o r := by
  cases r with
  | json text =>
    refine iff_of_true ?_ trivial
    obtain ⟨t, ht, rfl⟩ := map_eq_ok.mp h
    obtain ⟨ms, _, _, hv⟩ := modelValidateJson_eq_ok.mp ht
    rw [Telemetry.validateMembers, Telemetry.validate_eq_ok] at hv
    obtain ⟨_, d, hd, hv⟩ := hv
    obtain ⟨j, _, hj⟩ := requiredField_eq_ok.mp hd
    cases hj
    simp [TelemetryObject.Tagged, Telemetry.isDataValid_json_tag hv]
  | python fields =>
    obtain ⟨hw, data, hd, hv⟩ := Telemetry.build_python_eq_ok.mp h
    simp only [Telemetry.Fits, hd, Option.mem_def, Option.some.injEq, forall_eq', hw,
      Option.map_some]
    cases ho : o.message data with
    | none =>
      refine iff_of_true (Telemetry.isDataValidObject_tag ho hv) ?_
      intro m hm
      cases hm
    | some m =>
      rw [TelemetryObject.Tagged, Telemetry.isDataValidObject_message ho hv]
      simp [eq_comm]

theorem TelemetryObject.modelValidateJson_dump_iff (hF : FloatsRoundTrip F)
    {t : TelemetryObject F} (ht : t.Tagged) :
    TelemetryObject.modelValidateJson py t.modelDumpJson = .ok t ↔ t.data.message.Readable := by
  obtain ⟨w, m⟩ := t
  obtain ⟨hw, hm⟩ : w = m.message.tag ∧ .ofMessage m.message = m := MessageObject.eq_ofMessage ht
  subst hw
  rw [← Telemetry.modelValidateJson_dump_iff hF py, TelemetryObject.modelValidateJson, map_eq_ok]
  constructor
  · rintro ⟨⟨w, m'⟩, h, he⟩
    obtain ⟨rfl, he⟩ := TelemetryObject.mk.inj he
    have hm' := congrArg MessageObject.message he
    rw [MessageObject.message_ofMessage] at hm'
    subst hm'
    exact h
  · intro h
    exact ⟨_, h, by rw [hm]⟩

end Telemetry

/-- Whatever validation lets exist has the tag of its payload and is what its JSON is decoded to
exactly if no object was given under the tag of another class (and its numbers are finite, with no
more characters than the parser takes). -/
theorem tags_agree_iff {V F : Type} [Primitives F] (hF : FloatsRoundTrip F) (oc : CommandObjects V)
    (ot : MessageObjects V F) (py : Pydantic) :
    (∀ r tc, Telecommand.build oc py r = .ok tc →
      (tc.Tagged ∧ Telecommand.modelValidateJson py tc.modelDumpJson = .ok tc ↔
        Telecommand.Fits oc r ∧ tc.data.Short)) ∧
    ∀ r t, Telemetry.build ot py r = .ok t →
      (t.Tagged ∧ TelemetryObject.modelValidateJson py t.modelDumpJson = .ok t ↔
        Telemetry.Fits ot r ∧ t.data.message.Readable) := by
  refine ⟨?_, ?_⟩
  · intro r tc h
    rw [modelValidateJson_dump_iff, ← and_assoc, and_self, Telecommand.tagged_iff h]
  · intro r t h
    rw [← Telemetry.tagged_iff h]
    exact and_congr_right fun ht => TelemetryObject.modelValidateJson_dump_iff hF ht

/-! ## An instance -/

inductive Argument where
  | which_command (w : WhichCommandType)
  | command (c : CommandTypes)
  | which_type (w : WhichTMMessageType)
  | message (m : MessageObject Bool)

def Argument.commandObjects : CommandObjects Argument where
  which | .which_command w => some w | _ => none
  command | .command c => some c | _ => none
  dict _ := none
  str _ := none
  int _ := none

def Argument.messageObjects : MessageObjects Argument Bool where
  which | .which_type w => some w | _ => none
  message | .message m => some m | _ => none
  dict _ := none
  strs _ := none
  metadata _ := none
  data _ := none

/-- A subscription and a truth value, each under the tag of its class. -/
theorem arguments_agree :
    (Telecommand.Tagged ⟨.subscribe, .subscribe "temp" 8⟩ ∧
      Telecommand.modelValidateJson Pydantic.strict
        (Telecommand.modelDumpJson ⟨.subscribe, .subscribe "temp" 8⟩) =
          .ok ⟨.subscribe, .subscribe "temp" 8⟩) ∧
    (TelemetryObject.Tagged ⟨.sample, .ofMessage (.sample (flagSample true))⟩ ∧
      @TelemetryObject.modelValidateJson Bool Pydantic.strict twoFloats
        (@TelemetryObject.modelDumpJson Bool twoFloats
          ⟨.sample, .ofMessage (.sample (flagSample true))⟩) =
            .ok ⟨.sample, .ofMessage (.sample (flagSample true))⟩) := by
  have h := @tags_agree_iff Argument Bool twoFloats twoFloats_roundTrip Argument.commandObjects
    Argument.messageObjects Pydantic.strict
  refine ⟨?_, ?_⟩
  · refine (h.1 (.python [("which_command", .which_command .subscribe),
      ("data", .command (.subscribe "temp" 8))]) _ rfl).mpr ⟨?_, ?_⟩
    · rintro _ ⟨⟩ _ ⟨⟩
      rfl
    · show (printInt 8).length ≤ 4300
      decide
  · refine (h.2 (.python [("which_type", .which_type .sample),
      ("data", .message (.ofMessage (.sample (flagSample true))))]) _ rfl).mpr ⟨?_, ?_⟩
    · rintro _ ⟨⟩ _ ⟨⟩
      rfl
    · exact flagSample_readable true

/-- A subscription is accepted under the tag `cancel`, and comes back as a `Cancel`. -/
theorem subscription_tagged_cancel : ¬ ∀ (V : Type) (o : CommandObjects V) (py : Pydantic)
    (r : Route V) (tc : Telecommand), Telecommand.build o py r = .ok tc →
      tc.Tagged ∧ Telecommand.modelValidateJson py tc.modelDumpJson = .ok tc := by
  intro h
  have ht := (h Argument Argument.commandObjects Pydantic.strict
    (.python [("which_command", .which_command .cancel), ("data", .command (.subscribe "temp" 8))])
    ⟨.cancel, .subscribe "temp" 8⟩ rfl).1
  cases ht

end Codec
end BvexLink
