import BvexLink.Codec.Validation

/-!
# BvexLink.Codec.Telecommand

The uplink messages of the codec (`telecommand.py`): the commands, the `Telecommand` envelope with
its tag, its validation and its JSON.

`Telecommand.data` runs `isDataValid` on the raw input first; the union that follows returns the
instance it is given.

* `modelValidateJson_dump_iff`: decoding the JSON of an envelope gives it back exactly when its
  tag fits its payload and the parser takes its `bps`.
* `telecommand_round_trip_iff`: which commands survive `fromCommand`, the encoding and the
  decoding.
-/

namespace BvexLink
namespace Codec

open Wire Json

/-- `CommandTypes`: an instance of one of the four payload classes. -/
inductive CommandTypes where
  | subscribe (metric_id : String) (bps : Int)
  | getMetricIds
  | cancel
  | end_
  deriving DecidableEq

/-- The classes `isinstance` is asked about. -/
inductive PyClass where
  | subscribe
  | getMetricIds
  | cancel
  | end_
  | telecommand
  deriving DecidableEq

def CommandTypes.pyClass : CommandTypes → PyClass
  | .subscribe _ _ => .subscribe
  | .getMetricIds => .getMetricIds
  | .cancel => .cancel
  | .end_ => .end_

inductive WhichCommandType where
  | subscribe
  | getMetricIds
  | cancel
  | end_
  deriving DecidableEq

def WhichCommandType.value : WhichCommandType → String
  | .subscribe => "subscribe"
  | .getMetricIds => "get_metric_ids"
  | .cancel => "cancel"
  | .end_ => "end"

def WhichCommandType.ofValue (s : String) : Option WhichCommandType :=
  if s = "subscribe" then some .subscribe
  else if s = "get_metric_ids" then some .getMetricIds
  else if s = "cancel" then some .cancel
  else if s = "end" then some .end_
  else none

@[simp] theorem WhichCommandType.ofValue_value (w : WhichCommandType) :
    ofValue w.value = some w := by
  cases w <;> decide

/-! ## Validation -/

/-- `Subscribe.model_validate` of a dictionary. -/
def Subscribe.modelValidate (py : Pydantic) (ms : List (String × Json)) :
    Except Errors CommandTypes :=
  (both (requiredField ms "metric_id" strValue) (requiredField ms "bps" (intValue py))).map
    fun v => .subscribe v.1 v.2

/-- The raw input of the `data` field: a payload object or a JSON value. -/
inductive RawData where
  | model (c : CommandTypes)
  | json (j : Json)

/-- `except Exception as e: raise ValueError(...)` around the validation of a payload class. -/
def failedToValidate (py : Pydantic) (title : String) (e : Errors) : String :=
  "Failed to validate command data: " ++ py.str title e

/-- `is_data_valid`; `which_command` is what `info.data` holds under that name, and the error is
the text of the `ValueError`. -/
def isDataValid (py : Pydantic) (data : RawData) (which_command : Option WhichCommandType) :
    Except String CommandTypes :=
  match data with
  | .model c =>
    -- an instance of the other two payload classes is not returned here, and is no dictionary
    if c.pyClass = .subscribe ∨ c.pyClass = .getMetricIds then .ok c
    else .error "Data must be a dictionary or a command object"
  | .json (.obj ms) =>
    match which_command with
    | none => .error "Missing 'which_command' field"
    | some .subscribe =>
      (Subscribe.modelValidate py ms).mapError (failedToValidate py "Subscribe")
    | some .getMetricIds => .ok .getMetricIds
    | some .cancel => .ok .cancel
    | some .end_ => .ok .end_
  | .json _ => .error "Data must be a dictionary or a command object"

structure Telecommand where
  which_command : WhichCommandType
  data : CommandTypes
  deriving DecidableEq

def Telecommand.pyClass (_ : Telecommand) : PyClass := .telecommand

def Telecommand.validate (py : Pydantic) (which : Except Errors WhichCommandType)
    (data : Except Errors RawData) : Except Errors Telecommand :=
  (taggedFields which data (isDataValid py)).map fun v => ⟨v.1, v.2⟩

def CommandTypes.tag : CommandTypes → WhichCommandType
  | .subscribe _ _ => .subscribe
  | .getMetricIds => .getMetricIds
  | .cancel => .cancel
  | .end_ => .end_

def Telecommand.fromCommand (py : Pydantic) (command : CommandTypes) :
    Except Errors Telecommand :=
  validate py (.ok command.tag) (.ok (.model command))

def Telecommand.validateMembers (py : Pydantic) (ms : List (String × Json)) :
    Except Errors Telecommand :=
  validate py (requiredField ms "which_command" (enumValue WhichCommandType.ofValue))
    (requiredField ms "data" fun j => .ok (.json j))

def Telecommand.modelValidateJson (py : Pydantic) (s : String) : Except Errors Telecommand :=
  Codec.modelValidateJson (validateMembers py) s

/-! ## Encoding -/

def CommandTypes.members : CommandTypes → List (String × Json)
  | .subscribe metric_id bps => [("metric_id", .str metric_id), ("bps", .int bps)]
  | _ => []

def Telecommand.members (tc : Telecommand) : List (String × Json) :=
  [("which_command", .str tc.which_command.value), ("data", .obj tc.data.members)]

def Telecommand.modelDumpJson (tc : Telecommand) : String :=
  String.ofList (print (.obj tc.members))

/-! ## Round trip -/

/-- The tag names the class of the payload. -/
def Telecommand.Tagged (tc : Telecommand) : Prop := tc.which_command = tc.data.tag

instance (tc : Telecommand) : Decidable tc.Tagged := inferInstanceAs (Decidable (_ = _))

/-- The `bps` has no more characters than the parser takes. -/
def CommandTypes.Short : CommandTypes → Prop
  | .subscribe _ bps => (printInt bps).length ≤ 4300
  | _ => True

theorem CommandTypes.leaves_members (c : CommandTypes) : depthMembers c.members ≤ 1 ∧
    ((∀ x ∈ leavesMembers c.members, shortNumber x = true) ↔ c.Short) := by
  cases c with
  | subscribe metric_id bps =>
    refine ⟨Nat.le_refl 1, ?_⟩
    simp [members, leavesMembers, leaves, Short]
  | _ => exact ⟨Nat.zero_le 1, iff_of_true (fun _ hx => absurd hx List.not_mem_nil) trivial⟩

theorem isDataValid_members (py : Pydantic) (c : CommandTypes) :
    isDataValid py (.json (.obj c.members)) (some c.tag) = .ok c := by
  cases c <;> rfl

/-- The payload class a dictionary is validated to is the one the tag names. -/
theorem isDataValid_json_tag {py : Pydantic} {j : Json} {w : WhichCommandType}
    {c : CommandTypes} (h : isDataValid py (.json j) (some w) = .ok c) : c.tag = w := by
  cases j with
  | obj ms =>
    cases w with
    | subscribe =>
      simp only [isDataValid, mapError_eq_ok, Subscribe.modelValidate, map_eq_ok] at h
      obtain ⟨v, _, rfl⟩ := h
      rfl
    | getMetricIds => cases h; rfl
    | cancel => cases h; rfl
    | end_ => cases h; rfl
  | _ => cases h

theorem validate_eq_ok {py : Pydantic} {which : Except Errors WhichCommandType}
    {data : Except Errors RawData} {tc : Telecommand} :
    Telecommand.validate py which data = .ok tc ↔
      which = .ok tc.which_command ∧
        ∃ d, data = .ok d ∧ isDataValid py d (some tc.which_command) = .ok tc.data := by
  rw [Telecommand.validate, map_eq_ok]
  constructor
  · rintro ⟨⟨w, c⟩, h, rfl⟩
    exact taggedFields_eq_ok.mp h
  · intro h
    exact ⟨(tc.which_command, tc.data), taggedFields_eq_ok.mpr h, rfl⟩

theorem validateMembers_members (py : Pydantic) (tc : Telecommand) :
    Telecommand.validateMembers py tc.members =
      Telecommand.validate py (.ok tc.which_command) (.ok (.json (.obj tc.data.members))) := by
  have hw : requiredField tc.members "which_command" (enumValue WhichCommandType.ofValue) =
      .ok tc.which_command := by
    rw [requiredField_eq_ok]
    exact ⟨_, rfl, enumValue_eq_ok.mpr ⟨_, rfl, WhichCommandType.ofValue_value _⟩⟩
  rw [Telecommand.validateMembers, hw]
  rfl

theorem modelValidateJson_dump_eq_ok {py : Pydantic} {tc tc' : Telecommand} :
    Telecommand.modelValidateJson py tc.modelDumpJson = .ok tc' ↔
      tc.data.Short ∧ Telecommand.validateMembers py tc.members = .ok tc' := by
  obtain ⟨hdepth, hshort⟩ := tc.data.leaves_members
  rw [Telecommand.modelValidateJson, Telecommand.modelDumpJson, modelValidateJson_print_eq_ok]
  exact and_congr_left' ((withinLimits_tagged (by omega)).trans hshort)

/-- Encoding and decoding gives a telecommand back exactly when its tag fits its payload and the
parser takes its `bps`. -/
theorem modelValidateJson_dump_iff (py : Pydantic) (tc : Telecommand) :
    Telecommand.modelValidateJson py tc.modelDumpJson = .ok tc ↔ tc.Tagged ∧ tc.data.Short := by
  rw [modelValidateJson_dump_eq_ok, validateMembers_members, validate_eq_ok]
  constructor
  · rintro ⟨hs, _, d, hd, hv⟩
    cases hd
    exact ⟨(isDataValid_json_tag hv).symm, hs⟩
  · rintro ⟨h, hs⟩
    refine ⟨hs, rfl, _, rfl, ?_⟩
    rw [show tc.which_command = tc.data.tag from h]
    exact isDataValid_members py tc.data

/-- `from_command` succeeds, sets the tag of the class, and decoding the JSON of its result gives
an equal telecommand with a payload of the same class and fields. -/
def RoundTrips (py : Pydantic) (c : CommandTypes) : Prop :=
  ∃ tc, Telecommand.fromCommand py c = .ok tc ∧ tc.which_command = c.tag ∧ tc.data = c ∧
    Telecommand.modelValidateJson py tc.modelDumpJson = .ok tc

theorem fromCommand_eq_ok {py : Pydantic} {c : CommandTypes} {tc : Telecommand} :
    Telecommand.fromCommand py c = .ok tc ↔
      (c.pyClass = .subscribe ∨ c.pyClass = .getMetricIds) ∧ tc = ⟨c.tag, c⟩ := by
  rw [Telecommand.fromCommand, validate_eq_ok]
  constructor
  · rintro ⟨hw, d, hd, hv⟩
    cases hd
    simp only [isDataValid] at hv
    split at hv
    · rename_i hc
      refine ⟨hc, ?_⟩
      obtain ⟨w, c'⟩ := tc
      simp only [Except.ok.injEq] at hw hv
      subst hw hv
      rfl
    · cases hv
  · rintro ⟨hc, rfl⟩
    exact ⟨rfl, _, rfl, by rw [isDataValid, if_pos hc]⟩

/-- A command round trips exactly if it is a `Subscribe` or a `GetMetricIds`, and its integer is one
that the parser takes. -/
theorem telecommand_round_trip_iff (py : Pydantic) (c : CommandTypes) :
    RoundTrips py c ↔ (c.pyClass = .subscribe ∨ c.pyClass = .getMetricIds) ∧ c.Short := by
  constructor
  · rintro ⟨tc, h, _, rfl, hd⟩
    exact ⟨(fromCommand_eq_ok.mp h).1, ((modelValidateJson_dump_iff py tc).mp hd).2⟩
  · rintro ⟨h, hs⟩
    refine ⟨⟨c.tag, c⟩, fromCommand_eq_ok.mpr ⟨h, rfl⟩, rfl, rfl, ?_⟩
    exact (modelValidateJson_dump_iff py _).mpr ⟨rfl, hs⟩

/-- `from_command` raises on a `Cancel`. -/
theorem cancel_does_not_round_trip : ¬ ∀ (py : Pydantic) (c : CommandTypes), RoundTrips py c := by
  intro h
  obtain ⟨tc, hf, _⟩ := h Pydantic.strict .cancel
  rcases (fromCommand_eq_ok.mp hf).1 with hc | hc <;> cases hc

end Codec
end BvexLink
