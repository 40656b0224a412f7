import BvexLink.Codec.Telemetry
import BvexLink.Wire.JsonFraming

/-!
# BvexLink.Ground.Downlink

The downlink as a byte stream: a task of the onboard server writes telemetry, `subscribe` and the
loop of `MetricSubscribeHandler.sync_metric_ids` on the ground decode every read result on its own.

* `frames_telemetry`: how the JSON of a message delimits itself for either loop.
* `downlink_handed_on_iff`: the loops hand on exactly the messages written, and raise nothing, if
  and only if each read result is one of them and they are of the kind the loop is for.
-/

namespace BvexLink
namespace Ground

open Wire Json Framing Codec

section Downlink

variable {F : Type} [Primitives F]

/-! ## The writers -/

/-- What a writer writes for a message, under its tag: `telemetry.model_dump_json().encode()`. -/
def encodeMessage (m : TMMessage F) : Bytes :=
  Utf8.encode (⟨m.tag, m⟩ : Telemetry F).modelDumpJson

/-- `downlink_latest_sample`: the bytes written and the value returned. -/
def downlinkLatestSample (py : Pydantic) (sample : Sample F) : Except Errors (Bytes × Nat) :=
  (Telemetry.new py .sample (.sample sample)).map fun telemetry =>
    let data := Utf8.encode telemetry.modelDumpJson
    (data, data.length)

/-- `handle_get_metric_ids`, for the ids found: the bytes written. -/
def handleGetMetricIds (py : Pydantic) (metric_ids : List String) : Except Errors Bytes :=
  (Telemetry.new py .metricIds (.metricIds ⟨metric_ids⟩)).map fun telemetry : Telemetry F =>
    Utf8.encode telemetry.modelDumpJson

theorem downlinkLatestSample_eq (py : Pydantic) (sample : Sample F) :
    downlinkLatestSample py sample =
      .ok (encodeMessage (.sample sample), (encodeMessage (.sample sample)).length) := by
  rw [downlinkLatestSample, Telemetry.new_eq]
  rfl

theorem handleGetMetricIds_eq (py : Pydantic) (metric_ids : List String) :
    handleGetMetricIds (F := F) py metric_ids =
      .ok (encodeMessage (F := F) (.metricIds ⟨metric_ids⟩)) := by
  rw [handleGetMetricIds, Telemetry.new_eq]
  rfl

/-! ## The readers -/

inductive RecvError where
  | unicodeDecodeError
  | validationError (e : Errors)

inductive Loop where
  | subscribe
  | syncMetricIds
  deriving DecidableEq

/-- The loop's way with a message: `handle_sample`, `update_metric_id_list`, or nothing. -/
def Loop.handlesOn : Loop → TMMessage F → Bool
  | .subscribe, .sample _ => true
  | .syncMetricIds, .metricIds _ => true
  | _, _ => false

/-- One iteration. A `ValidationError` is caught by `subscribe` only. -/
def Loop.onData (l : Loop) (py : Pydantic) (data : Bytes) : Rx (TMMessage F) RecvError :=
  if data = [] then .skip
  else
    match Utf8.decode data with
    | none => .abort .unicodeDecodeError
    | some text =>
      match Telemetry.modelValidateJson py text with
      | .ok telemetry => if l.handlesOn telemetry.data then .deliver telemetry.data else .skip
      | .error e =>
        match l with
        | .subscribe => .skip
        | .syncMetricIds => .abort (.validationError e)

/-- The loop over successive reads; the reads of `sync_metric_ids` may time out (`none`). -/
def Loop.run (l : Loop) (py : Pydantic) : List (Option Bytes) →
    List (TMMessage F) × Option RecvError
  | [] => ([], none)
  | none :: rs => l.run py rs
  | some data :: rs =>
    match l.onData py data with
    | .deliver m => (m :: (l.run py rs).1, (l.run py rs).2)
    | .skip => l.run py rs
    | .abort e => ([], some e)

theorem Loop.run_eq (l : Loop) (py : Pydantic) (rs : List (Option Bytes)) :
    l.run (F := F) py rs = receive (l.onData py) (rs.filterMap id) := by
  induction rs with
  | nil => rfl
  | cons r rs ih =>
    cases r with
    | none => exact ih
    | some data =>
      rw [Loop.run, ih]
      cases h : l.onData (F := F) py data <;> simp [receive, h]

theorem Loop.onData_eq_deliver {l : Loop} {py : Pydantic} {data : Bytes} {m : TMMessage F} :
    l.onData py data = .deliver m ↔ data ≠ [] ∧ l.handlesOn m = true ∧
      ∃ s t, Utf8.decode data = some s ∧ Telemetry.modelValidateJson py s = .ok t ∧ t.data = m := by
  unfold Loop.onData
  by_cases hd : data = []
  · simp [hd]
  · rw [if_neg hd]
    cases hs : Utf8.decode data with
    | none => simp
    | some s =>
      cases hv : Telemetry.modelValidateJson (F := F) py s with
      | error e => cases l <;> simp [hv]
      | ok t =>
        simp only [hv, Option.some.injEq]
        split
        · rename_i hh
          simp only [Rx.deliver.injEq]
          constructor
          · rintro rfl
            exact ⟨hd, hh, s, t, rfl, hv, rfl⟩
          · rintro ⟨_, _, s', t', rfl, hv', rfl⟩
            rw [hv] at hv'
            cases hv'
            rfl
        · rename_i hh
          refine iff_of_false nofun ?_
          rintro ⟨_, hm, s', t', rfl, hv', rfl⟩
          rw [hv] at hv'
          cases hv'
          exact hh hm

theorem takesObjects_onData (l : Loop) (py : Pydantic) :
    TakesObjects "which_type" (l.onData (F := F) py) := by
  intro r m h
  obtain ⟨_, _, s, t, hs, hv, _⟩ := Loop.onData_eq_deliver.mp h
  obtain ⟨ms, hp, _, hm⟩ := modelValidateJson_eq_ok.mp hv
  obtain ⟨hw, _⟩ := Telemetry.validate_eq_ok.mp hm
  obtain ⟨j, hj, _⟩ := requiredField_eq_ok.mp hw
  exact ⟨s, ms, hs, hp, _, field_mem hj, rfl⟩

theorem floatJson_lacksKey (k : String) (x : F) : lacksKey k (floatJson x) = true := by
  unfold floatJson
  split <;> rfl

theorem lacksKeyItems_str (k : String) (l : List String) :
    lacksKeyItems k (l.map .str) = true := by
  induction l with
  | nil => rfl
  | cons s l ih =>
    rw [List.map_cons, lacksKeyItems, ih]
    rfl

theorem message_lacksKey (m : TMMessage F) : lacksKeyMembers "which_type" m.members = true := by
  cases m with
  | metricIds m =>
    simp [TMMessage.members, MetricIds.members, lacksKeyMembers, lacksKey, lacksKeyItems_str]
  | sample s =>
    have ht : lacksKey "which_type" (timestampJson s.metadata.timestamp) = true := by
      cases s.metadata.timestamp with
      | inl x => exact floatJson_lacksKey _ x
      | inr z => rfl
    have hd : lacksKeyMembers "which_type" s.data.members = true := by
      cases s.data with
      | primitive p =>
        have hv : lacksKey "which_type" p.value.toJson = true := by
          cases p.value with
          | float x => exact floatJson_lacksKey _ x
          | _ => rfl
        simp [SampleData.members, PrimitiveData.members, lacksKeyMembers, lacksKey, hv]
      | file f => simp [SampleData.members, FileData.members, lacksKeyMembers, lacksKey]
    simp [TMMessage.members, Sample.members, SampleMetadata.members, lacksKeyMembers, lacksKey, ht,
      hd]

theorem frames_telemetry (l : Loop) (py : Pydantic) :
    Frames (encodeMessage (F := F)) (l.onData py) := by
  refine frames_of_key (takesObjects_onData l py) ⟨'w', by decide, by decide⟩ ?_
  intro m x hx
  simp only [Telemetry.members, List.mem_cons, List.not_mem_nil, or_false] at hx
  rcases hx with rfl | rfl
  · rfl
  · exact message_lacksKey m

theorem onData_encodeMessage_iff (hF : FloatsRoundTrip F) (l : Loop) (py : Pydantic)
    (m : TMMessage F) :
    l.onData py (encodeMessage m) = .deliver m ↔ l.handlesOn m = true ∧ m.Readable := by
  have hne := (frames_telemetry l py).ne_nil m
  rw [Loop.onData_eq_deliver, ← Telemetry.modelValidateJson_dump_iff hF py m]
  simp only [encodeMessage, Utf8.decode_encode] at hne ⊢
  constructor
  · rintro ⟨_, hh, s, t, hs, hv, rfl⟩
    cases hs
    refine ⟨hh, ?_⟩
    have hw := Telemetry.modelValidateJson_dump_tag hv
    rw [hv]
    obtain ⟨w, m⟩ := t
    exact congrArg (fun w => Except.ok (⟨w, m⟩ : Telemetry F)) hw
  · rintro ⟨hh, hv⟩
    exact ⟨hne, hh, _, _, rfl, hv, rfl⟩

/-- In a message as short as a read result no integer is too long. -/
theorem readable_iff_of_length (hF : FloatsRoundTrip F) {m : TMMessage F}
    (h : (encodeMessage m).length ≤ 4096) : m.Readable ↔ m.Finite := by
  have hdepth : depthMembers m.members ≤ 2 := by
    cases m with
    | sample s => exact (s.leaves_members hF).1.le
    | metricIds ids => exact ids.leaves_members.1
  have hlimits : withinLimits (.obj (⟨m.tag, m⟩ : Telemetry F).members) = true := by
    refine withinLimits_of_encodeObj ?_ (Nat.le_trans h (by omega))
    simp only [Telemetry.members, depthMembers, depth]
    omega
  rw [← Telemetry.withinLimits_members hF m.tag]
  exact and_iff_right hlimits

/-- A loop hands on exactly the messages written, and raises nothing, if and only if its reads
that do not time out each return one message, of the loop's kind and with finite numbers. -/
theorem downlink_handed_on_iff (hF : FloatsRoundTrip F) (l : Loop) (py : Pydantic)
    {rs : List (Option Bytes)} {msgs : List (TMMessage F)}
    (hc : Cut 4096 (rs.filterMap id) (stream encodeMessage msgs)) :
    l.run py rs = (msgs, none) ↔ rs.filterMap id = msgs.map encodeMessage ∧
      ∀ m ∈ msgs, l.handlesOn m = true ∧ m.Finite := by
  have hiff := receive_iff (frames_telemetry l py) hc.ne_nil hc.flatten
  simp only [onData_encodeMessage_iff hF] at hiff
  have hlen : rs.filterMap id = msgs.map encodeMessage → ∀ m ∈ msgs, m.Readable ↔ m.Finite :=
    fun hrs m hm => readable_iff_of_length hF
      (hc.length _ (by rw [hrs]; exact List.mem_map_of_mem hm))
  rw [Loop.run_eq]
  constructor
  · intro h
    obtain ⟨hrs, hm⟩ := hiff.mp (congrArg Prod.fst h)
    exact ⟨hrs, fun m hmem => ⟨(hm m hmem).1, (hlen hrs m hmem).mp (hm m hmem).2⟩⟩
  · rintro ⟨hrs, hm⟩
    have hread : ∀ m ∈ msgs, l.onData py (encodeMessage m) = .deliver m := fun m hmem =>
      (onData_encodeMessage_iff hF l py m).mpr
        ⟨(hm m hmem).1, (hlen hrs m hmem).mpr (hm m hmem).2⟩
    rw [hrs]
    exact receive_map hread

end Downlink

def idsMessage : TMMessage Bool := .metricIds ⟨["temp"]⟩

theorem idsMessage_length : (@encodeMessage Bool twoFloats idsMessage).length = 58 := by
  decide +kernel

theorem metric_ids_handed_on :
    @Loop.run Bool twoFloats .syncMetricIds Pydantic.strict
        [none, some (@encodeMessage Bool twoFloats idsMessage)] = ([idsMessage], none) ↔
      [none, some (@encodeMessage Bool twoFloats idsMessage)].filterMap id =
          [idsMessage].map (@encodeMessage Bool twoFloats) ∧
        ∀ m ∈ [idsMessage], Loop.handlesOn .syncMetricIds m = true ∧
          @TMMessage.Finite Bool twoFloats m := by
  have hne := (@frames_telemetry Bool twoFloats .syncMetricIds Pydantic.strict).ne_nil idsMessage
  refine @downlink_handed_on_iff Bool twoFloats twoFloats_roundTrip _ _ _ _ ⟨?_, ?_, ?_⟩
  · simp
  · simpa using hne
  · simp [idsMessage_length]

/-- Two lists that arrive in one read result are not handed on. -/
theorem coalesced_metric_ids_lost : ¬ ∀ (l : Loop) (py : Pydantic) (rs : List (Option Bytes))
    (msgs : List (TMMessage Bool)),
    Cut 4096 (rs.filterMap id) (stream (@encodeMessage Bool twoFloats) msgs) →
    (∀ m ∈ msgs, l.handlesOn m = true ∧ @TMMessage.Finite Bool twoFloats m) →
    @Loop.run Bool twoFloats l py rs = (msgs, none) := by
  intro h
  have hF := @frames_telemetry Bool twoFloats .syncMetricIds Pydantic.strict
  have hcut : Cut 4096 ([some (@encodeMessage Bool twoFloats idsMessage ++
      @encodeMessage Bool twoFloats idsMessage)].filterMap id)
      (stream (@encodeMessage Bool twoFloats) [idsMessage, idsMessage]) :=
    ⟨by simp, by simp [hF.ne_nil], by simp [idsMessage_length]⟩
  have hrun := congrArg Prod.fst (h .syncMetricIds Pydantic.strict _ _ hcut (by
    intro m hm
    rw [show m = idsMessage by simpa using hm]
    exact ⟨rfl, trivial⟩))
  rw [@Loop.run_eq Bool twoFloats, receive_iff hF hcut.ne_nil hcut.flatten] at hrun
  have := congrArg List.length hrun.1
  cases this

end Ground
end BvexLink
