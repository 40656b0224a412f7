import BvexLink.Codec.Construction
import BvexLink.Ground.Ingest
import BvexLink.Ground.StoreFileSample
import BvexLink.Onboard.DownlinkLoop
import BvexLink.RedisClient.Sample

/-!
# BvexLink.Ground.AddSample

A file on its way: `set_sample_file` on board, the cache, the downlink, `subscribe`, and
`TelemetryServer.add_sample`, which stores instances of `FileSample`.

* `received_eq_some`: what `subscribe` hands on are instances of `Sample`.
* `stored_data_eq`: the bytes that are put in arrive.
* `files_stored_iff`: for which samples they are stored.
-/

namespace BvexLink
namespace Ground

open Codec Wire Tasks Onboard RedisClient

section AddSample

variable {F : Type}

/-- `isinstance(message, Sample)` -/
def isSample (o : MessageObject F) : Bool :=
  match o.pyClass with
  | .metricIds => false
  | .sample | .fileSample | .primitiveSample => true

/-- `isinstance(sample, FileSample)` -/
def isFileSample (o : MessageObject F) : Bool := o.pyClass = .fileSample

variable [Primitives F]

/-- What `subscribe` passes to `handle_sample` for a read result. -/
def received (py : Pydantic) (data : Bytes) : Option (MessageObject F) :=
  if data = [] then none
  else
    match Utf8.decode data with
    | none => none
    | some text =>
      match TelemetryObject.modelValidateJson py text with
      | .ok telemetry => if isSample telemetry.data then some telemetry.data else none
      | .error _ => none

def addSample (m : RealtimeTelemetryConnectionManager) (o : MessageObject F) (sample : Sample F)
    (fails : Sink F → Bool) : Ingest F :=
  Ingest.start m sample (isFileSample o) fails

def RunsStore (s : Ingest F) (sample : Sample F) : Prop :=
  ∃ l ∈ s.leaves, l.job = .storeFileSample sample

/-- `data` is what is written for a file put into the cache on board. -/
def SentFor (py : Pydantic) (filename : String) (content data : Bytes) : Prop :=
  ∃ (metric_id : String) (time : F) (put cached : Sample F) (bytes_sent : Nat),
    (Call.setSampleFile metric_id filename content time).sample = .ok put ∧
    getSampleAsync py (some (Utf8.encode put.modelDumpJson)) = .ok cached ∧
    downlinkLatestSample py cached = .ok (data, bytes_sent)

/-- The sample handed on is stored exactly if its payload is a file, in any schedule of the tasks,
and with the bytes put in. -/
structure FilesStored (py : Pydantic) (data : Bytes) (o : MessageObject F) (sample : Sample F) :
    Prop where
  runs : ∀ m fails es s, Ingest.Steps (addSample m o sample fails) es s →
    (RunsStore s sample ↔ sample.metadata.which_data_type = .file)
  content : ∀ filename content, SentFor (F := F) py filename content data →
    ∀ fileStoreDir file, storeFileSample fileStoreDir sample = .ok file → file.data = content

/-! ## What arrives -/

theorem received_eq_some {py : Pydantic} {data : Bytes} {o : MessageObject F} :
    received py data = some o ↔
      ∃ sample, o = .ofMessage (.sample sample) ∧
        Loop.subscribe.onData py data = .deliver (.sample sample) := by
  simp only [Loop.onData_eq_deliver]
  unfold received
  by_cases hd : data = []
  · simp [hd]
  rw [if_neg hd]
  cases hs : Utf8.decode data with
  | none => simp
  | some text =>
    cases ht : (Telemetry.modelValidateJson py text : Except Errors (Telemetry F)) with
    | error e => simp [TelemetryObject.modelValidateJson, ht, Except.map]
    | ok t =>
      simp only [TelemetryObject.modelValidateJson, ht, Except.map]
      constructor
      · intro h
        split at h
        · rename_i hi
          cases hm : t.data with
          | metricIds ids => simp [hm, MessageObject.ofMessage, isSample] at hi
          | sample sample =>
            rw [hm] at h
            exact ⟨sample, (Option.some.inj h).symm, hd, rfl, text, t, rfl, ht, hm⟩
        · cases h
      · rintro ⟨sample, rfl, _, _, text', t', hs', ht', hm⟩
        cases hs'
        rw [ht] at ht'
        cases ht'
        rw [hm]
        rfl

theorem isFileSample_of_received {py : Pydantic} {data : Bytes} {o : MessageObject F}
    (h : received py data = some o) : isFileSample o = false := by
  obtain ⟨sample, rfl, _⟩ := received_eq_some.mp h
  rfl

theorem received_encodeMessage (hF : FloatsRoundTrip F) (py : Pydantic) {sample : Sample F}
    (hs : sample.Readable) :
    received py (encodeMessage (.sample sample)) = some (.ofMessage (.sample sample)) :=
  received_eq_some.mpr
    ⟨sample, rfl, (onData_encodeMessage_iff hF .subscribe py (.sample sample)).mpr ⟨rfl, hs⟩⟩

theorem stored_data_eq (hF : FloatsRoundTrip F) {py : Pydantic} {filename : String}
    {content data : Bytes} {sample : Sample F} (hsent : SentFor (F := F) py filename content data)
    (hr : received py data = some (.ofMessage (.sample sample))) {fileStoreDir : List Char}
    {file : StoredFile} (hfile : storeFileSample fileStoreDir sample = .ok file) :
    file.data = content := by
  obtain ⟨metric_id, time, put, cached, bytes_sent, hput, hget, hdown⟩ := hsent
  obtain ⟨rfl, hfin⟩ := (getSampleAsync_encode hF).mp hget
  rw [downlinkLatestSample_eq, Except.ok.injEq, Prod.mk.injEq] at hdown
  rw [← hdown.1, received_encodeMessage hF py hfin] at hr
  have hmessage := congrArg MessageObject.message (Option.some.inj hr)
  obtain rfl : cached = sample := TMMessage.sample.inj hmessage
  have hdata : cached.data = .file ⟨filename, content⟩ := (Sample.new_eq_ok.mp hput).2
  obtain ⟨text, _, rfl⟩ := (storeFileSample_eq_ok hdata).mp hfile
  rfl

/-! ## What is stored -/

theorem runsStore_iff {m : RealtimeTelemetryConnectionManager} {o : MessageObject F}
    {sample : Sample F} {fails : Sink F → Bool} {es : List IngestEvent} {s : Ingest F}
    (h : Ingest.Steps (addSample m o sample fails) es s) :
    RunsStore s sample ↔ isFileSample o = true := by
  have hmem : RunsStore s sample ↔
      .storeFileSample sample ∈ Ingest.sinks m sample (isFileSample o) := by
    constructor
    · rintro ⟨l, hl, hj⟩
      exact ((Ingest.mem_leaves_iff h _ l.fails).mp ⟨l, hl, hj, rfl⟩).1
    · intro hx
      obtain ⟨l, hl, hj, _⟩ := (Ingest.mem_leaves_iff h _ _).mpr ⟨hx, rfl⟩
      exact ⟨l, hl, hj⟩
  rw [hmem]
  cases isFileSample o <;>
    simp [Ingest.sinks, Ingest.sendSinks, Ingest.otherSinks, Ingest.historySink]

theorem runs_iff {py : Pydantic} {data : Bytes} {o : MessageObject F} {sample : Sample F}
    (h : received py data = some o) :
    (∀ m fails es s, Ingest.Steps (addSample m o sample fails) es s →
      (RunsStore s sample ↔ sample.metadata.which_data_type = .file)) ↔
      sample.metadata.which_data_type ≠ .file := by
  have hclass := isFileSample_of_received h
  constructor
  · intro hruns hfile
    have hstore := (hruns ⟨∅, ∅⟩ (fun _ => false) [] _ .nil).mpr hfile
    rw [runsStore_iff .nil, hclass] at hstore
    cases hstore
  · intro hne m fails es s hs
    rw [runsStore_iff hs, hclass]
    exact iff_of_false Bool.false_ne_true hne

theorem files_stored_iff (hF : FloatsRoundTrip F) {py : Pydantic} {data : Bytes}
    {o : MessageObject F} {sample : Sample F} (h : received py data = some o)
    (hs : o.message = .sample sample) :
    FilesStored py data o sample ↔ sample.metadata.which_data_type ≠ .file := by
  rw [← runs_iff h]
  constructor
  · exact FilesStored.runs
  · intro hruns
    refine ⟨hruns, fun filename content hsent fileStoreDir file hfile => ?_⟩
    obtain ⟨sample', rfl, _⟩ := received_eq_some.mp h
    cases hs
    exact stored_data_eq hF hsent h hfile

end AddSample

/-! ## An instance -/

theorem flag_not_stored : @FilesStored Bool twoFloats Pydantic.strict
    (@encodeMessage Bool twoFloats (.sample (flagSample true)))
    (.ofMessage (.sample (flagSample true))) (flagSample true) :=
  (@files_stored_iff Bool twoFloats twoFloats_roundTrip Pydantic.strict _ _ _
    (@received_encodeMessage Bool twoFloats twoFloats_roundTrip Pydantic.strict _
      (flagSample_readable true)) rfl).mpr (by simp [flagSample])

def twoBytes : Sample Bool :=
  ⟨⟨"camera", .inr 0, .file⟩, .file ⟨"a.png", [137, 80]⟩, rfl⟩

theorem twoBytes_readable : @Sample.Readable Bool twoFloats twoBytes := by
  refine @Sample.Readable.mk Bool twoFloats _
    (@Sample.Finite.mk Bool twoFloats _ (fun _ h => by cases h) trivial) ⟨?_, nofun⟩
  intro z hz
  cases hz
  decide

theorem file_not_stored : ¬ ∀ (F : Type) [Primitives F], FloatsRoundTrip F →
    ∀ (py : Pydantic) (data : Bytes) (o : MessageObject F) (sample : Sample F),
      received py data = some o → o.message = .sample sample → FilesStored py data o sample := by
  intro h
  have hr := @received_encodeMessage Bool twoFloats twoFloats_roundTrip Pydantic.strict _
    twoBytes_readable
  have hs := @h Bool twoFloats twoFloats_roundTrip Pydantic.strict _ _ twoBytes hr rfl
  exact (@runs_iff Bool twoFloats Pydantic.strict _ _ twoBytes hr).mp
    (@FilesStored.runs Bool twoFloats _ _ _ _ hs) rfl

end Ground
end BvexLink
