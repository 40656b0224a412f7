import BvexLink.Codec.Telemetry
import BvexLink.Trace.Run
import BvexLink.Lists.Update

/-!
# BvexLink.RedisClient.Sample

The client functions of `sample.py`: callers of `set_sample` on one redis server and a
`SampleSubscriber`, one step a redis command or a message handled. Any number of calls overlap.

`stored` and `published` are the samples of the subscriber's metric id in the order of their `SET`
and of their `PUBLISH`.

* `LastRead`: the last sample of a list that can be read back.
* `inv_steps`: the cache and the subscriber follow the two orders.
* `cache_agrees_iff`: when the subscriber ends with what the cache holds.
-/

namespace BvexLink
namespace RedisClient

open Wire Codec ListUpdate

section RedisClient

variable {F : Type} [Primitives F]

/-! ## The calls -/

def cacheKey (metric_id : String) : String := "sample-cache:" ++ metric_id

def channelName (metric_id : String) : String := "sample-channel:" ++ metric_id

/-- A call of `set_sample`, `set_sample_primitive`, or one of the two `set_sample_file*`, with what
`time.time()` returns and the name and content of the file. -/
inductive Call (F : Type) where
  | setSample (metric_id : String) (sample : Sample F)
  | setSamplePrimitive (metric_id : String) (value : PrimitiveType F) (time : F)
  | setSampleFile (metric_id : String) (filename : String) (data : Bytes) (time : F)

/-- The sample `set_sample` is called with. -/
def Call.sample : Call F → Except Errors (Sample F)
  | .setSample _ sample => .ok sample
  | .setSamplePrimitive metric_id value time =>
    (PrimitiveData.fromValue value).bind fun data =>
      Sample.new ⟨metric_id, .inl time, .primitive⟩ (.primitive data)
  | .setSampleFile metric_id filename data time =>
    Sample.new ⟨metric_id, .inl time, .file⟩ (.file ⟨filename, data⟩)

/-- A call before its `SET`, between `SET` and `PUBLISH`, and after. -/
inductive Stage where
  | begun
  | stored
  | returned
  deriving DecidableEq

structure Caller (F : Type) where
  sample : Sample F
  stage : Stage

/-! ## The server and a subscriber -/

/-- `messages` are those published on the subscriber's channel and not handled, `listening` if its
thread has not ended with an exception. -/
structure Redis (F : Type) where
  cache : String → Option String
  callers : List (Caller F)
  metricId : String
  messages : List String
  latestSample : Option (Sample F)
  listening : Bool
  stored : List (Sample F)
  published : List (Sample F)

inductive Event (F : Type) where
  | call (c : Call F)
  | set (k : Nat)
  | publish (k : Nat)
  | handle

namespace Redis

/-- The subscriber of a metric id, before any call. -/
def start (metric_id : String) : Redis F where
  cache _ := none
  callers := []
  metricId := metric_id
  messages := []
  latestSample := none
  listening := true
  stored := []
  published := []

variable (s : Redis F)

def isOurs (sample : Sample F) : Bool := sample.metadata.metric_id = s.metricId

def set (k : Nat) (sample : Sample F) : Redis F :=
  { s with
    cache := Function.update s.cache (cacheKey sample.metadata.metric_id) (some sample.modelDumpJson)
    callers := s.callers.modify k fun c => { c with stage := .stored }
    stored := if s.isOurs sample then s.stored ++ [sample] else s.stored }

def publish (k : Nat) (sample : Sample F) : Redis F :=
  { s with
    messages :=
      if channelName sample.metadata.metric_id = channelName s.metricId then
        s.messages ++ [sample.modelDumpJson]
      else s.messages
    callers := s.callers.modify k fun c => { c with stage := .returned }
    published := if s.isOurs sample then s.published ++ [sample] else s.published }

def onMessage (py : Pydantic) (data : String) : Redis F :=
  match Sample.modelValidateJson py data with
  | .error _ => { s with listening := false }
  | .ok sample =>
    if sample.metadata.metric_id = s.metricId then { s with latestSample := some sample }
    else { s with listening := false }

def step (py : Pydantic) (s : Redis F) : Event F → Option (Redis F)
  | .call c =>
    match c.sample with
    | .ok sample => some { s with callers := s.callers ++ [⟨sample, .begun⟩] }
    | .error _ => some s
  | .set k =>
    match s.callers[k]? with
    | some c => if c.stage = .begun then some (s.set k c.sample) else none
    | none => none
  | .publish k =>
    match s.callers[k]? with
    | some c => if c.stage = .stored then some (s.publish k c.sample) else none
    | none => none
  | .handle =>
    match s.messages with
    | [] => none
    | data :: rest =>
      if s.listening then some ({ s with messages := rest }.onMessage py data) else none

abbrev Steps (py : Pydantic) : Redis F → List (Event F) → Redis F → Prop :=
  Trace.Run (Trace.ofFn (step py))

/-- `get_sample`. -/
def getSample (py : Pydantic) (metric_id : String) : Except Errors (Option (Sample F)) :=
  match s.cache (cacheKey metric_id) with
  | none => .ok none
  | some sample_json => (Sample.modelValidateJson py sample_json).map some

/-- All calls have returned, and all messages have been handled. -/
def Settled : Prop := (∀ c ∈ s.callers, c.stage = .returned) ∧ s.messages = []

/-- The last sample of the list that can be read back. -/
def LastRead (l : List (Sample F)) (x : Sample F) : Prop :=
  ∃ before after, l = before ++ x :: after ∧ x.Readable ∧ ∀ y ∈ after, ¬ y.Readable

/-! ## What holds in every run -/

omit [Primitives F] in
theorem cacheKey_inj {m m' : String} : cacheKey m = cacheKey m' ↔ m = m' :=
  String.append_right_inj _

omit [Primitives F] in
theorem channelName_inj {m m' : String} : channelName m = channelName m' ↔ m = m' :=
  String.append_right_inj _

theorem lastRead_append {l : List (Sample F)} {x y : Sample F} :
    LastRead (l ++ [y]) x ↔ y.Readable ∧ x = y ∨ ¬ y.Readable ∧ LastRead l x := by
  constructor
  · rintro ⟨before, after, he, hx, hafter⟩
    rcases List.eq_nil_or_concat after with rfl | ⟨after, z, rfl⟩
    · obtain ⟨rfl, hxy⟩ := List.append_inj' he rfl
      obtain rfl := List.singleton_inj.mp hxy
      exact .inl ⟨hx, rfl⟩
    · rw [List.concat_eq_append, ← List.cons_append, ← List.append_assoc] at he
      obtain ⟨rfl, hyz⟩ := List.append_inj' he rfl
      obtain rfl := List.singleton_inj.mp hyz
      refine .inr ⟨hafter y (by simp), before, after, rfl, hx, fun w hw => hafter w ?_⟩
      rw [List.concat_eq_append]
      exact List.mem_append_left _ hw
  · rintro (⟨hy, rfl⟩ | ⟨hy, before, after, rfl, hx, hafter⟩)
    · exact ⟨l, [], rfl, hy, nofun⟩
    · refine ⟨before, after ++ [y], by simp, hx, fun w hw => ?_⟩
      rcases List.mem_append.mp hw with hw | hw
      · exact hafter w hw
      · exact List.mem_singleton.mp hw ▸ hy

/-- The messages are the last of those published, and the subscriber has the last of the others that
could be read. -/
structure Inv (s : Redis F) : Prop where
  cached : s.cache (cacheKey s.metricId) = s.stored.getLast?.map Sample.modelDumpJson
  ours : ∀ sample ∈ s.published, s.isOurs sample = true
  handled : ∃ before after, s.published = before ++ after ∧
    s.messages = after.map Sample.modelDumpJson ∧
    ∀ x, s.latestSample = some x ↔ LastRead before x

theorem inv_start (metric_id : String) : Inv (start metric_id : Redis F) where
  cached := rfl
  ours := nofun
  handled := by
    refine ⟨[], [], rfl, rfl, fun x => iff_of_false nofun ?_⟩
    rintro ⟨before, after, he, _⟩
    simp at he

variable {s : Redis F}

theorem inv_set (hi : Inv s) {k : Nat} {sample : Sample F} : Inv (s.set k sample) := by
  refine ⟨?_, hi.ours, hi.handled⟩
  simp only [set]
  by_cases ho : s.isOurs sample = true
  · have hm : sample.metadata.metric_id = s.metricId := by simpa [isOurs] using ho
    rw [if_pos ho, hm, Function.update_self, List.getLast?_concat, Option.map_some]
  · have hm : s.metricId ≠ sample.metadata.metric_id := by
      simpa [isOurs, eq_comm] using ho
    rw [if_neg ho, Function.update_of_ne (fun h => hm (cacheKey_inj.mp h))]
    exact hi.cached

theorem inv_publish (hi : Inv s) {k : Nat} {sample : Sample F} : Inv (s.publish k sample) := by
  have hours : channelName sample.metadata.metric_id = channelName s.metricId ↔
      s.isOurs sample = true := by rw [channelName_inj]; simp [isOurs]
  obtain ⟨before, after, hp, hm, hl⟩ := hi.handled
  by_cases ho : s.isOurs sample = true
  · refine ⟨hi.cached, ?_, before, after ++ [sample], ?_, ?_, hl⟩
    · intro x hx
      simp only [publish, if_pos ho] at hx
      rcases List.mem_append.mp hx with hx | hx
      · exact hi.ours x hx
      · exact List.mem_singleton.mp hx ▸ ho
    · simp [publish, ho, hp]
    · simp [publish, hours.mpr ho, hm]
  · have hc : ¬ channelName sample.metadata.metric_id = channelName s.metricId := mt hours.mp ho
    refine ⟨hi.cached, ?_, before, after, ?_, ?_, hl⟩
    · intro x hx
      simp only [publish, if_neg ho] at hx
      exact hi.ours x hx
    · simpa [publish, ho] using hp
    · simpa [publish, hc] using hm

theorem onMessage_readable (hF : FloatsRoundTrip F) (py : Pydantic) {sample : Sample F}
    (ho : s.isOurs sample = true) (hr : sample.Readable) :
    s.onMessage py sample.modelDumpJson = { s with latestSample := some sample } := by
  have hm : sample.metadata.metric_id = s.metricId := by simpa [isOurs] using ho
  simp only [onMessage, (Sample.modelValidateJson_dump_iff hF py sample).mpr hr, if_pos hm]

theorem onMessage_unreadable (hF : FloatsRoundTrip F) (py : Pydantic) {sample : Sample F}
    (hr : ¬ sample.Readable) :
    s.onMessage py sample.modelDumpJson = { s with listening := false } := by
  rw [onMessage]
  cases hv : (Sample.modelValidateJson py sample.modelDumpJson : Except Errors (Sample F)) with
  | error e => rfl
  | ok x => exact absurd ((Sample.modelValidateJson_dump_eq_ok hF).mp hv).2 hr

theorem inv_handle (hF : FloatsRoundTrip F) {py : Pydantic} (hi : Inv s) {data : String}
    {rest : List String} (hq : s.messages = data :: rest) :
    Inv ({ s with messages := rest }.onMessage py data) := by
  obtain ⟨before, after, hp, hm, hl⟩ := hi.handled
  cases after with
  | nil =>
    rw [hq] at hm
    cases hm
  | cons sample after =>
    obtain ⟨rfl, rfl⟩ := List.cons.inj (hq.symm.trans hm)
    have hsplit : s.published = (before ++ [sample]) ++ after := by simp [hp]
    have ho : isOurs { s with messages := after.map Sample.modelDumpJson } sample = true :=
      hi.ours sample (by simp [hp])
    by_cases hr : sample.Readable
    · rw [onMessage_readable hF py ho hr]
      refine ⟨hi.cached, hi.ours, before ++ [sample], after, hsplit, rfl, fun x => ?_⟩
      rw [lastRead_append]
      simp [hr, eq_comm]
    · rw [onMessage_unreadable hF py hr]
      refine ⟨hi.cached, hi.ours, before ++ [sample], after, hsplit, rfl, fun x => ?_⟩
      rw [lastRead_append, hl x]
      simp [hr]

theorem inv_step (hF : FloatsRoundTrip F) {py : Pydantic} {s t : Redis F} {e : Event F}
    (hi : Inv s) (h : step py s e = some t) : Inv t := by
  cases e with
  | call c =>
    simp only [step] at h
    split at h
    · cases h
      exact ⟨hi.cached, hi.ours, hi.handled⟩
    · cases h
      exact hi
  | set k =>
    simp only [step] at h
    split at h
    · split at h
      · cases h
        exact inv_set hi
      · cases h
    · cases h
  | publish k =>
    simp only [step] at h
    split at h
    · split at h
      · cases h
        exact inv_publish hi
      · cases h
    · cases h
  | handle =>
    simp only [step] at h
    split at h
    · cases h
    · rename_i data rest hq
      split at h
      · cases h
        exact inv_handle hF hi hq
      · cases h

theorem inv_steps (hF : FloatsRoundTrip F) {py : Pydantic} {metric_id : String}
    {es : List (Event F)} {s : Redis F} (h : Steps py (start metric_id) es s) : Inv s :=
  h.invariant (inv_start metric_id) fun _ _ _ hi hst => inv_step hF hi hst

/-! ## In the end -/

def Agree (py : Pydantic) (s : Redis F) : Prop := s.getSample py s.metricId = .ok s.latestSample

theorem getSample_eq_ok (hF : FloatsRoundTrip F) {py : Pydantic} (hi : Inv s)
    {r : Option (Sample F)} : s.getSample py s.metricId = .ok r ↔
      r = s.stored.getLast? ∧ ∀ x, s.stored.getLast? = some x → x.Readable := by
  rw [getSample, hi.cached]
  cases s.stored.getLast? with
  | none => simp [eq_comm]
  | some x =>
    simp only [Option.map_some, map_eq_ok, Sample.modelValidateJson_dump_eq_ok hF,
      Option.some.injEq, forall_eq']
    constructor
    · rintro ⟨y, ⟨rfl, hr⟩, rfl⟩
      exact ⟨rfl, hr⟩
    · rintro ⟨rfl, hr⟩
      exact ⟨x, ⟨rfl, hr⟩, rfl⟩

theorem latestSample_iff (hi : Inv s) (hq : s.messages = []) (x : Sample F) :
    s.latestSample = some x ↔ LastRead s.published x := by
  obtain ⟨before, after, hp, hm, hl⟩ := hi.handled
  rw [hq] at hm
  rw [hp, List.map_eq_nil_iff.mp hm.symm, List.append_nil]
  exact hl x

/-- After any calls, overlapping in any way, cache and subscriber agree exactly if the sample of the
last `SET` is the last one published that can be read, or there is neither. -/
theorem cache_agrees_iff (hF : FloatsRoundTrip F) {py : Pydantic} {metric_id : String}
    {es : List (Event F)} {s : Redis F} (h : Steps py (start metric_id) es s)
    (hs : s.Settled) :
    s.Agree py ↔ ∀ x, s.stored.getLast? = some x ↔ LastRead s.published x := by
  have hi := inv_steps hF h
  have hlatest := latestSample_iff hi hs.2
  rw [Agree, getSample_eq_ok hF hi]
  constructor
  · rintro ⟨he, _⟩ x
    rw [← he]
    exact hlatest x
  · intro hx
    refine ⟨Option.ext fun x => (hlatest x).trans (hx x).symm, fun x hl => ?_⟩
    obtain ⟨_, _, _, hr, _⟩ := (hx x).mp hl
    exact hr

/-! ## Two runs -/

theorem set_ours {k : Nat} {sample : Sample F} (h : s.isOurs sample = true) :
    (s.set k sample).stored = s.stored ++ [sample] := if_pos h

theorem publish_ours {k : Nat} {x : Sample F} (h : s.isOurs x = true) :
    (s.publish k x).published = s.published ++ [x] ∧
      (s.publish k x).messages = s.messages ++ [x.modelDumpJson] := by
  have hm : x.metadata.metric_id = s.metricId := by simpa [isOurs] using h
  exact ⟨if_pos h, if_pos (by rw [hm])⟩

theorem handle_eq (hF : FloatsRoundTrip F) (py : Pydantic) {x : Sample F} {q : List String}
    (ho : s.isOurs x = true) (hr : x.Readable) (hq : s.messages = x.modelDumpJson :: q)
    (hl : s.listening = true) :
    step py s .handle = some { s with messages := q, latestSample := some x } := by
  have ho' : isOurs { s with messages := q } x = true := ho
  simp only [step, hq, if_pos hl, onMessage_readable hF py ho' hr]

theorem one_call_run (hF : FloatsRoundTrip F) (py : Pydantic) {x : Sample F} (hx : x.Readable) :
    ∃ s, Steps py (start x.metadata.metric_id)
      [.call (.setSample x.metadata.metric_id x), .set 0, .publish 0, .handle] s ∧
        s.Settled ∧ s.stored = [x] ∧ s.published = [x] := by
  let s1 : Redis F := { start x.metadata.metric_id with callers := [⟨x, .begun⟩] }
  have ho : s1.isOurs x = true := by simp [isOurs, s1, start]
  obtain ⟨hp, hm⟩ := publish_ours (s := s1.set 0 x) (k := 0) ho
  have h4 := handle_eq hF py (s := (s1.set 0 x).publish 0 x) (q := []) ho hx hm rfl
  refine ⟨_, .cons rfl (.cons rfl (.cons rfl (.single h4))), ⟨?_, rfl⟩, set_ours (k := 0) ho, hp⟩
  intro c hc
  rw [List.mem_singleton.mp hc]

theorem overlap_run (hF : FloatsRoundTrip F) (py : Pydantic) {x y : Sample F} (hx : x.Readable)
    (hy : y.Readable) (hid : y.metadata.metric_id = x.metadata.metric_id) :
    ∃ es s, Steps py (start x.metadata.metric_id) es s ∧ s.Settled ∧ s.stored = [x, y] ∧
      s.published = [y, x] := by
  let s2 : Redis F := { start x.metadata.metric_id with callers := [⟨x, .begun⟩, ⟨y, .begun⟩] }
  let s4 := (s2.set 0 x).set 1 y
  let s6 := (s4.publish 1 y).publish 0 x
  have hox : s2.isOurs x = true := by simp [isOurs, s2, start]
  have hoy : s2.isOurs y = true := by simp [isOurs, s2, start, hid]
  obtain ⟨hp5, hm5⟩ := publish_ours (s := s4) (k := 1) (x := y) hoy
  obtain ⟨hp6, hm6⟩ := publish_ours (s := s4.publish 1 y) (k := 0) (x := x) hox
  have h7 := handle_eq hF py (s := s6) (q := [x.modelDumpJson]) hoy hy (by rw [hm6, hm5]; rfl) rfl
  have h8 := handle_eq hF py (s := { s6 with messages := [x.modelDumpJson], latestSample := some y })
    (q := []) hox hx rfl rfl
  refine ⟨[.call (.setSample x.metadata.metric_id x), .call (.setSample x.metadata.metric_id y),
    .set 0, .set 1, .publish 1, .publish 0, .handle, .handle], _,
    .cons rfl (.cons rfl (.cons rfl (.cons rfl (.cons rfl (.cons rfl (.cons h7 (.single h8))))))),
    ⟨?_, rfl⟩, ?_, ?_⟩
  · intro c hc
    rcases List.mem_cons.mp hc with rfl | hc
    · rfl
    · rw [List.mem_singleton.mp hc]
  · exact (set_ours (s := s2.set 0 x) (k := 1) hoy).trans
      (congrArg (· ++ [y]) (set_ours (s := s2) (k := 0) hox))
  · exact hp6.trans (congrArg (· ++ [x]) hp5)

theorem lastRead_singleton {x y : Sample F} : LastRead [x] y ↔ x.Readable ∧ y = x := by
  have hnil : ¬ LastRead ([] : List (Sample F)) y := by
    rintro ⟨before, after, he, _⟩
    simp at he
  rw [← List.nil_append [x], lastRead_append]
  simp [hnil]

end Redis

end RedisClient

namespace Redis

theorem one_call_agrees : ∃ s, @Steps Bool twoFloats Pydantic.strict (start "temp")
    [.call (.setSample "temp" (flagSample true)), .set 0, .publish 0, .handle] s ∧
      s.Settled ∧ @Agree Bool twoFloats Pydantic.strict s := by
  obtain ⟨s, h, hs, hst, hpub⟩ := @one_call_run Bool twoFloats twoFloats_roundTrip Pydantic.strict
    (flagSample true) (flagSample_readable true)
  refine ⟨s, h, hs, ?_⟩
  refine (@cache_agrees_iff Bool twoFloats twoFloats_roundTrip Pydantic.strict _ _ s h hs).mpr ?_
  intro x
  rw [hst, hpub, @lastRead_singleton Bool twoFloats, and_iff_right (flagSample_readable true)]
  simp [eq_comm]

/-- The sample stored last is published first. -/
theorem overlap_disagrees : ¬ ∀ (metric_id : String) (es : List (Event Bool)) (s : Redis Bool),
    @Steps Bool twoFloats Pydantic.strict (start metric_id) es s → s.Settled →
      @Agree Bool twoFloats Pydantic.strict s := by
  intro h
  obtain ⟨es, s, hs, hset, hst, hpub⟩ := @overlap_run Bool twoFloats twoFloats_roundTrip
    Pydantic.strict (flagSample false) (flagSample true) (flagSample_readable _)
    (flagSample_readable _) rfl
  have hi := @inv_steps Bool twoFloats twoFloats_roundTrip _ _ _ _ hs
  obtain ⟨hl, _⟩ := (@getSample_eq_ok Bool twoFloats s twoFloats_roundTrip _ hi _).mp
    (h _ es s hs hset)
  have hx := (@latestSample_iff Bool twoFloats s hi hset.2 (flagSample false)).mpr <| by
    rw [hpub]
    exact ⟨[flagSample true], [], rfl, flagSample_readable false, nofun⟩
  rw [hl, hst] at hx
  cases hx

end Redis

end RedisClient
end BvexLink
