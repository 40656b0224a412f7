import BvexLink.Codec.Telemetry
import BvexLink.Trace.Run
import BvexLink.Lists.Update

/-!
# BvexLink.RedisClient.WaitForSample

`SampleSubscriber` of `sample.py` by what is done under its lock: the thread that stores samples and
any number of calls of `wait_for_sample`. The check of a call and its wait on the condition are two
steps, and what notifies the condition wakes the calls that are asleep.

* `noLostWakeup_iff`: no call sleeps on a sample, or is about to.
* `no_lost_wakeup_run_iff`: when this holds throughout a run.
-/

namespace BvexLink
namespace RedisClient

open Wire Codec ListUpdate

section WaitForSample

variable {F : Type} [Primitives F]

/-- A call before `get_sample`, after it gave `None`, asleep on the condition, notified or timed out
but without the lock, and after. -/
inductive WaitStage (F : Type) where
  | begun
  | checked
  | asleep
  | woken
  | returned (sample : Option (Sample F))

/-- A call of `wait_for_sample`; `timed` if it has a timeout. -/
structure WaitCall (F : Type) where
  timed : Bool
  stage : WaitStage F

/-- `listening` if the thread has not ended with an exception. -/
structure SampleSubscriber (F : Type) where
  metricId : String
  latestSample : Option (Sample F)
  listening : Bool
  calls : List (WaitCall F)

namespace SampleSubscriber

inductive Action where
  | check
  | sleep
  | expire
  | resume

inductive Event where
  | message (data : String)
  | waitForSample (timed : Bool)
  | act (k : Nat) (a : Action)

def start (metric_id : String) : SampleSubscriber F := ⟨metric_id, none, true, []⟩

variable (py : Pydantic) (s : SampleSubscriber F)

/-- The sample of a message, if `_run` gets past its assertion. -/
def sampleOf (data : String) : Option (Sample F) :=
  match Sample.modelValidateJson py data with
  | .error _ => none
  | .ok sample => if sample.metadata.metric_id = s.metricId then some sample else none

def notified (c : WaitCall F) : WaitCall F :=
  match c.stage with
  | .asleep => { c with stage := .woken }
  | _ => c

def onMessage (data : String) : SampleSubscriber F :=
  match s.sampleOf py data with
  | none => { s with listening := false }
  | some sample => { s with latestSample := some sample, calls := s.calls.map notified }

/-- Where an action takes a call; `none` where it cannot happen. -/
def nextStage (latest_sample : Option (Sample F)) (c : WaitCall F) (a : Action) :
    Option (WaitStage F) :=
  match a, c.stage with
  | .check, .begun =>
    match latest_sample with
    | some sample => some (.returned (some sample))
    | none => some .checked
  | .sleep, .checked => some .asleep
  | .expire, .asleep => if c.timed then some .woken else none
  | .resume, .woken => some (.returned latest_sample)
  | _, _ => none

def step (s : SampleSubscriber F) : Event → Option (SampleSubscriber F)
  | .message data => if s.listening then some (s.onMessage py data) else none
  | .waitForSample timed => some { s with calls := s.calls ++ [⟨timed, .begun⟩] }
  | .act k a =>
    (s.calls[k]?.bind fun c => nextStage s.latestSample c a).map fun stage =>
      { s with calls := s.calls.modify k fun c => { c with stage := stage } }

abbrev Steps : SampleSubscriber F → List Event → SampleSubscriber F → Prop :=
  Trace.Run (Trace.ofFn (step py))

/-- With a sample there, no call is asleep, none goes to sleep, and each that has not returned
returns the sample with its next action. -/
structure NoLostWakeup (s : SampleSubscriber F) : Prop where
  awake : ∀ sample, s.latestSample = some sample → ∀ c ∈ s.calls, c.stage ≠ .asleep
  sleeps : ∀ k t, step py s (.act k .sleep) = some t → s.latestSample = none
  returns : ∀ sample, s.latestSample = some sample → ∀ k c, s.calls[k]? = some c →
    (∃ r, c.stage = .returned r) ∨ ∃ a t c', step py s (.act k a) = some t ∧
      t.calls[k]? = some c' ∧ c'.stage = .returned (some sample)

/-- A sample is stored only while no call is between its check and its wait. -/
def Timely (s : SampleSubscriber F) : Event → Prop
  | .message data => ∀ sample, s.sampleOf py data = some sample →
    ∀ c ∈ s.calls, c.stage ≠ .checked
  | _ => True

/-! ## Steps -/

def Clear (s : SampleSubscriber F) : Prop :=
  ∀ sample, s.latestSample = some sample → ∀ c ∈ s.calls, c.stage ≠ .asleep ∧ c.stage ≠ .checked

variable {py s}

/-- What an action of a call comes to. -/
inductive Moves (latest_sample : Option (Sample F)) (c : WaitCall F) :
    Action → WaitStage F → Prop where
  | found {sample : Sample F} (h : c.stage = .begun) (hl : latest_sample = some sample) :
    Moves latest_sample c .check (.returned (some sample))
  | checked (h : c.stage = .begun) (hl : latest_sample = none) :
    Moves latest_sample c .check .checked
  | sleep (h : c.stage = .checked) : Moves latest_sample c .sleep .asleep
  | expire (h : c.stage = .asleep) (ht : c.timed = true) : Moves latest_sample c .expire .woken
  | resume (h : c.stage = .woken) : Moves latest_sample c .resume (.returned latest_sample)

omit [Primitives F] in
theorem nextStage_eq_some {latest_sample : Option (Sample F)} {c : WaitCall F} {a : Action}
    {stage : WaitStage F} :
    nextStage latest_sample c a = some stage ↔ Moves latest_sample c a stage := by
  obtain ⟨timed, from_⟩ := c
  constructor
  · intro h
    unfold nextStage at h
    split at h
    · rename_i hc
      cases latest_sample with
      | none =>
        cases h
        exact .checked hc rfl
      | some sample =>
        cases h
        exact .found hc rfl
    · rename_i hc
      cases h
      exact .sleep hc
    · rename_i hc
      split at h
      · rename_i ht
        cases h
        exact .expire hc ht
      · cases h
    · rename_i hc
      cases h
      exact .resume hc
    · cases h
  · intro h
    cases h with
    | found hc hl =>
      cases hc
      rw [hl]
      rfl
    | checked hc hl =>
      cases hc
      rw [hl]
      rfl
    | sleep hc =>
      cases hc
      rfl
    | expire hc ht =>
      cases hc
      cases ht
      rfl
    | resume hc =>
      cases hc
      rfl

theorem step_act {k : Nat} {a : Action} {t : SampleSubscriber F} :
    step py s (.act k a) = some t ↔ ∃ c stage, s.calls[k]? = some c ∧
      Moves s.latestSample c a stage ∧
        t = { s with calls := s.calls.modify k fun c => { c with stage := stage } } := by
  rw [step, Option.map_eq_some_iff]
  constructor
  · rintro ⟨stage, h, rfl⟩
    obtain ⟨c, hc, h⟩ := Option.bind_eq_some_iff.mp h
    exact ⟨c, stage, hc, nextStage_eq_some.mp h, rfl⟩
  · rintro ⟨c, stage, hc, h, rfl⟩
    exact ⟨stage, Option.bind_eq_some_iff.mpr ⟨c, hc, nextStage_eq_some.mpr h⟩, rfl⟩

variable (py) in
theorem step_act_self {k : Nat} {a : Action} {c : WaitCall F} {stage : WaitStage F}
    (hc : s.calls[k]? = some c) (h : Moves s.latestSample c a stage) :
    ∃ t c', step py s (.act k a) = some t ∧ t.calls[k]? = some c' ∧ c'.stage = stage := by
  refine ⟨_, { c with stage := stage }, step_act.mpr ⟨c, stage, hc, h, rfl⟩, ?_, rfl⟩
  exact getElem?_modify_eq_some.mpr ⟨c, hc, if_pos rfl⟩

theorem noLostWakeup_iff : NoLostWakeup py s ↔ s.Clear := by
  constructor
  · intro h sample hs c hc
    refine ⟨h.awake sample hs c hc, fun hchecked => ?_⟩
    obtain ⟨k, hk⟩ := List.mem_iff_getElem?.mp hc
    have hn := h.sleeps k _ (step_act.mpr ⟨c, _, hk, .sleep hchecked, rfl⟩)
    rw [hs] at hn
    cases hn
  · intro h
    refine ⟨fun sample hs c hc => (h sample hs c hc).1, ?_, ?_⟩
    · intro k t ht
      obtain ⟨c, stage, hk, hm, _⟩ := step_act.mp ht
      cases hm with
      | sleep hc =>
        cases hl : s.latestSample with
        | none => rfl
        | some sample => exact absurd hc (h sample hl c (List.mem_of_getElem? hk)).2
    · intro sample hs k c hk
      obtain ⟨hasleep, hchecked⟩ := h sample hs c (List.mem_of_getElem? hk)
      cases hc : c.stage with
      | begun =>
        obtain ⟨t, c', ht, hc'⟩ := step_act_self py hk (.found hc hs)
        exact .inr ⟨.check, t, c', ht, hc'⟩
      | checked => exact absurd hc hchecked
      | asleep => exact absurd hc hasleep
      | woken =>
        obtain ⟨t, c', ht, hk', hc'⟩ := step_act_self py hk (.resume hc)
        exact .inr ⟨.resume, t, c', ht, hk', hs ▸ hc'⟩
      | returned r => exact .inl ⟨r, rfl⟩

/-! ## Runs -/

omit [Primitives F] in
theorem notified_ne {c : WaitCall F} :
    (notified c).stage ≠ .asleep ∧ ((notified c).stage = .checked ↔ c.stage = .checked) := by
  obtain ⟨timed, stage⟩ := c
  cases stage <;> simp [notified]

theorem clear_onMessage {data : String} (h : s.Clear) :
    (s.onMessage py data).Clear ↔ Timely py s (.message data) := by
  simp only [onMessage, Timely]
  cases s.sampleOf py data with
  | none => exact iff_of_true h (by simp)
  | some sample =>
    constructor
    · intro ht _ _ c hc
      exact mt notified_ne.2.mpr (ht sample rfl _ (List.mem_map_of_mem hc)).2
    · intro hm _ _ c hc
      obtain ⟨b, hb, rfl⟩ := List.mem_map.mp hc
      exact ⟨notified_ne.1, mt notified_ne.2.mp (hm sample rfl b hb)⟩

theorem clear_step {e : Event} {t : SampleSubscriber F} (h : s.Clear) (hst : step py s e = some t) :
    t.Clear ↔ Timely py s e := by
  cases e with
  | message data =>
    rw [step] at hst
    split at hst
    · cases hst
      exact clear_onMessage h
    · cases hst
  | waitForSample timed =>
    cases hst
    refine iff_of_true ?_ trivial
    intro sample hs c hc
    rcases List.mem_append.mp hc with hc | hc
    · exact h sample hs c hc
    · rw [List.mem_singleton.mp hc]
      exact ⟨nofun, nofun⟩
  | act k a =>
    obtain ⟨c, stage, hk, hm, rfl⟩ := step_act.mp hst
    refine iff_of_true ?_ trivial
    intro sample hs c' hc'
    -- with a sample there, the actions lead to neither stage
    have hstage : stage ≠ .asleep ∧ stage ≠ .checked := by
      have hc := h sample hs c (List.mem_of_getElem? hk)
      cases hm with
      | found _ _ => exact ⟨nofun, nofun⟩
      | checked _ hl =>
        rw [hl] at hs
        cases hs
      | sleep hcs => exact absurd hcs hc.2
      | expire _ _ => exact ⟨nofun, nofun⟩
      | resume _ => exact ⟨nofun, nofun⟩
    obtain ⟨j, hj⟩ := List.mem_iff_getElem?.mp hc'
    obtain ⟨b, hb, rfl⟩ := getElem?_modify_eq_some.mp hj
    split
    · exact hstage
    · exact h sample hs b (List.mem_of_getElem? hb)

omit [Primitives F] in
theorem clear_start (metric_id : String) : (start metric_id : SampleSubscriber F).Clear := by
  intro sample hs
  cases hs

/-- No call sleeps on a sample, in any state of a run, if and only if every sample of the run is
stored while no call is between its check and its wait. -/
theorem no_lost_wakeup_run_iff {metric_id : String} {es : List Event} {s : SampleSubscriber F}
    (h : Steps py (start metric_id) es s) :
    (∀ es' (u : SampleSubscriber F), es' <+: es → Steps py (start metric_id) es' u →
        NoLostWakeup py u) ↔
      Trace.Run (Trace.Given (Timely py) (Trace.ofFn (step py))) (start metric_id) es s := by
  have hclear : ∀ u : SampleSubscriber F, NoLostWakeup py u ↔ u.Clear := fun u => noLostWakeup_iff
  simp only [hclear]
  exact Trace.run_given_iff (I := fun _ => True) (fun _ _ _ _ _ => trivial)
    (fun _ _ _ _ hp hst => clear_step hp hst) h trivial (clear_start metric_id)

end SampleSubscriber

end WaitForSample

namespace SampleSubscriber

def published : String := @Sample.modelDumpJson Bool twoFloats (flagSample true)

theorem step_message [Primitives F] {py : Pydantic} {s : SampleSubscriber F} {data : String}
    {sample : Sample F} (hl : s.listening = true)
    (hread : Sample.modelValidateJson py data = .ok sample)
    (hid : sample.metadata.metric_id = s.metricId) : step py s (.message data) =
      some { s with latestSample := some sample, calls := s.calls.map notified } := by
  have hsample : s.sampleOf py data = some sample := by
    rw [sampleOf, hread]
    exact if_pos hid
  simp only [step, if_pos hl, onMessage, hsample]

theorem published_step {s : SampleSubscriber Bool} (hm : s.metricId = "temp")
    (hl : s.listening = true) : @step Bool twoFloats Pydantic.strict s (.message published) =
      some { s with latestSample := some (flagSample true), calls := s.calls.map notified } := by
  have hread : @Sample.modelValidateJson Bool twoFloats Pydantic.strict published =
      .ok (flagSample true) :=
    (@Sample.modelValidateJson_dump_iff Bool twoFloats twoFloats_roundTrip Pydantic.strict _).mpr
      (flagSample_readable true)
  exact @step_message Bool twoFloats Pydantic.strict s published _ hl hread hm.symm

def sleeper : List Event :=
  [.waitForSample false, .act 0 .check, .act 0 .sleep, .message published, .act 0 .resume]

theorem sleeper_run : ∃ s, Trace.Run (Trace.Given (@Timely Bool twoFloats Pydantic.strict)
    (Trace.ofFn (@step Bool twoFloats Pydantic.strict))) (start "temp") sleeper s := by
  refine ⟨_, .cons ⟨trivial, rfl⟩ (.cons ⟨trivial, rfl⟩ (.cons ⟨trivial, rfl⟩
    (.cons ⟨?_, published_step rfl rfl⟩ (.single ⟨trivial, rfl⟩))))⟩
  intro sample _ c hc
  rw [List.mem_singleton.mp hc]
  exact nofun

theorem sleeper_woken : ∃ s : SampleSubscriber Bool,
    @Steps Bool twoFloats Pydantic.strict (start "temp") sleeper s ∧
      ∀ es (u : SampleSubscriber Bool), es <+: sleeper →
        @Steps Bool twoFloats Pydantic.strict (start "temp") es u →
          @NoLostWakeup Bool twoFloats Pydantic.strict u := by
  obtain ⟨s, h⟩ := sleeper_run
  have hrun : @Steps Bool twoFloats Pydantic.strict (start "temp") sleeper s :=
    h.mono fun _ _ _ hg => hg.2
  exact ⟨s, hrun, (@no_lost_wakeup_run_iff Bool twoFloats Pydantic.strict _ _ s hrun).mpr h⟩

/-- A call has looked for a sample when one arrives, and goes to sleep. -/
theorem sample_slept_on : ¬ ∀ (metric_id : String) (es : List Event) (s : SampleSubscriber Bool),
    @Steps Bool twoFloats Pydantic.strict (start metric_id) es s →
      @NoLostWakeup Bool twoFloats Pydantic.strict s := by
  intro h
  have hn := h "temp" [.waitForSample false, .act 0 .check, .message published] _
    (.cons rfl (.cons rfl (.single (published_step rfl rfl))))
  have hclear := (@noLostWakeup_iff Bool twoFloats _ _).mp hn (flagSample true) rfl
    ⟨false, .checked⟩ (List.mem_cons_self ..)
  exact hclear.2 rfl

end SampleSubscriber

end RedisClient
end BvexLink
