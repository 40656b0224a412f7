import BvexLink.Onboard.DownlinkLoop
import BvexLink.Codec.Equality
import BvexLink.Lists.Changes

/-!
# BvexLink.Onboard.Polls

`downlink_loop` by what its polls find in the cache: nothing, or a sample that `set_sample` has
written.

* `step_cases`: what each event finds and leaves.
* `sent_step`: what the loop has sent are the changes of what it has seen.
* `running_step`: what each poll and each drain needs for the loop not to raise.
* `sends_changes_iff`: both over a run.
-/

namespace BvexLink
namespace Onboard

open Wire Codec Ground ListChanges

section Polls

variable {F : Type} [Primitives F]

/-- What `set_sample` leaves in the cache. -/
def cacheText (sample : Sample F) : Bytes := Utf8.encode sample.modelDumpJson

inductive Poll (F : Type) where
  | advance (d : ℚ)
  | poll (state : Option (Sample F))
  | drained
  | wake

def Poll.toEvent : Poll F → LoopEvent
  | .advance d => .advance d
  | .poll state => .got (state.map cacheText)
  | .drained => .drained
  | .wake => .wake

def Poll.states : Poll F → List (Option (Sample F))
  | .poll state => [state]
  | .advance _ => []
  | .drained => []
  | .wake => []

/-- The loop, and the cache states its polls have seen. -/
structure Polled (F : Type) where
  loop : DownlinkLoop F
  seen : List (Option (Sample F))

namespace Polled

def start (now : ℚ) (sockBufSize : Nat) : Polled F := ⟨.start now sockBufSize, []⟩

def samples (s : Polled F) : List (Sample F) := s.seen.filterMap id

def Running (s : Polled F) : Prop := ∀ x, s.loop.pc ≠ .ended x

variable (v : FloatValues F)

def step (py : Pydantic) (bps : Int) (s : Polled F) (e : Poll F) : Option (Polled F) :=
  (s.loop.step py (Sample.pyEq v) bps e.toEvent).map fun loop => ⟨loop, s.seen ++ e.states⟩

abbrev Steps (py : Pydantic) (bps : Int) : Polled F → List (Poll F) → Polled F → Prop :=
  Trace.Run (Trace.ofFn (step v py bps))

/-- What has been written are the changes of what has been seen. -/
def SendsChanges (s : Polled F) : Prop :=
  s.loop.sends.map Send.data =
    (changes (Sample.pyEq v) s.samples).map fun x => encodeMessage (.sample x)

/-- The invariant of a loop that runs. -/
structure Sent (s : Polled F) : Prop where
  readable : ∀ x ∈ s.samples, x.Readable
  last : s.loop.lastSample = (changes (Sample.pyEq v) s.samples).getLast?
  sends : SendsChanges v s

/-- A poll finds a sample that can be read, and no pause is asked for at 0 bits per second. -/
def Fine (bps : Int) : Poll F → Prop
  | .poll state => ∃ x, state = some x ∧ x.Readable
  | .drained => bps ≠ 0
  | _ => True

variable {v}

theorem sent_start (now : ℚ) (sockBufSize : Nat) : Sent v (start now sockBufSize) :=
  ⟨by simp [start, samples], rfl, rfl⟩

theorem sent_onSample {py : Pydantic} {s : Polled F} (h : Sent v s) {x : Sample F}
    (hx : x.Readable) : Sent v ⟨s.loop.onSample py (Sample.pyEq v) x, s.seen ++ [some x]⟩ := by
  have hsamples : samples (⟨s.loop.onSample py (Sample.pyEq v) x, s.seen ++ [some x]⟩ : Polled F) =
      s.samples ++ [x] := by
    simp [samples]
  have hchanges : changes (Sample.pyEq v) (s.samples ++ [x]) =
      changes (Sample.pyEq v) s.samples ++
        if s.loop.lastSample.any (x.pyEq v) then [] else [x] := by
    rw [h.last]
    have hrefl : ∀ y ∈ s.samples, y.pyEq v y = true := fun y hy => Sample.pyEq_self (h.readable y hy).finite
    exact changes_concat_last (r := Sample.pyEq v) (fun _ _ => Sample.pyEq_symm)
      (fun _ _ _ => Sample.pyEq_trans) hrefl x
  refine ⟨?_, ?_, ?_⟩
  · rw [hsamples]
    intro y hy
    rcases List.mem_append.mp hy with hy | hy
    · exact h.readable y hy
    · rw [List.mem_singleton.mp hy]
      exact hx
  · rw [hsamples, hchanges, DownlinkLoop.onSample_eq]
    split
    · rw [List.append_nil]
      exact h.last
    · rw [List.getLast?_concat]
  · rw [SendsChanges, hsamples, hchanges, DownlinkLoop.onSample_eq]
    split
    · rw [List.append_nil]
      exact h.sends
    · have hsends := h.sends
      rw [SendsChanges] at hsends
      simp only [List.map_append, List.map_cons, List.map_nil, hsends]

inductive StepCase (v : FloatValues F) (py : Pydantic) (bps : Int) (s : Polled F) :
    Poll F → Polled F → Prop where
  | advance {d : ℚ} : StepCase v py bps s (.advance d)
      ⟨{ s.loop with now := s.loop.now + d }, s.seen⟩
  | found {x : Sample F} : s.Running → x.Readable → StepCase v py bps s (.poll (some x))
      ⟨s.loop.onSample py (Sample.pyEq v) x, s.seen ++ [some x]⟩
  | pauses {size : Nat} {until_ : ℚ} : s.Running → bps ≠ 0 → StepCase v py bps s .drained
      ⟨{ s.loop with sockBufSize := size, pc := .sleeping until_ }, s.seen⟩
  | wakes : s.Running → StepCase v py bps s .wake ⟨{ s.loop with pc := .getting }, s.seen⟩
  | ends {e : Poll F} {t : Polled F} : s.Running → ¬ Fine bps e → ¬ t.Running →
      StepCase v py bps s e t

theorem step_cases (hF : FloatsRoundTrip F) {py : Pydantic} {bps : Int} {s t : Polled F}
    {e : Poll F} (h : s.step v py bps e = some t) : StepCase v py bps s e t := by
  obtain ⟨loop, hst, rfl⟩ := Option.map_eq_some_iff.mp h
  have hrunning {pc : LoopPc} (hpc : s.loop.pc = pc) (hne : ∀ x, pc ≠ .ended x) : s.Running := by
    intro x hx
    exact hne x (hpc.symm.trans hx)
  cases e with
  | advance d =>
    rw [Poll.states, List.append_nil]
    cases DownlinkLoop.step_cases hst with
    | advance _ => exact .advance
  | poll state =>
    cases DownlinkLoop.step_cases hst with
    | got hpc hget =>
      cases state with
      | none => cases hget
      | some x =>
        obtain ⟨rfl, hx⟩ := (getSampleAsync_encode hF).mp hget
        exact .found (hrunning hpc (by simp)) hx
    | invalid hpc hget =>
      refine .ends (hrunning hpc (by simp)) ?_ fun hr => hr _ rfl
      rintro ⟨x, rfl, hx⟩
      have hok : getSampleAsync py (some (cacheText x)) = .ok x :=
        (getSampleAsync_encode hF).mpr ⟨rfl, hx⟩
      rw [Option.map_some, hok] at hget
      cases hget
  | drained =>
    rw [Poll.states, List.append_nil]
    cases DownlinkLoop.step_cases hst with
    | @drained n hpc =>
      have hr := hrunning hpc (by simp)
      by_cases hb : bps = 0
      · refine .ends hr (not_not_intro hb) fun ht => ht .zeroDivisionError ?_
        simp [DownlinkLoop.onDrained, pause, hb]
      · obtain ⟨size, heq⟩ := DownlinkLoop.onDrained_eq hb s.loop n
        rw [heq]
        exact .pauses hr hb
  | wake =>
    rw [Poll.states, List.append_nil]
    cases DownlinkLoop.step_cases hst with
    | wake hpc _ => exact .wakes (hrunning hpc (by simp))

theorem onSample_running (py : Pydantic) (s : Polled F) (x : Sample F) :
    Running (⟨s.loop.onSample py (Sample.pyEq v) x, s.seen ++ [some x]⟩ : Polled F) := by
  intro y hy
  rw [DownlinkLoop.onSample_eq] at hy
  split at hy <;> cases hy

/-- One step: the loop keeps running exactly if the step is fine. -/
theorem running_step (hF : FloatsRoundTrip F) {py : Pydantic} {bps : Int} {s t : Polled F}
    {e : Poll F} (hr : s.Running) (h : s.step v py bps e = some t) : t.Running ↔ Fine bps e := by
  cases step_cases hF h with
  | advance => exact iff_of_true hr trivial
  | found _ hx => exact iff_of_true (onSample_running py s _) ⟨_, rfl, hx⟩
  | pauses _ hb => exact iff_of_true (fun x hx => by cases hx) hb
  | wakes _ => exact iff_of_true (fun x hx => by cases hx) trivial
  | ends _ hn ht => exact iff_of_false ht hn

theorem sent_congr {s t : Polled F} (h : Sent v s) (hseen : t.seen = s.seen)
    (hlast : t.loop.lastSample = s.loop.lastSample) (hsends : t.loop.sends = s.loop.sends) :
    Sent v t := by
  have hsamples : t.samples = s.samples := by rw [samples, samples, hseen]
  refine ⟨?_, ?_, ?_⟩
  · rw [hsamples]
    exact h.readable
  · rw [hsamples, hlast]
    exact h.last
  · rw [SendsChanges, hsamples, hsends]
    exact h.sends

theorem running_of_step (hF : FloatsRoundTrip F) {py : Pydantic} {bps : Int} {s t : Polled F}
    {e : Poll F} (h : s.step v py bps e = some t) (ht : t.Running) : s.Running := by
  cases step_cases hF h with
  | advance => exact ht
  | found hr _ => exact hr
  | pauses hr _ => exact hr
  | wakes hr => exact hr
  | ends hr _ _ => exact hr

/-- As long as the loop runs, it sends the changes. -/
theorem sent_step (hF : FloatsRoundTrip F) {py : Pydantic} {bps : Int} {s t : Polled F}
    {e : Poll F} (hi : s.Running → Sent v s) (h : s.step v py bps e = some t) :
    t.Running → Sent v t := by
  intro ht
  have hs := hi (running_of_step hF h ht)
  cases step_cases hF h with
  | advance => exact sent_congr hs rfl rfl rfl
  | found _ hx => exact sent_onSample hs hx
  | pauses _ _ => exact sent_congr hs rfl rfl rfl
  | wakes _ => exact sent_congr hs rfl rfl rfl
  | ends _ _ hn => exact absurd ht hn

/-- The loop never raises and sends exactly the changes of what its polls see, if and only if each
poll finds a sample that can be read, and the pause after a send is not at 0 bits per second. -/
theorem sends_changes_iff (hF : FloatsRoundTrip F) {py : Pydantic} {bps : Int} {now : ℚ}
    {sockBufSize : Nat} {es : List (Poll F)} {s : Polled F}
    (h : Steps v py bps (start now sockBufSize) es s) :
    (∀ es' u, es' <+: es → Steps v py bps (start now sockBufSize) es' u →
      u.Running ∧ SendsChanges v u) ↔
    Trace.Run (Trace.Given (fun _ e => Fine bps e) (Trace.ofFn (step v py bps)))
      (start now sockBufSize) es s := by
  refine Trace.run_given_iff (I := fun s => s.Running → Sent v s)
    (fun s e t hi hst => sent_step hF hi hst) (fun s e t hi hp hst => ?_) h
    (fun _ => sent_start now sockBufSize) ⟨by simp [Running, start, DownlinkLoop.start], rfl⟩
  rw [← running_step hF hp.1 hst]
  constructor
  · intro ht
    exact ht.1
  · intro ht
    exact ⟨ht, (sent_step hF hi hst ht).sends⟩

theorem poll_step (hF : FloatsRoundTrip F) {py : Pydantic} {bps : Int} {s : Polled F}
    (hpc : s.loop.pc = .getting) {x : Sample F} (hx : x.Readable) :
    s.step v py bps (.poll (some x)) =
      some ⟨s.loop.onSample py (Sample.pyEq v) x, s.seen ++ [some x]⟩ := by
  have hget : getSampleAsync py (some (cacheText x)) = .ok x :=
    (getSampleAsync_encode hF).mpr ⟨rfl, hx⟩
  have hst : s.loop.step py (Sample.pyEq v) bps (.got (some (cacheText x))) =
      some (s.loop.onSample py (Sample.pyEq v) x) := by
    simp only [DownlinkLoop.step, hpc, hget]
  rw [step, Poll.toEvent, Option.map_some, hst]
  rfl

end Polled

end Polls

namespace Polled

/-! ## The first poll -/

def twoValues : @FloatValues Bool twoFloats :=
  @FloatValues.mk Bool twoFloats (fun b => .finite (if b then 3 / 2 else 0))
    fun _ => ⟨fun _ => ⟨_, rfl⟩, fun _ => rfl⟩

theorem found_sample_sent : ∃ s,
    @Steps Bool twoFloats twoValues Pydantic.strict 8 (start 0 0) [.poll (some (flagSample true))]
      s ∧ s.Running ∧ @SendsChanges Bool twoFloats twoValues s := by
  have hst := @poll_step Bool twoFloats twoValues twoFloats_roundTrip Pydantic.strict 8 (start 0 0)
    rfl (flagSample true) (flagSample_readable true)
  refine ⟨_, .single hst, ?_⟩
  refine (@sends_changes_iff Bool twoFloats twoValues twoFloats_roundTrip Pydantic.strict 8 0 0 _ _
    (.single hst)).mpr ?_ _ _ List.prefix_rfl (.single hst)
  exact .single ⟨⟨_, rfl, flagSample_readable true⟩, hst⟩

/-- It finds nothing, and the loop raises. -/
theorem absent_sample_raises : ¬ ∀ (py : Pydantic) (bps : Int) (now : ℚ) (sockBufSize : Nat)
    (es : List (Poll Bool)) (s : Polled Bool),
    @Steps Bool twoFloats twoValues py bps (start now sockBufSize) es s →
      s.Running ∧ @SendsChanges Bool twoFloats twoValues s := by
  intro h
  have hst : @step Bool twoFloats twoValues Pydantic.strict 8 (start 0 0) (.poll none) =
      some ⟨{ (DownlinkLoop.start 0 0 : DownlinkLoop Bool) with
        pc := .ended (.validationError [⟨[], .wrongType⟩]) }, [none]⟩ := rfl
  exact (h _ _ _ _ _ _ (.single hst)).1 _ rfl

end Polled

end Onboard
end BvexLink
