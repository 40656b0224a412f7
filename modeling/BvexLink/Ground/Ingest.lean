import BvexLink.Ground.Realtime
import BvexLink.Tasks.Group
import BvexLink.Trace.Progress

/-!
# BvexLink.Ground.Ingest

A sample on the ground: `subscribe` hands it to `TelemetryServer.add_sample`, which notifies the
websockets, records the sample in the history, and stores the file of a `FileSample`, all as
tasks of a group. Any schedule of the tasks, and any sinks that fail.

* `plan_step`: the tasks are those of the start, whatever becomes of them.
* `exists_complete`, `length_le`: every schedule ends.
* `isolated_iff`: when the sample gets everywhere and the subscription goes on.
-/

namespace BvexLink
namespace Ground

open Codec Tasks

/-- What a sample is handed to. -/
inductive Sink (F : Type) where
  | sendText (w : Websocket) (text : String)
  | zadd (key : String) (member : String) (score : F ⊕ Int)
  | storeFileSample (sample : Sample F)

def historyKey (metric_id : String) : String := "telemetry_history:" ++ metric_id

/-- A child of `add_sample`'s group: the group of `notify_all_subscribers`, or a task without
children. -/
abbrev Child (F : Type) := TaskGroup (Leaf (Sink F)) ⊕ Leaf (Sink F)

abbrev ChildEvent := GroupEvent LeafEvent ⊕ LeafEvent

def childKind (F : Type) : Kind (Child F) ChildEvent :=
  sumKind (TaskGroup.kind (Leaf.kind (Sink F))) (Leaf.kind (Sink F))

def childLawful (F : Type) : Lawful (childKind F) :=
  sumLawful (TaskGroup.lawful (Leaf.lawful (Sink F))) (Leaf.lawful (Sink F))

/-- Where `subscribe` stands: awaiting `handle_sample`, back in its loop, or ended by an
exception. -/
inductive Subscription where
  | handling
  | reading
  | ended
  deriving DecidableEq

structure Ingest (F : Type) where
  tasks : TaskGroup (Child F)
  subscription : Subscription

inductive IngestEvent where
  | task (e : GroupEvent ChildEvent)
  | resume

namespace Ingest

variable {F : Type}

def step (s : Ingest F) : IngestEvent → Option (Ingest F)
  | .task e =>
    if s.subscription = .handling then
      (s.tasks.step (childKind F) e).map fun tasks => { s with tasks := tasks }
    else none
  | .resume =>
    if s.subscription = .handling then
      s.tasks.outcome.map fun
        | .returned => { s with subscription := .reading }
        -- `except Exception as e: print(...); raise e`
        | _ => { s with subscription := .ended }
    else none

abbrev Steps : Ingest F → List IngestEvent → Ingest F → Prop := Trace.Run (Trace.ofFn step)

def Complete (s : Ingest F) : Prop := s.subscription ≠ .handling
section Start

variable [Primitives F] (m : RealtimeTelemetryConnectionManager) (sample : Sample F)
  (isFileSample : Bool)

def historySink : Sink F :=
  .zadd (historyKey sample.metadata.metric_id) sample.modelDumpJson sample.metadata.timestamp

def sendSinks : List (Sink F) := (m.notifyAllSubscribers sample).map fun x => .sendText x.1 x.2

def notify (fails : Sink F → Bool) : TaskGroup (Leaf (Sink F)) :=
  .new ((sendSinks m sample).map fun x => .new x (fails x))

/-- The sinks beside the websockets. -/
def otherSinks : List (Sink F) :=
  historySink sample :: if isFileSample then [.storeFileSample sample] else []

/-- `add_sample`, called from `subscribe`. -/
def start (fails : Sink F → Bool) : Ingest F where
  tasks := .new (.inl (notify m sample fails) ::
    (otherSinks sample isFileSample).map fun x => .inr (.new x (fails x)))
  subscription := .handling

def sinks : List (Sink F) := sendSinks m sample ++ otherSinks sample isFileSample

end Start

/-! ## The tasks -/

def Child.leaves : Child F → List (Leaf (Sink F)) := Sum.elim TaskGroup.children fun l => [l]

def leaves (s : Ingest F) : List (Leaf (Sink F)) := s.tasks.children.flatMap Child.leaves

/-- What has been done with the sample. -/
def Performed (s : Ingest F) (x : Sink F) : Prop := ∃ l ∈ s.leaves, l.job = x ∧ l.Done

/-- A task and whether it fails. -/
def planOf (l : Leaf (Sink F)) : Sink F × Bool := (l.job, l.fails)

def plan (s : Ingest F) : List (Sink F × Bool) := s.leaves.map planOf

theorem planOf_step {l l' : Leaf (Sink F)} {e : LeafEvent}
    (h : (Leaf.kind (Sink F)).step l e = some l') : planOf l' = planOf l := by
  obtain ⟨_, _, rfl⟩ | ⟨_, rfl⟩ | ⟨_, _, rfl⟩ := Leaf.step_cases h <;> rfl

theorem child_plan_step {c c' : Child F} {e : ChildEvent} (h : (childKind F).step c e = some c') :
    (Child.leaves c').map planOf = (Child.leaves c).map planOf := by
  obtain ⟨g, e, g', rfl, hs, rfl⟩ | ⟨l, e, l', rfl, hs, rfl⟩ := sumKind_step_cases h
  · exact TaskGroup.map_children_step planOf_step (fun _ => rfl) hs
  · exact congrArg (fun x => [x]) (planOf_step hs)

theorem child_plan_cancel (c : Child F) :
    (Child.leaves ((childKind F).cancel c)).map planOf = (Child.leaves c).map planOf := by
  cases c with
  | inl g => exact TaskGroup.map_children_cancel (fun _ => rfl) g
  | inr l => rfl

theorem plan_eq (s : Ingest F) :
    s.plan = (s.tasks.children.map fun c => (Child.leaves c).map planOf).flatten := by
  simp [plan, leaves, List.flatMap, List.map_flatten, Function.comp_def]

theorem step_cases {s t : Ingest F} {e : IngestEvent} (h : s.step e = some t) :
    s.subscription = .handling ∧
    ((∃ e tasks, s.tasks.step (childKind F) e = some tasks ∧ t = { s with tasks := tasks }) ∨
    (∃ r, s.tasks.outcome = some r ∧ t.tasks = s.tasks ∧ t.subscription ≠ .handling ∧
      (t.subscription = .reading ↔ r = .returned))) := by
  cases e with
  | task e =>
    rw [step] at h
    split at h
    · rename_i hh
      obtain ⟨tasks, ht, rfl⟩ := Option.map_eq_some_iff.mp h
      exact ⟨hh, .inl ⟨e, tasks, ht, rfl⟩⟩
    · cases h
  | resume =>
    rw [step] at h
    split at h
    · rename_i hh
      obtain ⟨r, hr, rfl⟩ := Option.map_eq_some_iff.mp h
      refine ⟨hh, .inr ⟨r, hr, ?_⟩⟩
      cases r <;> simp
    · cases h

theorem plan_step {s t : Ingest F} {e : IngestEvent} (h : s.step e = some t) : t.plan = s.plan := by
  obtain ⟨_, ⟨e, tasks, hs, rfl⟩ | ⟨_, _, htasks, _⟩⟩ := step_cases h
  · rw [plan_eq, plan_eq]
    exact congrArg List.flatten (TaskGroup.map_children_step child_plan_step child_plan_cancel hs)
  · rw [plan_eq, plan_eq, htasks]

structure Inv (s : Ingest F) : Prop where
  tasks : TaskGroup.Inv (childLawful F) s.tasks
  touched : s.tasks.touched = false
  resumed : s.Complete → ∃ r, s.tasks.outcome = some r ∧ (s.subscription = .reading ↔ r = .returned)

theorem inv_step {s t : Ingest F} {e : IngestEvent} (hi : s.Inv) (h : s.step e = some t) : t.Inv := by
  obtain ⟨hh, ⟨e, tasks, hs, rfl⟩ | ⟨r, hr, htasks, _, hiff⟩⟩ := step_cases h
  · refine ⟨TaskGroup.inv_step hi.tasks hs, ?_, fun hc => absurd hh hc⟩
    rw [← hi.touched]
    exact (TaskGroup.lawful (childLawful F)).touched_step hs
  · refine ⟨?_, ?_, fun _ => ⟨r, ?_, hiff⟩⟩
    · rw [htasks]
      exact hi.tasks
    · rw [htasks]
      exact hi.touched
    · rw [htasks]
      exact hr

section Start

variable [Primitives F] (m : RealtimeTelemetryConnectionManager) (sample : Sample F)
  (isFileSample : Bool) (fails : Sink F → Bool)

theorem inv_start : (start m sample isFileSample fails).Inv := by
  have hleaf : ∀ x, (Leaf.new x (fails x)).Inv ∧ (Leaf.new x (fails x)).touched = false :=
    fun x => ⟨⟨by simp [Leaf.Done, Leaf.new], nofun⟩, rfl⟩
  have hnotify : TaskGroup.Inv (Leaf.lawful (Sink F)) (notify m sample fails) := by
    refine TaskGroup.inv_new fun c hc => ?_
    obtain ⟨x, _, rfl⟩ := List.mem_map.mp hc
    exact hleaf x
  refine ⟨TaskGroup.inv_new ?_, rfl, fun h => absurd rfl h⟩
  intro c hc
  rcases List.mem_cons.mp hc with rfl | hc
  · exact ⟨hnotify, rfl⟩
  · obtain ⟨x, _, rfl⟩ := List.mem_map.mp hc
    exact hleaf x

theorem plan_start : (start m sample isFileSample fails).plan =
    (sinks m sample isFileSample).map fun x => (x, fails x) := by
  simp only [plan, leaves, start, TaskGroup.new, List.flatMap_cons, List.flatMap_map, sinks,
    List.map_append]
  congr 1
  · simp [Child.leaves, notify, TaskGroup.new, Function.comp_def, planOf, Leaf.new]
  · rw [show (fun x => Child.leaves (.inr (Leaf.new x (fails x)))) =
      fun x => [Leaf.new x (fails x)] from rfl, ← List.map_eq_flatMap, List.map_map]
    rfl

end Start

/-! ## Every schedule ends -/

section Runs

variable {s t : Ingest F} {es : List IngestEvent}

theorem inv_steps (h : Steps s es t) (hi : s.Inv) : t.Inv :=
  h.invariant hi fun _ _ _ hi hs => inv_step hi hs

theorem plan_steps (h : Steps s es t) : t.plan = s.plan :=
  h.invariant (I := fun t => t.plan = s.plan) rfl fun _ _ _ hp hs => (plan_step hs).trans hp

theorem progress (hi : s.Inv) (hc : ¬ s.Complete) : ∃ e t, s.step e = some t := by
  have hh : s.subscription = .handling := not_not.mp hc
  cases ho : s.tasks.outcome with
  | none =>
    obtain ⟨e, tasks, hs⟩ := TaskGroup.progress hi.tasks ho
    refine ⟨.task e, { s with tasks := tasks }, ?_⟩
    rw [step, if_pos hh, hs]
    rfl
  | some r =>
    refine ⟨.resume, { s with subscription := if r = .returned then .reading else .ended }, ?_⟩
    rw [step, if_pos hh, ho]
    cases r <;> rfl

def size (s : Ingest F) : Nat :=
  s.tasks.size (childLawful F) + if s.subscription = .handling then 1 else 0

theorem size_step {e : IngestEvent} (h : s.step e = some t) : t.size < s.size := by
  obtain ⟨hh, ⟨e, tasks, hs, rfl⟩ | ⟨r, _, htasks, hsub, _⟩⟩ := step_cases h
  · have hlt := TaskGroup.size_step (L := childLawful F) hs
    simp only [size]
    omega
  · rw [size, size, htasks, if_neg hsub, if_pos hh]
    omega

theorem exists_complete (hi : s.Inv) : ∃ es t, Steps s es t ∧ t.Complete :=
  Trace.exists_done (I := Inv) (fun _ _ _ hi hs => inv_step hi hs) (fun _ _ _ _ hs => size_step hs)
    (fun _ hi hc => progress hi hc) hi

theorem length_le (h : Steps s es t) : es.length + t.size ≤ s.size :=
  h.length_le (I := fun _ => True) (fun _ _ _ _ _ => trivial) (fun _ _ _ _ hs => size_step hs)
    trivial

end Runs

/-! ## How it ends -/

theorem done_of_returned {s : Ingest F} (hi : s.Inv)
    (h : ∀ c ∈ s.tasks.children, (childKind F).outcome c = some .returned) :
    ∀ l ∈ s.leaves, l.Done ∧ l.Inv := by
  intro l hl
  obtain ⟨c, hc, hl⟩ := List.mem_flatMap.mp hl
  have hret := h c hc
  have hci := hi.tasks.children c hc
  cases c with
  | inl g =>
    have hgi : TaskGroup.Inv (Leaf.lawful (Sink F)) g := hci
    have hgr : g.outcome = some .returned := hret
    have hall := (TaskGroup.returned_iff hgi (TaskGroup.touched_of_returned hgi hgr) hgr).1.mp rfl
    exact ⟨Leaf.done_of_returned (hall l hl), hgi.children l hl⟩
  | inr l' =>
    cases List.mem_singleton.mp hl
    exact ⟨Leaf.done_of_returned hret, hci⟩

theorem fails_of_failed {s : Ingest F} (hi : s.Inv) (h : s.tasks.Failed (childKind F)) :
    ∃ l ∈ s.leaves, l.fails = true := by
  obtain ⟨c, hc, hr⟩ := h
  have hci := hi.tasks.children c hc
  cases c with
  | inl g =>
    have hgi : TaskGroup.Inv (Leaf.lawful (Sink F)) g := hci
    obtain ⟨l, hl, hlr⟩ := TaskGroup.failed_of_raised hgi hr
    exact ⟨l, List.mem_flatMap.mpr ⟨_, hc, hl⟩, Leaf.fails_of_raised (hgi.children l hl) hlr⟩
  | inr l =>
    exact ⟨l, List.mem_flatMap.mpr ⟨_, hc, List.mem_singleton_self l⟩, Leaf.fails_of_raised hci hr⟩

section Isolation

variable [Primitives F] {m : RealtimeTelemetryConnectionManager} {sample : Sample F}
  {isFileSample : Bool} {fails : Sink F → Bool} {s : Ingest F} {es : List IngestEvent}

/-- The history has the sample, every subscribed websocket that can be sent to has it, and the
subscription goes on. -/
def Isolated (m : RealtimeTelemetryConnectionManager) (sample : Sample F) (fails : Sink F → Bool)
    (s : Ingest F) : Prop :=
  s.Performed (historySink sample) ∧
    (∀ x ∈ sendSinks m sample, fails x = false → s.Performed x) ∧ s.subscription = .reading

theorem mem_leaves_iff (h : Steps (start m sample isFileSample fails) es s) (x : Sink F) (b : Bool) :
    (∃ l ∈ s.leaves, l.job = x ∧ l.fails = b) ↔ x ∈ sinks m sample isFileSample ∧ fails x = b := by
  have hp : (x, b) ∈ s.plan ↔ (x, b) ∈ (start m sample isFileSample fails).plan := by
    rw [plan_steps h]
  rw [plan_start] at hp
  simpa [plan, planOf] using hp

theorem isolated_complete_iff (h : Steps (start m sample isFileSample fails) es s)
    (hc : s.Complete) :
    Isolated m sample fails s ↔ ∀ x ∈ sinks m sample isFileSample, fails x = false := by
  have hi := inv_steps h (inv_start m sample isFileSample fails)
  obtain ⟨r, hr, hread⟩ := hi.resumed hc
  obtain ⟨hret, hraise⟩ := TaskGroup.returned_iff hi.tasks hi.touched hr
  constructor
  · rintro ⟨_, _, hs⟩ x hx
    have hdone := done_of_returned hi (hret.mp (hread.mp hs))
    obtain ⟨l, hl, rfl, hf⟩ := (mem_leaves_iff h x (fails x)).mpr ⟨hx, rfl⟩
    rw [← hf]
    exact (hdone l hl).2.done (hdone l hl).1
  · intro hall
    have hr' : r = .returned := by
      by_contra hne
      obtain ⟨l, hl, hf⟩ := fails_of_failed hi (hraise hne).2
      obtain ⟨hx, hfx⟩ := (mem_leaves_iff h l.job true).mp ⟨l, hl, rfl, hf⟩
      rw [hall _ hx] at hfx
      cases hfx
    have hdone := done_of_returned hi (hret.mp hr')
    have hperf : ∀ x ∈ sinks m sample isFileSample, s.Performed x := by
      intro x hx
      obtain ⟨l, hl, hj, _⟩ := (mem_leaves_iff h x (fails x)).mpr ⟨hx, rfl⟩
      exact ⟨l, hl, hj, (hdone l hl).1⟩
    refine ⟨hperf _ ?_, fun x hx _ => hperf x (List.mem_append_left _ hx), hread.mpr hr'⟩
    exact List.mem_append_right _ (List.mem_cons_self ..)

/-- Every schedule ends, and it ends with the sample in the history and at every subscribed
websocket that can be sent to, and with the subscription running, exactly if no sink fails. -/
theorem isolated_iff (m : RealtimeTelemetryConnectionManager) (sample : Sample F)
    (isFileSample : Bool) (fails : Sink F → Bool) :
    (∃ n, ∀ es s, Steps (start m sample isFileSample fails) es s →
      es.length ≤ n ∧ ∃ es' t, Steps s es' t ∧ t.Complete) ∧
    ∀ es s, Steps (start m sample isFileSample fails) es s → s.Complete →
      (Isolated m sample fails s ↔ ∀ x ∈ sinks m sample isFileSample, fails x = false) :=
  ⟨⟨_, fun _ _ h => ⟨(Nat.le_add_right _ _).trans (length_le h), exists_complete (inv_steps h (inv_start _ _ _ _))⟩⟩,
    fun _ _ h hc => isolated_complete_iff h hc⟩

end Isolation

/-! ## An instance -/

def twoWebsockets : RealtimeTelemetryConnectionManager :=
  ⟨⟨[⟨0, {"temp"}⟩, ⟨1, {"temp"}⟩], by simp [List.NodupKeys, List.keys]⟩, ∅⟩

def firstDead : Sink Bool → Bool
  | .sendText w _ => w == 0
  | _ => false

/-- The send that fails comes first. -/
def schedule : List IngestEvent :=
  [.task .begin, .task (.child 0 (.inl .begin)), .task (.child 0 (.inl (.child 0 .raise))),
    .task (.child 0 (.inl .abort)), .task (.child 0 (.inl .join)), .task .abort, .task .join, .resume]

/-- What is left after that schedule. -/
def afterSchedule {F : Type} (x y z : Sink F) : Ingest F :=
  ⟨⟨true, [.inl ⟨true, [⟨x, true, .raised⟩, ⟨y, false, .cancelled false⟩], true, false,
    some .raised⟩, .inr ⟨z, false, .cancelled false⟩], true, false, some .raised⟩, .ended⟩

theorem schedule_run {F : Type} (x y z : Sink F) :
    Steps ⟨.new [.inl (.new [.new x true, .new y false]), .inr (.new z false)], .handling⟩ schedule
      (afterSchedule x y z) :=
  Trace.run_of_exec rfl

/-- The other websocket and the history do not get the sample, and the subscription ends. -/
theorem dead_websocket : ∃ s,
    Steps (@start Bool twoFloats twoWebsockets (flagSample true) false firstDead) schedule s ∧
      s.Complete ∧ (∀ x, ¬ s.Performed x) ∧ s.subscription = .ended ∧
        ¬ @Isolated Bool twoFloats twoWebsockets (flagSample true) firstDead s := by
  refine ⟨afterSchedule (.sendText 0 (@Sample.modelDumpJson Bool twoFloats (flagSample true)))
    (.sendText 1 (@Sample.modelDumpJson Bool twoFloats (flagSample true)))
    (@historySink Bool twoFloats (flagSample true)), ?_, ?_, ?_, rfl, ?_⟩
  · exact schedule_run _ _ _
  · nofun
  · rintro x ⟨l, hl, _, hd⟩
    simp only [afterSchedule, leaves, Child.leaves, List.flatMap_cons, List.flatMap_nil, Sum.elim_inl, Sum.elim_inr,
      List.cons_append, List.nil_append, List.append_nil, List.mem_cons, List.not_mem_nil,
      or_false] at hl
    rcases hl with rfl | rfl | rfl <;> simp [Leaf.Done] at hd
  · rintro ⟨_, _, hs⟩
    cases hs

end Ingest

end Ground
end BvexLink
