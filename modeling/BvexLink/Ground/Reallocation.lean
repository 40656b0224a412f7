import BvexLink.Ground.SyncMetricIds
import BvexLink.Lists.Update

/-!
# BvexLink.Ground.Reallocation

`MetricSubscribeHandler` where a `subscribe` task can end with an exception of its own: its
connection is refused or lost, or `handle_sample` raises. One operation at a time, its updates in
any order.

Awaiting a task that has failed raises its exception again, in a group as the exception of one of
its children: the others that have not begun are cancelled. Those that wait go on, since they catch
the `CancelledError`.

* `step_cases`: what each step finds and leaves.
* `inv_step`, `inv_call`: the two dicts have the same keys, and each cancelled task is awaited.
-/

namespace BvexLink
namespace Ground
namespace Reallocation

open ListUpdate

/-- `cancelled` and `failed` are done, the first by `CancelledError`. -/
inductive TaskStatus where
  | running
  | cancelling
  | cancelled
  | failed
  deriving DecidableEq

/-- A task of `subscribe(remote_addr, metric_id, bps, ..)`. -/
structure SubscribeTask where
  metricId : String
  bps : Int
  status : TaskStatus
  deriving DecidableEq

namespace SubscribeTask

def cancel (t : SubscribeTask) : SubscribeTask :=
  if t.status = .running then { t with status := .cancelling } else t

def finish (status : TaskStatus) (t : SubscribeTask) : SubscribeTask := { t with status := status }

end SubscribeTask

/-- How far an `update_bps` is. -/
inductive Phase where
  | created
  | waiting (old_task : TaskId)
  | returned
  | raised
  deriving DecidableEq

inductive Result where
  | returned
  | raised
  deriving DecidableEq

/-- `updates` are the calls `update_bps(metric_id, bps)` of the operation, `group` if they are the
tasks of a group. `outcome` is `none` while it is under way. -/
structure Handler where
  bpsDistributionMode : String
  maxBps : Int
  metrics : AList fun _ : String => Int
  metricSubscriptions : AList fun _ : String => TaskId
  subscribeTasks : List SubscribeTask
  bps : Int
  updates : AList fun _ : String => Phase
  group : Bool
  aborting : Bool
  outcome : Option Result

/-- The updates and the tasks: `taskFails` is an exception other than `CancelledError`. -/
inductive Event where
  | beginUpdate (metric_id : String)
  | resumeUpdate (metric_id : String)
  | abort
  | join
  | taskEnds (k : TaskId)
  | taskFails (k : TaskId)

inductive Call where
  | addMetric (metric_id : String)
  | updateBps (metric_id : String) (bps : Int)
  | redistributeBpsFairly
  | setMaxBps (bps : Int)

namespace Handler

def init (bps_distribution_mode : String) (max_bps : Int) : Handler where
  bpsDistributionMode := bps_distribution_mode
  maxBps := max_bps
  metrics := ∅
  metricSubscriptions := ∅
  subscribeTasks := []
  bps := 0
  updates := ∅
  group := false
  aborting := false
  outcome := some .returned

variable (s : Handler)

def setPhase (metric_id : String) (p : Phase) : Handler :=
  { s with updates := s.updates.insert metric_id p }

def cancel (k : TaskId) : Handler :=
  { s with subscribeTasks := s.subscribeTasks.modify k SubscribeTask.cancel }

/-- `self.metric_subscriptions[metric_id] = asyncio.create_task(subscribe(..))`. -/
def subscribe (metric_id : String) (bps : Int) : Handler :=
  { s with
    metricSubscriptions := s.metricSubscriptions.insert metric_id s.subscribeTasks.length
    subscribeTasks := s.subscribeTasks ++ [⟨metric_id, bps, .running⟩] }

def status (k : TaskId) : Option TaskStatus := (s.subscribeTasks[k]?).map SubscribeTask.status

/-- `await old_task`, and what follows if that is done. -/
def await (metric_id : String) (old_task : TaskId) : Handler :=
  match s.status old_task with
  | some .cancelled => (s.subscribe metric_id s.bps).setPhase metric_id .returned
  | some .failed => s.setPhase metric_id .raised
  | _ => s.setPhase metric_id (.waiting old_task)

/-- `update_bps`. -/
def updateBps (metric_id : String) : Handler :=
  if metric_id ∈ s.metrics then
    let s := { s with metrics := s.metrics.insert metric_id s.bps }
    match s.metricSubscriptions.lookup metric_id with
    -- a `KeyError`
    | none => s.setPhase metric_id .raised
    | some old_task => (s.cancel old_task).await metric_id old_task
  else s.setPhase metric_id .returned

def createUpdates (metric_ids : List String) : AList fun _ : String => Phase :=
  metric_ids.foldr (fun m updates => updates.insert m .created) ∅

def start (group : Bool) (metric_ids : List String) (bps : Int) : Handler :=
  { s with
    bps := bps
    updates := createUpdates metric_ids
    group := group
    aborting := false
    outcome := none }

def redistributeBpsFairly : Handler :=
  match s.metrics.keys with
  -- a `ZeroDivisionError`
  | [] => { s with updates := ∅, outcome := some .raised }
  | metric_ids => s.start true metric_ids (s.maxBps.fdiv metric_ids.length)

/-- `add_metric` up to its test of the mode. -/
def addMetric (metric_id : String) : Handler :=
  { s with metrics := s.metrics.insert metric_id 0 }.subscribe metric_id 0

/-- A call, with no other one under way. -/
def call : Call → Option Handler
  | .addMetric metric_id =>
    if s.outcome = none then none
    else
      let s := s.addMetric metric_id
      some (if s.bpsDistributionMode = "fair" then s.redistributeBpsFairly else s)
  | .updateBps metric_id bps =>
    if s.outcome = none then none else some (s.start false [metric_id] bps)
  | .redistributeBpsFairly => if s.outcome = none then none else some s.redistributeBpsFairly
  | .setMaxBps bps =>
    if s.outcome = none then none
    else some (if bps ≠ s.maxBps then { s with maxBps := bps }.redistributeBpsFairly else s)

/-- An update has raised. -/
def Failed : Prop := ∃ m ∈ s.updates.keys, s.updates.lookup m = some .raised

/-- An update has ended, or was cancelled before it began. -/
def Ended (m : String) : Prop :=
  s.updates.lookup m = some .returned ∨ s.updates.lookup m = some .raised ∨
    s.updates.lookup m = some .created ∧ s.aborting = true

instance : Decidable s.Failed :=
  inferInstanceAs (Decidable (∃ m ∈ s.updates.keys, s.updates.lookup m = some .raised))

instance (m : String) : Decidable (s.Ended m) :=
  inferInstanceAs (Decidable (_ ∨ _ ∨ _ ∧ _))

def result : Result := if s.Failed then .raised else .returned

def step : Event → Option Handler
  | .beginUpdate m =>
    if s.outcome = none ∧ s.aborting = false ∧ s.updates.lookup m = some .created then
      some (s.updateBps m)
    else none
  | .resumeUpdate m =>
    match s.updates.lookup m with
    | some (.waiting k) =>
      if s.outcome = none ∧ (s.status k = some .cancelled ∨ s.status k = some .failed) then
        some (s.await m k)
      else none
    | _ => none
  | .abort =>
    if (s.outcome = none ∧ s.group = true) ∧ s.aborting = false ∧ s.Failed then
      some { s with aborting := true }
    else none
  | .join =>
    if s.outcome = none ∧ (∀ m ∈ s.updates.keys, s.Ended m) ∧
        (s.Failed → s.group = true → s.aborting = true) then
      some { s with outcome := some s.result }
    else none
  | .taskEnds k =>
    if s.status k = some .cancelling then
      some { s with subscribeTasks := s.subscribeTasks.modify k (.finish .cancelled) }
    else none
  | .taskFails k =>
    if s.status k = some .running ∨ s.status k = some .cancelling then
      some { s with subscribeTasks := s.subscribeTasks.modify k (.finish .failed) }
    else none

def anyStep : Event ⊕ Call → Option Handler
  | .inl e => s.step e
  | .inr c => s.call c

abbrev Steps : Handler → List Event → Handler → Prop := Trace.Run (Trace.ofFn step)

/-- After any calls, one after the other, and with tasks failing at any time. -/
def Reachable (bps_distribution_mode : String) (max_bps : Int) (s : Handler) : Prop :=
  ∃ es, Trace.Run (Trace.ofFn anyStep) (init bps_distribution_mode max_bps) es s

variable {s}

/-! ## The invariant -/

structure Inv (s : Handler) : Prop where
  keys : ∀ m, m ∈ s.metrics ↔ m ∈ s.metricSubscriptions
  stored : ∀ {m : String} {k : TaskId}, s.metricSubscriptions.lookup m = some k →
    ∃ t, s.subscribeTasks[k]? = some t ∧ t.metricId = m
  waiting : ∀ {m : String} {k : TaskId}, s.outcome = none →
    s.updates.lookup m = some (.waiting k) → s.metricSubscriptions.lookup m = some k ∧
      s.metrics.lookup m = some s.bps ∧
        ∀ t, s.subscribeTasks[k]? = some t → t.status ≠ .running
  awaited : ∀ {k : TaskId} {t : SubscribeTask}, s.subscribeTasks[k]? = some t →
    t.status = .cancelling → s.outcome = none ∧ ∃ m, s.updates.lookup m = some (.waiting k)

theorem inv_init (bps_distribution_mode : String) (max_bps : Int) :
    Inv (init bps_distribution_mode max_bps) where
  keys _ := Iff.rfl
  stored h := by cases h
  waiting h := by cases h
  awaited h := by cases h

theorem status_eq {k : TaskId} {t : SubscribeTask} (h : s.subscribeTasks[k]? = some t) :
    s.status k = some t.status := by
  rw [status, h, Option.map_some]

theorem status_eq_some {k : TaskId} {x : TaskStatus} :
    s.status k = some x ↔ ∃ t, s.subscribeTasks[k]? = some t ∧ t.status = x :=
  Option.map_eq_some_iff

theorem Inv.tasks (hi : Inv s) :
    Stored SubscribeTask.metricId s.metricSubscriptions s.subscribeTasks := fun _ _ => hi.stored

theorem Inv.lookup (hi : Inv s) {m : String} (hm : m ∈ s.metrics) :
    ∃ k t, s.metricSubscriptions.lookup m = some k ∧ s.subscribeTasks[k]? = some t ∧
      t.metricId = m :=
  hi.tasks.lookup ((hi.keys m).mp hm)

theorem Inv.stored_inj (hi : Inv s) {m m' : String} {k : TaskId}
    (h : s.metricSubscriptions.lookup m = some k) (h' : s.metricSubscriptions.lookup m' = some k) :
    m = m' :=
  hi.tasks.inj h h'

/-! ## One step -/

/-- The bps of `m` is recorded, and nothing else changes. -/
structure Recorded (s : Handler) (m : String) (metrics : AList fun _ : String => Int) : Prop where
  self : metrics.lookup m = some s.bps
  mem : ∀ m', m' ∈ metrics ↔ m' ∈ s.metrics
  other : ∀ m', m' ≠ m → metrics.lookup m' = s.metrics.lookup m'

theorem recorded_insert {m : String} (hm : m ∈ s.metrics) :
    Recorded s m (s.metrics.insert m s.bps) := by
  refine ⟨AList.lookup_insert _, fun m' => ?_, fun m' hne => AList.lookup_insert_ne hne⟩
  rw [AList.mem_insert]
  constructor
  · rintro (rfl | h)
    · exact hm
    · exact h
  · exact .inr

theorem recorded_self {m : String} (h : s.metrics.lookup m = some s.bps) :
    Recorded s m s.metrics := ⟨h, fun _ => Iff.rfl, fun _ _ => rfl⟩

/-- What each event finds and leaves. An update finds its old task done, when it begins or later, or
begins to wait. -/
inductive StepCase (s : Handler) : Event → Handler → Prop where
  | unknown {m : String} : s.outcome = none → s.updates.lookup m = some .created →
      m ∉ s.metrics → StepCase s (.beginUpdate m) (s.setPhase m .returned)
  | raises {e : Event} {m : String} {k : TaskId} {t : SubscribeTask} {p : Phase}
      {metrics : AList fun _ : String => Int} : e = .beginUpdate m ∨ e = .resumeUpdate m →
      s.outcome = none → s.updates.lookup m = some p → p = .created ∨ p = .waiting k →
      Recorded s m metrics → s.metricSubscriptions.lookup m = some k →
      s.subscribeTasks[k]? = some t → t.status = .failed →
      StepCase s e ({ s with metrics := metrics }.setPhase m .raised)
  | creates {e : Event} {m : String} {k : TaskId} {t : SubscribeTask} {p : Phase}
      {metrics : AList fun _ : String => Int} : e = .beginUpdate m ∨ e = .resumeUpdate m →
      s.outcome = none → s.updates.lookup m = some p → p = .created ∨ p = .waiting k →
      Recorded s m metrics → s.metricSubscriptions.lookup m = some k →
      s.subscribeTasks[k]? = some t → t.status = .cancelled →
      StepCase s e (({ s with metrics := metrics }.subscribe m s.bps).setPhase m .returned)
  | waits {m : String} {k : TaskId} {t : SubscribeTask}
      {metrics : AList fun _ : String => Int} : s.outcome = none →
      s.updates.lookup m = some .created → Recorded s m metrics →
      s.metricSubscriptions.lookup m = some k → s.subscribeTasks[k]? = some t →
      t.status = .running ∨ t.status = .cancelling →
      StepCase s (.beginUpdate m)
        (({ s with metrics := metrics }.cancel k).setPhase m (.waiting k))
  | abort : s.outcome = none → s.aborting = false → s.Failed →
      StepCase s .abort { s with aborting := true }
  | join : s.outcome = none → (∀ m ∈ s.updates.keys, s.Ended m) →
      (s.Failed → s.group = true → s.aborting = true) →
      StepCase s .join { s with outcome := some s.result }
  | taskEnds {k : TaskId} {t : SubscribeTask} : s.subscribeTasks[k]? = some t →
      t.status = .cancelling → StepCase s (.taskEnds k)
        { s with subscribeTasks := s.subscribeTasks.modify k (.finish .cancelled) }
  | taskFails {k : TaskId} {t : SubscribeTask} : s.subscribeTasks[k]? = some t →
      t.status = .running ∨ t.status = .cancelling → StepCase s (.taskFails k)
        { s with subscribeTasks := s.subscribeTasks.modify k (.finish .failed) }

theorem updateBps_cases (hi : Inv s) {m : String} (ho : s.outcome = none)
    (hp : s.updates.lookup m = some .created) : StepCase s (.beginUpdate m) (s.updateBps m) := by
  by_cases hm : m ∈ s.metrics
  · obtain ⟨k, t, hk, ht, _⟩ := hi.lookup hm
    have hupdate : s.updateBps m =
        ({ s with metrics := s.metrics.insert m s.bps }.cancel k).await m k := by
      simp only [updateBps, if_pos hm, hk]
    have hstatus : ({ s with metrics := s.metrics.insert m s.bps }.cancel k).status k =
        some t.cancel.status := by
      refine status_eq ?_
      exact getElem?_modify_eq_some.mpr ⟨t, ht, if_pos rfl⟩
    -- a task that is done is not changed by `cancel`
    have hfix (hr : t.status ≠ .running) :
        { s with metrics := s.metrics.insert m s.bps }.cancel k =
          { s with metrics := s.metrics.insert m s.bps } := by
      have htask : s.subscribeTasks.modify k SubscribeTask.cancel = s.subscribeTasks :=
        modify_of_fix ht (if_neg hr)
      simp only [cancel, htask]
    rw [hupdate, await, hstatus]
    cases hs : t.status with
    | running =>
      simp only [SubscribeTask.cancel, hs, if_true]
      exact .waits ho hp (recorded_insert hm) hk ht (.inl hs)
    | cancelling =>
      simp only [SubscribeTask.cancel, hs, reduceCtorEq, if_false]
      exact .waits ho hp (recorded_insert hm) hk ht (.inr hs)
    | cancelled =>
      simp only [SubscribeTask.cancel, hs, reduceCtorEq, if_false]
      rw [hfix (by simp [hs])]
      exact .creates (.inl rfl) ho hp (.inl rfl) (recorded_insert hm) hk ht hs
    | failed =>
      simp only [SubscribeTask.cancel, hs, reduceCtorEq, if_false]
      rw [hfix (by simp [hs])]
      exact .raises (.inl rfl) ho hp (.inl rfl) (recorded_insert hm) hk ht hs
  · rw [updateBps, if_neg hm]
    exact .unknown ho hp hm

theorem step_cases (hi : Inv s) {s' : Handler} {e : Event} (h : s.step e = some s') :
    StepCase s e s' := by
  cases e with
  | beginUpdate m =>
    simp only [step] at h
    split at h <;> cases h
    rename_i hg
    exact updateBps_cases hi hg.1 hg.2.2
  | resumeUpdate m =>
    simp only [step] at h
    split at h
    · rename_i k hp
      split at h <;> cases h
      rename_i hg
      obtain ⟨hk, hb, _⟩ := hi.waiting hg.1 hp
      rcases hg.2 with hs | hs
      · obtain ⟨t, ht, hts⟩ := status_eq_some.mp hs
        rw [await, hs]
        exact .creates (.inr rfl) hg.1 hp (.inr rfl) (recorded_self hb) hk ht hts
      · obtain ⟨t, ht, hts⟩ := status_eq_some.mp hs
        rw [await, hs]
        exact .raises (.inr rfl) hg.1 hp (.inr rfl) (recorded_self hb) hk ht hts
    · cases h
  | abort =>
    simp only [step] at h
    split at h <;> cases h
    rename_i hg
    exact .abort hg.1.1 hg.2.1 hg.2.2
  | join =>
    simp only [step] at h
    split at h <;> cases h
    rename_i hg
    exact .join hg.1 hg.2.1 hg.2.2
  | taskEnds k =>
    simp only [step] at h
    split at h <;> cases h
    rename_i hs
    obtain ⟨t, ht, hts⟩ := status_eq_some.mp hs
    exact .taskEnds ht hts
  | taskFails k =>
    simp only [step] at h
    split at h <;> cases h
    rename_i hs
    rcases hs with hs | hs
    · obtain ⟨t, ht, hts⟩ := status_eq_some.mp hs
      exact .taskFails ht (.inl hts)
    · obtain ⟨t, ht, hts⟩ := status_eq_some.mp hs
      exact .taskFails ht (.inr hts)

/-! ## The invariant is kept -/

theorem inv_setPhase (hi : Inv s) {m : String} {p : Phase}
    {metrics : AList fun _ : String => Int} (hmem : ∀ m', m' ∈ metrics ↔ m' ∈ s.metrics)
    (hother : ∀ m', m' ≠ m → metrics.lookup m' = s.metrics.lookup m')
    (hdone : ∀ k t, s.updates.lookup m = some (.waiting k) → s.subscribeTasks[k]? = some t →
      t.status ≠ .cancelling)
    (hp : ∀ k, p ≠ .waiting k) : Inv ({ s with metrics := metrics }.setPhase m p) := by
  constructor
  · intro m'
    exact (hmem m').trans (hi.keys m')
  · exact hi.stored
  · intro m' k ho hw
    have hne : m' ≠ m := by
      rintro rfl
      rw [setPhase, AList.lookup_insert] at hw
      exact hp k (Option.some.inj hw)
    rw [setPhase, AList.lookup_insert_ne hne] at hw
    obtain ⟨hk, hb, hr⟩ := hi.waiting ho hw
    exact ⟨hk, (hother m' hne).trans hb, hr⟩
  · intro k t ht hc
    obtain ⟨ho, m', hw⟩ := hi.awaited ht hc
    have hne : m' ≠ m := by
      rintro rfl
      exact hdone k t hw ht hc
    exact ⟨ho, m', by rw [setPhase, AList.lookup_insert_ne hne]; exact hw⟩

theorem inv_subscribe (hi : Inv s) {m : String} {metrics : AList fun _ : String => Int}
    (hmem : ∀ m', m' ∈ metrics ↔ m' = m ∨ m' ∈ s.metrics)
    (hother : ∀ m', m' ≠ m → metrics.lookup m' = s.metrics.lookup m')
    (hw : s.outcome = none → ∀ k, s.updates.lookup m ≠ some (.waiting k)) (bps : Int) :
    Inv ({ s with metrics := metrics }.subscribe m bps) := by
  constructor
  · intro m'
    rw [subscribe, AList.mem_insert, ← hi.keys]
    exact hmem m'
  · intro m' k hk
    exact hi.tasks.snoc ⟨m, bps, .running⟩ m' k hk
  · intro m' k ho hwait
    obtain ⟨hk, hb, hr⟩ := hi.waiting ho hwait
    have hne : m' ≠ m := by
      rintro rfl
      exact hw ho k hwait
    refine ⟨(AList.lookup_insert_ne hne).trans hk, (hother m' hne).trans hb, fun t ht => ?_⟩
    rcases getElem?_snoc.mp ht with ht | ⟨rfl, _⟩
    · exact hr t ht
    · obtain ⟨t', ht', _⟩ := hi.stored hk
      exact absurd (List.getElem?_eq_some_iff.mp ht').1 (Nat.lt_irrefl _)
  · intro k t ht hc
    rcases getElem?_snoc.mp ht with ht | ⟨_, rfl⟩
    · exact hi.awaited ht hc
    · cases hc

theorem inv_waits (hi : Inv s) {m : String} {k : TaskId}
    {metrics : AList fun _ : String => Int} (ho : s.outcome = none)
    (hp : s.updates.lookup m = some .created) (hrec : Recorded s m metrics)
    (hk : s.metricSubscriptions.lookup m = some k) :
    Inv (({ s with metrics := metrics }.cancel k).setPhase m (.waiting k)) := by
  have hnot : ∀ a : SubscribeTask, a.cancel.status ≠ .running := by
    intro a
    unfold SubscribeTask.cancel
    split
    · simp
    · assumption
  constructor
  · intro m'
    exact (hrec.mem m').trans (hi.keys m')
  · intro m' k' hk'
    refine hi.tasks.modify (fun a => ?_) k m' k' hk'
    unfold SubscribeTask.cancel
    split <;> rfl
  · intro m' k' _ hw
    by_cases he : m' = m
    · subst he
      rw [setPhase, AList.lookup_insert] at hw
      cases hw
      refine ⟨hk, hrec.self, fun a ha => ?_⟩
      obtain ⟨b, _, rfl⟩ := getElem?_modify_eq_some.mp ha
      rw [if_pos rfl]
      exact hnot b
    · rw [setPhase, AList.lookup_insert_ne he] at hw
      obtain ⟨hk', hb, hr⟩ := hi.waiting ho hw
      refine ⟨hk', (hrec.other m' he).trans hb, fun a ha => ?_⟩
      obtain ⟨b, hb, rfl⟩ := getElem?_modify_eq_some.mp ha
      split
      · exact hnot b
      · exact hr b hb
  · intro k' a ha hc
    refine ⟨ho, ?_⟩
    obtain ⟨b, hb, rfl⟩ := getElem?_modify_eq_some.mp ha
    by_cases he : k = k'
    · exact ⟨m, by rw [setPhase, AList.lookup_insert, he]⟩
    · rw [if_neg he] at hc
      obtain ⟨_, m', hw⟩ := hi.awaited hb hc
      refine ⟨m', ?_⟩
      have hne : m' ≠ m := by
        rintro rfl
        change s.updates.lookup m' = _ at hw
        rw [hp] at hw
        cases hw
      rw [setPhase, AList.lookup_insert_ne hne]
      exact hw

theorem inv_finish (hi : Inv s) {k : TaskId} {x : TaskStatus} (hx : x ≠ .running)
    (hx' : x ≠ .cancelling) :
    Inv { s with subscribeTasks := s.subscribeTasks.modify k (.finish x) } := by
  constructor
  · exact hi.keys
  · intro m' k' hk'
    exact hi.tasks.modify (f := .finish x) (fun _ => rfl) k m' k' hk'
  · intro m' k' ho hw
    obtain ⟨hk', hb, hr⟩ := hi.waiting ho hw
    refine ⟨hk', hb, fun a ha => ?_⟩
    obtain ⟨b, hb, rfl⟩ := getElem?_modify_eq_some.mp ha
    split
    · exact hx
    · exact hr b hb
  · intro k' a ha hc
    obtain ⟨b, hb, rfl⟩ := getElem?_modify_eq_some.mp ha
    by_cases he : k = k'
    · rw [if_pos he] at hc
      exact absurd hc hx'
    · rw [if_neg he] at hc
      exact hi.awaited hb hc

theorem inv_step (hi : Inv s) {s' : Handler} {e : Event} (h : s.step e = some s') : Inv s' := by
  cases step_cases hi h with
  | unknown ho hp hm =>
    refine inv_setPhase hi (fun _ => Iff.rfl) (fun _ _ => rfl) (fun k t hw => ?_) (by simp)
    rw [hp] at hw
    cases hw
  | raises _ ho hp _ hrec hk ht hs =>
    refine inv_setPhase hi hrec.mem hrec.other (fun k' t' hw ht' => ?_) (by simp)
    rw [(hi.waiting ho hw).1] at hk
    cases hk
    rw [ht] at ht'
    cases ht'
    simp [hs]
  | @creates _ m k t p metrics _ ho hp _ hrec hk ht hs =>
    have hset : Inv ({ s with metrics := metrics }.setPhase m .returned) := by
      refine inv_setPhase hi hrec.mem hrec.other (fun k' t' hw ht' => ?_) (by simp)
      rw [(hi.waiting ho hw).1] at hk
      cases hk
      rw [ht] at ht'
      cases ht'
      simp [hs]
    have hm : m ∈ metrics :=
      (hrec.mem m).mpr ((hi.keys m).mpr (AList.lookup_isSome.mp (by rw [hk]; rfl)))
    refine inv_subscribe hset (fun m' => ?_) (fun _ _ => rfl) (fun _ k' => ?_) s.bps
    · constructor
      · exact .inr
      · rintro (rfl | h)
        · exact hm
        · exact h
    · rw [setPhase, AList.lookup_insert]
      simp
  | waits ho hp hrec hk _ _ => exact inv_waits hi ho hp hrec hk
  | abort _ _ _ => exact ⟨hi.keys, hi.stored, hi.waiting, hi.awaited⟩
  | join ho hall _ =>
    refine ⟨hi.keys, hi.stored, fun hn => absurd hn (by simp), fun ht hc => ?_⟩
    obtain ⟨_, m, hw⟩ := hi.awaited ht hc
    have hm : m ∈ s.updates.keys := AList.mem_keys.mp (AList.lookup_isSome.mp (by rw [hw]; rfl))
    have hend := hall m hm
    simp [Ended, hw] at hend
  | taskEnds _ _ => exact inv_finish hi (by simp) (by simp)
  | taskFails _ _ => exact inv_finish hi (by simp) (by simp)

/-! ## Calls -/

theorem lookup_createUpdates (ms : List String) (m : String) :
    (createUpdates ms).lookup m = if m ∈ ms then some .created else none := by
  induction ms with
  | nil => rfl
  | cons m' ms ih =>
    have hcons : createUpdates (m' :: ms) = (createUpdates ms).insert m' .created := rfl
    rw [hcons]
    by_cases he : m = m'
    · rw [he, AList.lookup_insert, if_pos (List.mem_cons_self ..)]
    · rw [AList.lookup_insert_ne he, ih]
      simp [he]

theorem mem_createUpdates {ms : List String} {m : String} : m ∈ createUpdates ms ↔ m ∈ ms := by
  rw [← AList.lookup_isSome, lookup_createUpdates]
  split
  · simpa
  · simpa

/-- With no operation under way, no task is being cancelled. -/
theorem Inv.not_cancelling (hi : Inv s) (ho : s.outcome ≠ none) {k : TaskId} {t : SubscribeTask}
    (ht : s.subscribeTasks[k]? = some t) : t.status ≠ .cancelling :=
  fun hc => ho (hi.awaited ht hc).1

theorem inv_start (hi : Inv s) (ho : s.outcome ≠ none) (group : Bool) (ms : List String)
    (bps : Int) : Inv (s.start group ms bps) := by
  refine ⟨hi.keys, hi.stored, fun _ hw => ?_, fun ht hc => absurd hc (hi.not_cancelling ho ht)⟩
  change (createUpdates ms).lookup _ = _ at hw
  rw [lookup_createUpdates] at hw
  split at hw <;> cases hw

theorem inv_redistribute (hi : Inv s) (ho : s.outcome ≠ none) : Inv s.redistributeBpsFairly := by
  unfold redistributeBpsFairly
  split
  · exact ⟨hi.keys, hi.stored, fun hn => absurd hn (by simp),
      fun ht hc => absurd hc (hi.not_cancelling ho ht)⟩
  · exact inv_start hi ho true _ _

theorem inv_addMetric (hi : Inv s) (ho : s.outcome ≠ none) (m : String) : Inv (s.addMetric m) :=
  inv_subscribe hi (fun _ => AList.mem_insert s.metrics) (fun _ hne => AList.lookup_insert_ne hne)
    (fun hn => absurd hn ho) 0

theorem inv_call (hi : Inv s) {s' : Handler} {c : Call} (h : s.call c = some s') : Inv s' := by
  cases c with
  | addMetric m =>
    simp only [call] at h
    split at h <;> cases h
    rename_i ho
    split
    · exact inv_redistribute (inv_addMetric hi ho m) ho
    · exact inv_addMetric hi ho m
  | updateBps m bps =>
    simp only [call] at h
    split at h <;> cases h
    rename_i ho
    exact inv_start hi ho false [m] bps
  | redistributeBpsFairly =>
    simp only [call] at h
    split at h <;> cases h
    rename_i ho
    exact inv_redistribute hi ho
  | setMaxBps bps =>
    simp only [call] at h
    split at h <;> cases h
    rename_i ho
    split
    · exact inv_redistribute (s := { s with maxBps := bps })
        ⟨hi.keys, hi.stored, hi.waiting, hi.awaited⟩ ho
    · exact hi

theorem inv_reachable {bps_distribution_mode : String} {max_bps : Int}
    (h : Reachable bps_distribution_mode max_bps s) : Inv s := by
  obtain ⟨es, h⟩ := h
  refine h.invariant (inv_init bps_distribution_mode max_bps) fun t e t' hi hst => ?_
  cases e with
  | inl e => exact inv_step hi hst
  | inr c => exact inv_call hi hst

end Handler

end Reallocation
end Ground
end BvexLink
