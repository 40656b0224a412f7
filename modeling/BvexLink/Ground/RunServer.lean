import BvexLink.Ground.Bandwidth

/-!
# BvexLink.Ground.RunServer

`run_server` of `server.py` with the commands of `cli.py`: the operator's commands go into two
queues, a coroutine at each queue calls the operations of the handler one after the other, and
`sync_metric_ids` calls those of discovery beside them. `asyncio.gather` awaits the two coroutines
and `telemetry_server.run()`, which raises when Redis or the port is not to be had. The model ends
where `gather` raises; the thread of the commands goes on.

* `Inv`: a coroutine that waits at its queue has no operation under way.
* `refines_step`: so its next one is serial, a step of the handler under the event loop.
* `runs_serial`: every run is one of that handler, which gets the commands in the order in which
  they were typed.
* `stays_defined`, `survives_iff`: when the server survives its commands, and exactly when.
-/

namespace BvexLink
namespace Ground

open MetricSubscribeHandler

/-! ## What an operation leaves under way -/

namespace MetricSubscribeHandler

variable {s t : MetricSubscribeHandler}

/-- The updates of `handle_update_bps_queue`. -/
def own (s : MetricSubscribeHandler) : Nat := s.updates.countP fun u => u.group.isNone

/-- The redistributions of `sync_metric_ids`. -/
def syncing (s : MetricSubscribeHandler) : Nat := s.redistributions.countP fun r => r.sync

/-- Those of `handle_set_max_bps_queue`. -/
def setting (s : MetricSubscribeHandler) : Nat := s.redistributions.countP fun r => !r.sync

/-- The updates of no group have begun. -/
def Begun (s : MetricSubscribeHandler) : Prop := ∀ u ∈ s.updates, u.oldTask = none → u.group ≠ none

theorem updates_redistribute (s : MetricSubscribeHandler) (sync : Bool) (rest : List String) :
    ∃ us, (s.redistributeBpsFairly sync rest).updates = s.updates ++ us ∧
      ∀ u ∈ us, u.group ≠ none := by
  by_cases hk : s.metrics.keys = []
  · unfold redistributeBpsFairly
    simp only [hk]
    exact ⟨[], (List.append_nil _).symm, by simp⟩
  · rw [redistribute_eq hk]
    refine ⟨_, rfl, fun u hu => ?_⟩
    obtain ⟨m, _, rfl⟩ := List.mem_map.mp hu
    simp

theorem updates_addMetrics (rest : List String) (s : MetricSubscribeHandler) :
    ∃ us, (addMetrics rest s).updates = s.updates ++ us ∧ ∀ u ∈ us, u.group ≠ none := by
  induction rest generalizing s with
  | nil => exact ⟨[], (List.append_nil _).symm, by simp⟩
  | cons m rest ih =>
    rw [addMetrics]
    by_cases hf : s.bpsDistributionMode = "fair"
    · have hf' : (s.addMetric m).bpsDistributionMode = "fair" := hf
      simp only [hf', if_true]
      exact updates_redistribute (s.addMetric m) true rest
    · have hf' : ¬ (s.addMetric m).bpsDistributionMode = "fair" := hf
      simp only [hf', if_false]
      exact ih (s.addMetric m)

/-- At most one update is left under way. -/
theorem updates_updateBps_one (s : MetricSubscribeHandler) (group : Option Nat) (m : String)
    (bps : Int) : ∃ us, (s.updateBps group m bps).updates = s.updates ++ us ∧ us.length ≤ 1 ∧
      ∀ u ∈ us, u.group = group ∧ u.oldTask ≠ none := by
  simp only [updateBps]
  split
  · split
    · exact ⟨[], by simp [raise], by simp, by simp⟩
    · split
      · exact ⟨[], by simp [subscribe, cancel], by simp, by simp⟩
      · refine ⟨_, rfl, le_refl _, fun u hu => ?_⟩
        rw [List.mem_singleton.mp hu]
        exact ⟨rfl, by simp⟩
  · exact ⟨[], by simp, by simp, by simp⟩

/-- Updates of groups are added. -/
theorem own_of_updates {us : List Update} (h : t.updates = s.updates ++ us)
    (hus : ∀ u ∈ us, u.group ≠ none) : own t = own s := by
  have hnil : us.countP (fun u => u.group.isNone) = 0 :=
    List.countP_eq_zero.mpr fun u hu => by simpa using hus u hu
  rw [own, h, List.countP_append, hnil]
  rfl

theorem own_erase_add {u : Update} (hu : u ∈ s.updates) (hg : u.group = none) :
    own { s with updates := s.updates.erase u } + 1 = own s := by
  have hsum := ListUpdate.countP_erase_add (p := fun v => v.group.isNone) hu
  rwa [if_pos (by simp [hg])] at hsum

theorem own_erase {u : Update} (hu : u ∈ s.updates) (hg : u.group ≠ none) :
    own { s with updates := s.updates.erase u } = own s := by
  have hsum := ListUpdate.countP_erase_add (p := fun v => v.group.isNone) hu
  rwa [if_neg (by simpa using hg)] at hsum

section Erase

variable {r : Redistribution} (hr : r ∈ s.redistributions)
include hr

theorem setting_erase_add (h : r.sync = false) :
    setting { s with redistributions := s.redistributions.erase r } + 1 = setting s := by
  have hsum := ListUpdate.countP_erase_add (p := fun r => !r.sync) hr
  rwa [if_pos (by simp [h])] at hsum

theorem setting_erase (h : r.sync = true) :
    setting { s with redistributions := s.redistributions.erase r } = setting s := by
  have hsum := ListUpdate.countP_erase_add (p := fun r => !r.sync) hr
  rwa [if_neg (by simp [h])] at hsum

theorem syncing_erase_add (h : r.sync = true) :
    syncing { s with redistributions := s.redistributions.erase r } + 1 = syncing s := by
  have hsum := ListUpdate.countP_erase_add (p := fun r => r.sync) hr
  rwa [if_pos h] at hsum

theorem syncing_erase (h : r.sync = false) :
    syncing { s with redistributions := s.redistributions.erase r } = syncing s := by
  have hsum := ListUpdate.countP_erase_add (p := fun r => r.sync) hr
  rwa [if_neg (by simp [h])] at hsum

end Erase

theorem setting_append {rs : List Redistribution}
    (h : t.redistributions = s.redistributions ++ rs) :
    setting t = setting s + rs.countP fun r => !r.sync := by
  rw [setting, h, List.countP_append]
  rfl

theorem syncing_append {rs : List Redistribution}
    (h : t.redistributions = s.redistributions ++ rs) :
    syncing t = syncing s + rs.countP fun r => r.sync := by
  rw [syncing, h, List.countP_append]
  rfl

theorem begun_of_updates {us : List Update} (hb : Begun s) (h : t.updates = s.updates ++ us)
    (hus : ∀ u ∈ us, u.oldTask = none → u.group ≠ none) : Begun t := by
  intro u hu
  rw [h] at hu
  rcases List.mem_append.mp hu with hu | hu
  · exact hb u hu
  · exact hus u hu

theorem setMaxBps_cases (s : MetricSubscribeHandler) (bps : Int) :
    s.setMaxBps bps = s ∧ bps = s.maxBps ∨
    bps ≠ s.maxBps ∧ s.metrics.keys = [] ∧ (s.setMaxBps bps).updates = s.updates ∧
      (s.setMaxBps bps).redistributions = s.redistributions ∧
      (s.setMaxBps bps).raised = s.raised ++ [.zeroDivisionError] ∨
    bps ≠ s.maxBps ∧ s.metrics.keys ≠ [] ∧
      (s.setMaxBps bps).redistributions = s.redistributions ++ [⟨s.groups, false, []⟩] ∧
      (s.setMaxBps bps).raised = s.raised := by
  by_cases hb : bps = s.maxBps
  · refine .inl ⟨?_, hb⟩
    rw [setMaxBps, if_neg (not_not.mpr hb)]
  · rw [setMaxBps, if_pos hb]
    by_cases hk : s.metrics.keys = []
    · refine .inr (.inl ⟨hb, hk, ?_⟩)
      unfold redistributeBpsFairly
      simp only [hk]
      exact ⟨rfl, rfl, rfl⟩
    · rw [redistribute_eq (s := { s with maxBps := bps }) hk]
      exact .inr (.inr ⟨hb, hk, rfl, rfl⟩)

theorem updates_setMaxBps (s : MetricSubscribeHandler) (bps : Int) :
    ∃ us, (s.setMaxBps bps).updates = s.updates ++ us ∧ ∀ u ∈ us, u.group ≠ none := by
  rw [setMaxBps]
  split
  · exact updates_redistribute { s with maxBps := bps } false []
  · exact ⟨[], (List.append_nil _).symm, by simp⟩

theorem begun_step {e : Event} (hb : Begun s) (h : s.step e = some t) : Begun t := by
  cases step_cases h with
  | updateMetricIdList latest new updated _ _ =>
    obtain ⟨us, hus, hg⟩ := updates_addMetrics new { s with updated := updated }
    exact begun_of_updates hb hus fun u hu _ => hg u hu
  | updateBps m bps =>
    obtain ⟨us, hus, _, hn⟩ := updates_updateBps_one s none m bps
    exact begun_of_updates hb hus fun u hu ho => absurd ho (hn u hu).2
  | setMaxBps bps =>
    obtain ⟨us, hus, hg⟩ := updates_setMaxBps s bps
    exact begun_of_updates hb hus fun u hu _ => hg u hu
  | beginUpdate u _ =>
    obtain ⟨us, hus, _, hn⟩ := updates_updateBps_one
      { s with updates := s.updates.erase u } u.group u.metricId u.bps
    refine begun_of_updates (s := { s with updates := s.updates.erase u }) ?_ hus
      fun v hv ho => absurd ho (hn v hv).2
    exact fun v hv => hb v (List.mem_of_mem_erase hv)
  | resumeUpdate u _ _ => exact fun v hv => hb v (List.mem_of_mem_erase hv)
  | endGroup r =>
    obtain ⟨us, hus, hg⟩ :=
      updates_addMetrics r.rest { s with redistributions := s.redistributions.erase r }
    exact begun_of_updates (s := { s with redistributions := s.redistributions.erase r }) hb hus
      fun u hu _ => hg u hu
  | timeout r => exact fun v hv => hb v (List.mem_filter.mp hv).1
  | taskEnds k _ => exact hb

theorem eq_of_list {latest new : List String}
    (h : s.step (.updateMetricIdList latest new) = some t) :
    ∃ updated, t = addMetrics new { s with updated := updated } := by
  cases step_cases h with
  | updateMetricIdList _ _ updated _ _ => exact ⟨updated, rfl⟩

theorem eq_of_beginUpdate {u : Update} (h : s.step (.beginUpdate u) = some t) :
    t = { s with updates := s.updates.erase u }.updateBps u.group u.metricId u.bps := by
  cases step_cases h
  rfl

theorem eq_of_resumeUpdate {u : Update} (h : s.step (.resumeUpdate u) = some t) :
    t = { s with updates := s.updates.erase u }.subscribe u.metricId u.bps := by
  cases step_cases h
  rfl

theorem mem_of_resumeUpdate {u : Update} (h : s.step (.resumeUpdate u) = some t) :
    u ∈ s.updates := by
  cases step_cases h with
  | resumeUpdate _ hu _ => exact (mem_suspended.mp hu).1

theorem eq_of_endGroup {r : Redistribution} (h : s.step (.endGroup r) = some t) :
    t = addMetrics r.rest { s with redistributions := s.redistributions.erase r } := by
  cases step_cases h
  rfl

theorem eq_of_timeout {r : Redistribution} (h : s.step (.timeout r) = some t) : t = { s with
    redistributions := { r with rest := [] } :: s.redistributions.erase r
    updates := s.updates.filter fun u => u.group ≠ some r.group ∨ u.oldTask ≠ none } := by
  cases step_cases h
  rfl

theorem eq_of_taskEnds {k : TaskId} (h : s.step (.taskEnds k) = some t) :
    t = { s with subscribeTasks := s.subscribeTasks.modify k SubscribeTask.finish } := by
  cases step_cases h
  rfl

end MetricSubscribeHandler

theorem handler_of_iterate {s t : Bandwidth} (h : s.step .iterate = some t) :
    t.handler = s.handler := by
  rw [Bandwidth.step] at h
  split at h
  · cases h
    rfl
  · cases h

theorem handler_of_connected {s t : Bandwidth} {k : TaskId} (h : s.step (.connected k) = some t) :
    t.handler = s.handler := by
  rw [Bandwidth.step] at h
  split at h
  · cases h
    rfl
  · cases h

/-- Where a coroutine is: at its queue or read, in an operation of the handler, or ended. -/
inductive Place where
  | waiting
  | inside
  | ended
  deriving DecidableEq

/-- Where it is after it has called an operation. -/
def Place.after (raised waits : Bool) : Place :=
  if raised then .ended else if waits then .inside else .waiting

structure RunServer where
  bandwidth : Bandwidth
  updateBpsQueue : List (String × Int)
  setMaxBpsQueue : List Int
  handleUpdateBpsQueue : Place
  handleSetMaxBpsQueue : Place
  syncMetricIds : Place
  telemetryServerRaised : Bool

/-- `setbps` and `setmaxbps` are typed; `getBps` and `getMaxBps` are the two queues' `get`s,
`metricIds` a list that `sync_metric_ids` has read, and in `serverRaises` it is
`telemetry_server.run()` that does. -/
inductive RunServerEvent where
  | setbps (metric_id : String) (bits_per_second : Int)
  | setmaxbps (bits_per_second : Int)
  | getBps
  | getMaxBps
  | metricIds (latest_metric_ids new_metric_ids : List String)
  | syncRaises
  | serverRaises
  | beginUpdate (u : Update)
  | resumeUpdate (u : Update)
  | endGroup (r : Redistribution)
  | timeout (r : Redistribution)
  | taskEnds (k : TaskId)
  | iterate
  | connected (k : TaskId)

namespace RunServer

def init (bps_distribution_mode : String) (max_bps : Int) : RunServer where
  bandwidth := .init bps_distribution_mode max_bps
  updateBpsQueue := []
  setMaxBpsQueue := []
  handleUpdateBpsQueue := .waiting
  handleSetMaxBpsQueue := .waiting
  syncMetricIds := .waiting
  telemetryServerRaised := false

variable (s : RunServer)

abbrev handler : MetricSubscribeHandler := s.bandwidth.handler

/-- `asyncio.gather` has raised. -/
def failed : Bool :=
  s.handleUpdateBpsQueue = .ended ∨ s.handleSetMaxBpsQueue = .ended ∨ s.telemetryServerRaised

/-- The handler takes a step in this iteration of the event loop. -/
def onHandler (e : MetricSubscribeHandler.Event) : Option Bandwidth :=
  (s.handler.step e).map fun handler => { s.bandwidth with
    handler := handler
    taskTicks :=
      Bandwidth.stamp s.bandwidth.taskTicks handler.subscribeTasks.length s.bandwidth.tick
    groupTicks := Bandwidth.stamp s.bandwidth.groupTicks handler.groups s.bandwidth.tick }

/-- One event of the event loop. -/
def loopStep : RunServerEvent → Option RunServer
  | .setbps _ _ => none
  | .setmaxbps _ => none
  | .getBps =>
    match s.updateBpsQueue with
    | [] => none
    | (metric_id, bps) :: rest =>
      if s.handleUpdateBpsQueue = .waiting then
        (s.onHandler (.updateBps metric_id bps)).map fun b => { s with
          bandwidth := b
          updateBpsQueue := rest
          handleUpdateBpsQueue :=
            .after (b.handler.raised ≠ s.handler.raised) (b.handler.updates ≠ s.handler.updates) }
      else none
  | .getMaxBps =>
    match s.setMaxBpsQueue with
    | [] => none
    | bps :: rest =>
      if s.handleSetMaxBpsQueue = .waiting then
        (s.onHandler (.setMaxBps bps)).map fun b => { s with
          bandwidth := b
          setMaxBpsQueue := rest
          handleSetMaxBpsQueue := .after (b.handler.raised ≠ s.handler.raised)
            (b.handler.redistributions ≠ s.handler.redistributions) }
      else none
  | .metricIds latest_metric_ids new_metric_ids =>
    if s.syncMetricIds = .waiting then
      (s.onHandler (.updateMetricIdList latest_metric_ids new_metric_ids)).map fun b => { s with
        bandwidth := b
        syncMetricIds := .after (b.handler.raised ≠ s.handler.raised)
          (b.handler.redistributions ≠ s.handler.redistributions) }
    else none
  | .syncRaises =>
    if s.syncMetricIds = .waiting then some { s with syncMetricIds := .ended } else none
  | .serverRaises => some { s with telemetryServerRaised := true }
  | .beginUpdate u => (s.onHandler (.beginUpdate u)).map fun b => { s with bandwidth := b }
  | .resumeUpdate u => (s.onHandler (.resumeUpdate u)).map fun b => { s with
      bandwidth := b
      handleUpdateBpsQueue := if u.group = none then .waiting else s.handleUpdateBpsQueue }
  | .endGroup r => (s.onHandler (.endGroup r)).map fun b =>
      if r.sync then { s with
        bandwidth := b
        syncMetricIds := .after (b.handler.raised ≠ s.handler.raised)
          (b.handler.redistributions ≠ s.handler.redistributions.erase r) }
      else { s with bandwidth := b, handleSetMaxBpsQueue := .waiting }
  | .timeout r =>
    -- tasks run in the order of their creation: what was created before has begun
    if s.handler.Serial (.timeout r) then
      (s.onHandler (.timeout r)).map fun b => { s with bandwidth := b }
    else none
  | .taskEnds k => (s.onHandler (.taskEnds k)).map fun b => { s with bandwidth := b }
  | .iterate => (s.bandwidth.step .iterate).map fun b => { s with bandwidth := b }
  | .connected k => (s.bandwidth.step (.connected k)).map fun b => { s with bandwidth := b }

/-- One event; `none` where it cannot happen. -/
def step : RunServerEvent → Option RunServer
  | .setbps metric_id bits_per_second =>
    some { s with updateBpsQueue := s.updateBpsQueue ++ [(metric_id, bits_per_second)] }
  | .setmaxbps bits_per_second =>
    some { s with setMaxBpsQueue := s.setMaxBpsQueue ++ [bits_per_second] }
  | e => if s.failed then none else s.loopStep e

abbrev Steps : RunServer → List RunServerEvent → RunServer → Prop := Trace.Run (Trace.ofFn step)

/-- The operation that an event has the handler take. -/
def call : RunServerEvent → Option MetricSubscribeHandler.Event
  | .getBps => s.updateBpsQueue.head?.map fun x => .updateBps x.1 x.2
  | .getMaxBps => s.setMaxBpsQueue.head?.map .setMaxBps
  | .metricIds latest_metric_ids new_metric_ids =>
    some (.updateMetricIdList latest_metric_ids new_metric_ids)
  | .beginUpdate u => some (.beginUpdate u)
  | .resumeUpdate u => some (.resumeUpdate u)
  | .endGroup r => some (.endGroup r)
  | .timeout r => some (.timeout r)
  | .taskEnds k => some (.taskEnds k)
  | _ => none

def serverRaises : RunServerEvent → Bool
  | .serverRaises => true
  | _ => false

/-- What the operator and discovery may ask for, when it is their turn. The telemetry server does
not raise. -/
def Meets (e : RunServerEvent) : Prop :=
  serverRaises e = false ∧ ∀ e' ∈ s.call e, s.handler.Meets e'

/-! ## One step -/

/-- What each event finds and leaves. -/
inductive StepCase (s : RunServer) : RunServerEvent → RunServer → Prop where
  | setbps (metric_id : String) (bps : Int) : StepCase s (.setbps metric_id bps)
      { s with updateBpsQueue := s.updateBpsQueue ++ [(metric_id, bps)] }
  | setmaxbps (bps : Int) : StepCase s (.setmaxbps bps)
      { s with setMaxBpsQueue := s.setMaxBpsQueue ++ [bps] }
  | getBps {metric_id : String} {bps : Int} {rest : List (String × Int)} {b : Bandwidth} :
      s.failed = false → s.updateBpsQueue = (metric_id, bps) :: rest →
      s.handleUpdateBpsQueue = .waiting → s.onHandler (.updateBps metric_id bps) = some b →
      StepCase s .getBps { s with
        bandwidth := b
        updateBpsQueue := rest
        handleUpdateBpsQueue :=
          .after (b.handler.raised ≠ s.handler.raised) (b.handler.updates ≠ s.handler.updates) }
  | getMaxBps {bps : Int} {rest : List Int} {b : Bandwidth} :
      s.failed = false → s.setMaxBpsQueue = bps :: rest →
      s.handleSetMaxBpsQueue = .waiting → s.onHandler (.setMaxBps bps) = some b →
      StepCase s .getMaxBps { s with
        bandwidth := b
        setMaxBpsQueue := rest
        handleSetMaxBpsQueue := .after (b.handler.raised ≠ s.handler.raised)
          (b.handler.redistributions ≠ s.handler.redistributions) }
  | metricIds {latest new : List String} {b : Bandwidth} :
      s.failed = false → s.syncMetricIds = .waiting →
      s.onHandler (.updateMetricIdList latest new) = some b →
      StepCase s (.metricIds latest new) { s with
        bandwidth := b
        syncMetricIds := .after (b.handler.raised ≠ s.handler.raised)
          (b.handler.redistributions ≠ s.handler.redistributions) }
  | syncRaises : s.failed = false → s.syncMetricIds = .waiting →
      StepCase s .syncRaises { s with syncMetricIds := .ended }
  | serverRaises : s.failed = false →
      StepCase s .serverRaises { s with telemetryServerRaised := true }
  | beginUpdate {u : Update} {b : Bandwidth} : s.failed = false →
      s.onHandler (.beginUpdate u) = some b →
      StepCase s (.beginUpdate u) { s with bandwidth := b }
  | resumeUpdate {u : Update} {b : Bandwidth} : s.failed = false →
      s.onHandler (.resumeUpdate u) = some b → StepCase s (.resumeUpdate u) { s with
        bandwidth := b
        handleUpdateBpsQueue := if u.group = none then .waiting else s.handleUpdateBpsQueue }
  | endSync {r : Redistribution} {b : Bandwidth} : s.failed = false → r.sync = true →
      s.onHandler (.endGroup r) = some b → StepCase s (.endGroup r) { s with
        bandwidth := b
        syncMetricIds := .after (b.handler.raised ≠ s.handler.raised)
          (b.handler.redistributions ≠ s.handler.redistributions.erase r) }
  | endMax {r : Redistribution} {b : Bandwidth} : s.failed = false → r.sync = false →
      s.onHandler (.endGroup r) = some b →
      StepCase s (.endGroup r) { s with bandwidth := b, handleSetMaxBpsQueue := .waiting }
  | timeout {r : Redistribution} {b : Bandwidth} : s.failed = false →
      s.handler.Serial (.timeout r) → s.onHandler (.timeout r) = some b →
      StepCase s (.timeout r) { s with bandwidth := b }
  | taskEnds {k : TaskId} {b : Bandwidth} : s.failed = false →
      s.onHandler (.taskEnds k) = some b → StepCase s (.taskEnds k) { s with bandwidth := b }
  | iterate {b : Bandwidth} : s.failed = false → s.bandwidth.step .iterate = some b →
      StepCase s .iterate { s with bandwidth := b }
  | connected {k : TaskId} {b : Bandwidth} : s.failed = false →
      s.bandwidth.step (.connected k) = some b → StepCase s (.connected k) { s with bandwidth := b }

variable {s} {t : RunServer} {e : RunServerEvent}

theorem step_cases (h : s.step e = some t) : StepCase s e t := by
  have hloop (hl : (if s.failed then none else s.loopStep e) = some t) :
      s.failed = false ∧ s.loopStep e = some t := by
    split at hl
    · cases hl
    · rename_i hf
      exact ⟨by simpa using hf, hl⟩
  cases e with
  | setbps m bps => cases h; exact .setbps m bps
  | setmaxbps bps => cases h; exact .setmaxbps bps
  | getBps =>
    obtain ⟨hf, h⟩ := hloop h
    simp only [loopStep] at h
    split at h
    · cases h
    · rename_i hq
      split at h
      · rename_i hw
        obtain ⟨b, hb, rfl⟩ := Option.map_eq_some_iff.mp h
        exact .getBps hf hq hw hb
      · cases h
  | getMaxBps =>
    obtain ⟨hf, h⟩ := hloop h
    simp only [loopStep] at h
    split at h
    · cases h
    · rename_i hq
      split at h
      · rename_i hw
        obtain ⟨b, hb, rfl⟩ := Option.map_eq_some_iff.mp h
        exact .getMaxBps hf hq hw hb
      · cases h
  | metricIds latest new =>
    obtain ⟨hf, h⟩ := hloop h
    simp only [loopStep] at h
    split at h
    · rename_i hw
      obtain ⟨b, hb, rfl⟩ := Option.map_eq_some_iff.mp h
      exact .metricIds hf hw hb
    · cases h
  | syncRaises =>
    obtain ⟨hf, h⟩ := hloop h
    simp only [loopStep] at h
    split at h
    · rename_i hw
      cases h
      exact .syncRaises hf hw
    · cases h
  | serverRaises =>
    obtain ⟨hf, h⟩ := hloop h
    cases h
    exact .serverRaises hf
  | beginUpdate u =>
    obtain ⟨hf, h⟩ := hloop h
    obtain ⟨b, hb, rfl⟩ := Option.map_eq_some_iff.mp h
    exact .beginUpdate hf hb
  | resumeUpdate u =>
    obtain ⟨hf, h⟩ := hloop h
    obtain ⟨b, hb, rfl⟩ := Option.map_eq_some_iff.mp h
    exact .resumeUpdate hf hb
  | endGroup r =>
    obtain ⟨hf, h⟩ := hloop h
    obtain ⟨b, hb, rfl⟩ := Option.map_eq_some_iff.mp h
    cases hr : r.sync with
    | true => simp only [if_true]; exact .endSync hf hr hb
    | false => exact .endMax hf hr hb
  | timeout r =>
    obtain ⟨hf, h⟩ := hloop h
    simp only [loopStep] at h
    split at h
    · rename_i hw
      obtain ⟨b, hb, rfl⟩ := Option.map_eq_some_iff.mp h
      exact .timeout hf hw hb
    · cases h
  | taskEnds k =>
    obtain ⟨hf, h⟩ := hloop h
    obtain ⟨b, hb, rfl⟩ := Option.map_eq_some_iff.mp h
    exact .taskEnds hf hb
  | iterate =>
    obtain ⟨hf, h⟩ := hloop h
    obtain ⟨b, hb, rfl⟩ := Option.map_eq_some_iff.mp h
    exact .iterate hf hb
  | connected k =>
    obtain ⟨hf, h⟩ := hloop h
    obtain ⟨b, hb, rfl⟩ := Option.map_eq_some_iff.mp h
    exact .connected hf hb

/-! ## What is under way -/

/-- A coroutine is in an operation of its own, or there is none of it. -/
structure Inv (s : RunServer) : Prop where
  handler : s.handler.Inv
  rests : s.handler.Rests
  begun : s.handler.Begun
  own : s.handler.own = if s.handleUpdateBpsQueue = .inside then 1 else 0
  setting : s.handler.setting = if s.handleSetMaxBpsQueue = .inside then 1 else 0
  syncing : s.handler.syncing = if s.syncMetricIds = .inside then 1 else 0
  updating : s.handleUpdateBpsQueue ≠ .ended
  raised : s.handler.raised =
    if s.handleSetMaxBpsQueue = .ended then [.zeroDivisionError] else []

theorem inv_init (bps_distribution_mode : String) (max_bps : Int) :
    Inv (init bps_distribution_mode max_bps) where
  handler := MetricSubscribeHandler.inv_init bps_distribution_mode max_bps
  rests := rests_init bps_distribution_mode max_bps
  begun := nofun
  own := rfl
  setting := rfl
  syncing := rfl
  updating := nofun
  raised := rfl

theorem failed_iff (hi : Inv s) : s.failed = true ↔
    s.handleSetMaxBpsQueue = .ended ∨ s.telemetryServerRaised = true := by
  rw [failed, decide_eq_true_iff]
  exact or_iff_right hi.updating

theorem step_onHandler {e : MetricSubscribeHandler.Event} {b : Bandwidth}
    (h : s.onHandler e = some b) : s.handler.step e = some b.handler := by
  obtain ⟨handler, hst, rfl⟩ := Option.map_eq_some_iff.mp h
  exact hst

/-- What a step of the handler keeps. -/
structure Kept (b : Bandwidth) : Prop where
  handler : b.handler.Inv
  rests : b.handler.Rests
  begun : b.handler.Begun

theorem kept_onHandler (hi : Inv s) {e : MetricSubscribeHandler.Event} {b : Bandwidth}
    (hserial : s.handler.Serial e) (h : s.onHandler e = some b) : Kept b := by
  have hst := step_onHandler h
  refine ⟨MetricSubscribeHandler.inv_step hi.handler hst, rests_step hi.handler hi.rests ?_ hst,
    begun_step hi.begun hst⟩
  rintro latest new rfl
  exact hserial

theorem serial_updateBps (hi : Inv s) (hw : s.handleUpdateBpsQueue = .waiting) (m : String)
    (bps : Int) : s.handler.Serial (.updateBps m bps) := by
  have hown := hi.own
  rw [hw, if_neg (by simp)] at hown
  intro u hu hnone
  exact List.countP_eq_zero.mp hown u hu (by simp [hnone])

theorem serial_setMaxBps (hi : Inv s) (hw : s.handleSetMaxBpsQueue = .waiting) (bps : Int) :
    s.handler.Serial (.setMaxBps bps) := by
  have hset := hi.setting
  rw [hw, if_neg (by simp)] at hset
  intro r hr
  simpa using List.countP_eq_zero.mp hset r hr

theorem serial_list (hi : Inv s) (hw : s.syncMetricIds = .waiting) (latest new : List String) :
    s.handler.Serial (.updateMetricIdList latest new) := by
  have hsync := hi.syncing
  rw [hw, if_neg (by simp)] at hsync
  intro r hr
  simpa using List.countP_eq_zero.mp hsync r hr

/-! ### The three coroutines -/

theorem after_eq {raised waits : Bool} (h : raised = false) :
    Place.after raised waits = if waits then .inside else .waiting := by
  rw [Place.after, h]
  rfl

theorem inv_getBps (hi : Inv s) {metric_id : String} {bps : Int} {rest : List (String × Int)}
    {b : Bandwidth} (hw : s.handleUpdateBpsQueue = .waiting)
    (h : s.onHandler (.updateBps metric_id bps) = some b) : Inv { s with
      bandwidth := b
      updateBpsQueue := rest
      handleUpdateBpsQueue :=
        .after (b.handler.raised ≠ s.handler.raised) (b.handler.updates ≠ s.handler.updates) } := by
  obtain ⟨hinv, hrests, hbegun⟩ := kept_onHandler hi (serial_updateBps hi hw metric_id bps) h
  have hb : s.handler.updateBps none metric_id bps = b.handler := Option.some.inj (step_onHandler h)
  obtain ⟨us, hus, hlen, hnew⟩ := updates_updateBps_one s.handler none metric_id bps
  have hred := redistributions_updateBps s.handler none metric_id bps
  have hraised := raised_updateBps hi.handler none metric_id bps
  rw [hb] at hus hred hraised
  have hown : b.handler.own = us.length := by
    have hzero := hi.own
    rw [hw, if_neg (by simp), MetricSubscribeHandler.own] at hzero
    rw [MetricSubscribeHandler.own, hus, List.countP_append, hzero, Nat.zero_add]
    exact List.countP_eq_length.mpr fun u hu => by simp [(hnew u hu).1]
  have hplace : Place.after (b.handler.raised ≠ s.handler.raised)
      (b.handler.updates ≠ s.handler.updates) = if us = [] then .waiting else .inside := by
    rw [after_eq (by simpa using hraised), hus]
    cases us <;> simp
  refine ⟨hinv, hrests, hbegun, ?_, ?_, ?_, ?_, hraised.trans hi.raised⟩
  · refine hown.trans ?_
    rw [hplace]
    cases us with
    | nil => rfl
    | cons u us =>
      have hnil : us = [] := by simpa using hlen
      rw [hnil]
      rfl
  · exact (congrArg _ hred).trans hi.setting
  · exact (congrArg _ hred).trans hi.syncing
  · rw [hplace]
    split <;> simp

theorem inv_getMaxBps (hi : Inv s) {bps : Int} {rest : List Int} {b : Bandwidth}
    (hw : s.handleSetMaxBpsQueue = .waiting) (h : s.onHandler (.setMaxBps bps) = some b) :
    Inv { s with
      bandwidth := b
      setMaxBpsQueue := rest
      handleSetMaxBpsQueue := .after (b.handler.raised ≠ s.handler.raised)
        (b.handler.redistributions ≠ s.handler.redistributions) } := by
  obtain ⟨hinv, hrests, hbegun⟩ := kept_onHandler hi (serial_setMaxBps hi hw bps) h
  have hb : s.handler.setMaxBps bps = b.handler := Option.some.inj (step_onHandler h)
  obtain ⟨us, hus, hgroup⟩ := updates_setMaxBps s.handler bps
  have hcases := setMaxBps_cases s.handler bps
  rw [hb] at hus hcases
  have hown := own_of_updates hus hgroup
  have hset := hi.setting
  have hraised := hi.raised
  rw [hw, if_neg (by simp)] at hset hraised
  rcases hcases with ⟨hsame, _⟩ | ⟨_, _, _, hred, hz⟩ | ⟨_, _, hred, hr⟩
  · have hplace : Place.after (b.handler.raised ≠ s.handler.raised)
        (b.handler.redistributions ≠ s.handler.redistributions) = .waiting := by
      simp [hsame, Place.after]
    rw [hplace]
    refine ⟨hinv, hrests, hbegun, hown.trans hi.own, ?_, ?_, hi.updating, ?_⟩
    · exact (congrArg _ hsame).trans hset
    · exact (congrArg _ hsame).trans hi.syncing
    · exact (congrArg _ hsame).trans hraised
  · have hplace : Place.after (b.handler.raised ≠ s.handler.raised)
        (b.handler.redistributions ≠ s.handler.redistributions) = .ended := by
      simp [hz, Place.after]
    rw [hplace]
    refine ⟨hinv, hrests, hbegun, hown.trans hi.own, ?_, ?_, hi.updating, ?_⟩
    · exact (congrArg _ hred).trans hset
    · exact (congrArg _ hred).trans hi.syncing
    · refine hz.trans ?_
      rw [hraised]
      rfl
  · have hplace : Place.after (b.handler.raised ≠ s.handler.raised)
        (b.handler.redistributions ≠ s.handler.redistributions) = .inside := by
      simp [hr, hred, Place.after]
    rw [hplace]
    refine ⟨hinv, hrests, hbegun, hown.trans hi.own, ?_, ?_, hi.updating, hr.trans hraised⟩
    · refine (setting_append hred).trans ?_
      rw [hset]
      rfl
    · exact (syncing_append hred).trans hi.syncing

/-- `sync_metric_ids` goes on to add metrics, with no redistribution of its own. -/
theorem inv_addMetrics (hi : Inv s) (h₀ : MetricSubscribeHandler) {new : List String}
    {b : Bandwidth} (hk : Kept b) (hb : addMetrics new h₀ = b.handler)
    (hupdates : h₀.updates = s.handler.updates) (hraised : h₀.raised = s.handler.raised)
    (hset : h₀.setting = s.handler.setting) (hsync : h₀.syncing = 0) : Inv { s with
      bandwidth := b
      syncMetricIds := .after (b.handler.raised ≠ s.handler.raised)
        (b.handler.redistributions ≠ h₀.redistributions) } := by
  obtain ⟨hinv, hrests, hbegun⟩ := hk
  obtain ⟨us, hus, hgroup⟩ := updates_addMetrics new h₀
  obtain ⟨rs, hrs, hcases⟩ := redistributions_addMetrics new h₀
  have hr := raised_addMetrics new h₀
  rw [hb] at hus hrs hr
  rw [hupdates] at hus
  rw [hraised] at hr
  have hown := own_of_updates hus hgroup
  have hplace : Place.after (b.handler.raised ≠ s.handler.raised)
      (b.handler.redistributions ≠ h₀.redistributions) = if rs = [] then .waiting else .inside := by
    rw [after_eq (by simpa using hr), hrs]
    cases rs <;> simp
  refine ⟨hinv, hrests, hbegun, hown.trans hi.own, ?_, ?_, hi.updating, hr.trans hi.raised⟩
  · refine ((setting_append hrs).trans ?_).trans (hset.trans hi.setting)
    rcases hcases with ⟨rfl, _⟩ | rfl <;> rfl
  · refine (syncing_append hrs).trans ?_
    rw [hsync, hplace]
    rcases hcases with ⟨rfl, _⟩ | rfl <;> rfl

theorem inv_begin (hi : Inv s) {u : Update} {b : Bandwidth}
    (h : s.onHandler (.beginUpdate u) = some b) : Inv { s with bandwidth := b } := by
  obtain ⟨hinv, hrests, hbegun⟩ := kept_onHandler hi (e := .beginUpdate u) trivial h
  have hst := step_onHandler h
  obtain ⟨hu, hnone⟩ := step_beginUpdate hst
  have hgroup := hi.begun u hu hnone
  have hi' := hi.handler.same (same_begin s.handler hnone)
  obtain ⟨us, hus, _, hnew⟩ := updates_updateBps_one
    { s.handler with updates := s.handler.updates.erase u } u.group u.metricId u.bps
  have hred := redistributions_updateBps
    { s.handler with updates := s.handler.updates.erase u } u.group u.metricId u.bps
  have hraised := raised_updateBps hi' u.group u.metricId u.bps
  rw [← eq_of_beginUpdate hst] at hus hred hraised
  have hown := (own_of_updates hus fun v hv => (hnew v hv).1 ▸ hgroup).trans (own_erase hu hgroup)
  exact ⟨hinv, hrests, hbegun, hown.trans hi.own, (congrArg _ hred).trans hi.setting,
    (congrArg _ hred).trans hi.syncing, hi.updating, hraised.trans hi.raised⟩

theorem inv_resume (hi : Inv s) {u : Update} {b : Bandwidth}
    (h : s.onHandler (.resumeUpdate u) = some b) : Inv { s with
      bandwidth := b
      handleUpdateBpsQueue := if u.group = none then .waiting else s.handleUpdateBpsQueue } := by
  obtain ⟨hinv, hrests, hbegun⟩ := kept_onHandler hi (e := .resumeUpdate u) trivial h
  have hst := step_onHandler h
  have hb := eq_of_resumeUpdate hst
  have hu := mem_of_resumeUpdate hst
  have hset : b.handler.setting = s.handler.setting := by rw [hb]; rfl
  have hsync : b.handler.syncing = s.handler.syncing := by rw [hb]; rfl
  have hraised : b.handler.raised = s.handler.raised := by rw [hb]; rfl
  have hown : b.handler.own = own { s.handler with updates := s.handler.updates.erase u } := by
    rw [hb]
    rfl
  by_cases hg : u.group = none
  · rw [if_pos hg]
    have hsum := own_erase_add hu hg
    rw [← hown, hi.own] at hsum
    have hzero : b.handler.own = 0 := by
      split at hsum <;> omega
    exact ⟨hinv, hrests, hbegun, hzero, hset.trans hi.setting, hsync.trans hi.syncing,
      by simp, hraised.trans hi.raised⟩
  · rw [if_neg hg]
    exact ⟨hinv, hrests, hbegun, (hown.trans (own_erase hu hg)).trans hi.own, hset.trans hi.setting,
      hsync.trans hi.syncing, hi.updating, hraised.trans hi.raised⟩

theorem inv_timeout (hi : Inv s) {r : Redistribution} {b : Bandwidth}
    (hserial : s.handler.Serial (.timeout r)) (h : s.onHandler (.timeout r) = some b) :
    Inv { s with bandwidth := b } := by
  obtain ⟨hinv, hrests, hbegun⟩ := kept_onHandler hi hserial h
  have hst := step_onHandler h
  obtain ⟨hr, hsync⟩ := step_timeout hst
  have hb := eq_of_timeout hst
  refine ⟨hinv, hrests, hbegun, Eq.trans ?_ hi.own, Eq.trans ?_ hi.setting, Eq.trans ?_ hi.syncing,
    hi.updating, Eq.trans ?_ hi.raised⟩
  · show b.handler.own = _
    rw [hb]
    -- an update of no group is not one of its group
    refine (List.countP_filter ..).trans (List.countP_congr fun u _ => ?_)
    cases u.group <;> simp
  · show b.handler.setting = _
    rw [hb]
    refine Eq.trans ?_ (setting_erase hr hsync)
    exact List.countP_cons_of_neg (by simp [hsync])
  · show b.handler.syncing = _
    rw [hb]
    refine Eq.trans ?_ (syncing_erase_add hr hsync)
    exact List.countP_cons_of_pos (by simp [hsync])
  · show b.handler.raised = _
    rw [hb]

theorem inv_endSync (hi : Inv s) {r : Redistribution} {b : Bandwidth} (hr : r.sync = true)
    (h : s.onHandler (.endGroup r) = some b) : Inv { s with
      bandwidth := b
      syncMetricIds := .after (b.handler.raised ≠ s.handler.raised)
        (b.handler.redistributions ≠ s.handler.redistributions.erase r) } := by
  have hst := step_onHandler h
  have hmem := (step_endGroup hst).1
  refine inv_addMetrics hi { s.handler with redistributions := s.handler.redistributions.erase r }
    (kept_onHandler hi (e := .endGroup r) trivial h) (eq_of_endGroup hst).symm rfl rfl
    (setting_erase hmem hr) ?_
  have hsum := syncing_erase_add hmem hr
  rw [hi.syncing] at hsum
  split at hsum
  · exact Nat.succ.inj hsum
  · exact absurd hsum (Nat.succ_ne_zero _)

theorem inv_endMax (hi : Inv s) {r : Redistribution} {b : Bandwidth} (hr : r.sync = false)
    (h : s.onHandler (.endGroup r) = some b) :
    Inv { s with bandwidth := b, handleSetMaxBpsQueue := .waiting } := by
  obtain ⟨hinv, hrests, hbegun⟩ := kept_onHandler hi (e := .endGroup r) trivial h
  have hst := step_onHandler h
  have hmem := (step_endGroup hst).1
  have hrest : r.rest = [] := by
    by_contra hne
    have hsync := (hi.rests.new r hmem hne).1
    rw [hr] at hsync
    cases hsync
  have hb := eq_of_endGroup hst
  rw [hrest] at hb
  have hsum := setting_erase_add hmem hr
  have hset := hi.setting
  have hin : s.handleSetMaxBpsQueue = .inside := by
    by_contra hne
    rw [if_neg hne] at hset
    omega
  have hraised := hi.raised
  rw [hin, if_neg (by simp)] at hraised
  rw [hin, if_pos rfl] at hset
  refine ⟨hinv, hrests, hbegun, ?_, ?_, ?_, hi.updating, ?_⟩
  · show b.handler.own = _
    rw [hb]
    exact hi.own
  · show b.handler.setting = 0
    rw [hb]
    exact Nat.succ.inj (hsum.trans hset)
  · show b.handler.syncing = _
    rw [hb]
    exact (syncing_erase hmem hr).trans hi.syncing
  · show b.handler.raised = []
    rw [hb]
    exact hraised

/-- The handler has taken no step, or one that ends a task. -/
theorem inv_beside (hi : Inv s) {b : Bandwidth} {ts : List SubscribeTask}
    (hinv : b.handler.Inv) (hb : b.handler = { s.handler with subscribeTasks := ts }) :
    Inv { s with bandwidth := b } := by
  have hred : b.handler.redistributions = s.handler.redistributions := by rw [hb]
  have hmetrics : b.handler.metrics = s.handler.metrics := by rw [hb]
  have hrests : b.handler.Rests := hi.rests.frame hred fun m hm => by rwa [hmetrics] at hm
  refine ⟨hinv, hrests, ?_, ?_, ?_, ?_, hi.updating, ?_⟩
  · show b.handler.Begun
    rw [hb]
    exact hi.begun
  · show b.handler.own = _
    rw [hb]
    exact hi.own
  · exact (congrArg _ hred).trans hi.setting
  · exact (congrArg _ hred).trans hi.syncing
  · show b.handler.raised = _
    rw [hb]
    exact hi.raised

theorem inv_step (hi : Inv s) (h : s.step e = some t) : Inv t := by
  cases step_cases h with
  | setbps m bps =>
    exact ⟨hi.handler, hi.rests, hi.begun, hi.own, hi.setting, hi.syncing, hi.updating, hi.raised⟩
  | setmaxbps bps =>
    exact ⟨hi.handler, hi.rests, hi.begun, hi.own, hi.setting, hi.syncing, hi.updating, hi.raised⟩
  | getBps _ _ hw hb => exact inv_getBps hi hw hb
  | getMaxBps _ _ hw hb => exact inv_getMaxBps hi hw hb
  | @metricIds latest new b _ hw hb =>
    have hk := kept_onHandler hi (serial_list hi hw latest new) hb
    obtain ⟨updated, hu⟩ := eq_of_list (step_onHandler hb)
    refine inv_addMetrics hi { s.handler with updated := updated } hk hu.symm rfl rfl rfl
      (hi.syncing.trans ?_)
    rw [hw, if_neg (by simp)]
  | syncRaises _ hw =>
    have hsync := hi.syncing
    rw [hw] at hsync
    exact ⟨hi.handler, hi.rests, hi.begun, hi.own, hi.setting, hsync, hi.updating, hi.raised⟩
  | serverRaises =>
    exact ⟨hi.handler, hi.rests, hi.begun, hi.own, hi.setting, hi.syncing, hi.updating, hi.raised⟩
  | beginUpdate _ hb => exact inv_begin hi hb
  | resumeUpdate _ hb => exact inv_resume hi hb
  | endSync _ hr hb => exact inv_endSync hi hr hb
  | endMax _ hr hb => exact inv_endMax hi hr hb
  | timeout _ hserial hb => exact inv_timeout hi hserial hb
  | taskEnds _ hb =>
    have hst := step_onHandler hb
    exact inv_beside hi (MetricSubscribeHandler.inv_step hi.handler hst) (eq_of_taskEnds hst)
  | iterate _ hb =>
    have hsame := handler_of_iterate hb
    exact inv_beside hi (by rw [hsame]; exact hi.handler) hsame
  | connected _ hb =>
    have hsame := handler_of_connected hb
    exact inv_beside hi (by rw [hsame]; exact hi.handler) hsame

theorem inv_steps {bps_distribution_mode : String} {max_bps : Int} {es : List RunServerEvent}
    (h : Steps (init bps_distribution_mode max_bps) es s) : Inv s :=
  h.invariant (inv_init bps_distribution_mode max_bps) fun _ _ _ hi hs => inv_step hi hs

/-! ## Whole runs -/

def typedBps : RunServerEvent → Option (String × Int)
  | .setbps metric_id bits_per_second => some (metric_id, bits_per_second)
  | _ => none

def typedMaxBps : RunServerEvent → Option Int
  | .setmaxbps bits_per_second => some bits_per_second
  | _ => none

def calledBps : BandwidthEvent → Option (String × Int)
  | .handler (.updateBps metric_id bps) => some (metric_id, bps)
  | _ => none

def calledMaxBps : BandwidthEvent → Option Int
  | .handler (.setMaxBps bps) => some bps
  | _ => none

/-- What a step takes from the queues is what it calls, and the calls are those of a step of the
handler under the event loop. -/
structure Refines (s : RunServer) (e : RunServerEvent) (t : RunServer) (bs : List BandwidthEvent) :
    Prop where
  steps : Bandwidth.Steps s.bandwidth bs t.bandwidth
  given : s.Meets e → Trace.Run (Trace.Given Bandwidth.Meets (Trace.ofFn Bandwidth.step))
    s.bandwidth bs t.bandwidth
  bps : s.updateBpsQueue ++ (typedBps e).toList = bs.filterMap calledBps ++ t.updateBpsQueue
  maxBps : s.setMaxBpsQueue ++ (typedMaxBps e).toList =
    bs.filterMap calledMaxBps ++ t.setMaxBpsQueue

theorem step_of_onHandler {e : MetricSubscribeHandler.Event} {b : Bandwidth}
    (hserial : s.handler.Serial e) (h : s.onHandler e = some b) :
    s.bandwidth.step (.handler e) = some b := by
  rw [Bandwidth.step, if_pos hserial]
  exact h

theorem filterMap_single {A B : Type} (f : A → Option B) (a : A) :
    [a].filterMap f = (f a).toList := by
  cases h : f a <;> simp [h]

theorem refines_call {b : BandwidthEvent} (hb : s.bandwidth.step b = some t.bandwidth)
    (hm : s.Meets e → s.bandwidth.Meets b)
    (hbps : s.updateBpsQueue ++ (typedBps e).toList = [b].filterMap calledBps ++ t.updateBpsQueue)
    (hmax : s.setMaxBpsQueue ++ (typedMaxBps e).toList =
      [b].filterMap calledMaxBps ++ t.setMaxBpsQueue) : Refines s e t [b] :=
  ⟨.single hb, fun h => .single ⟨hm h, hb⟩, hbps, hmax⟩

theorem refines_step (hi : Inv s) (h : s.step e = some t) : ∃ bs, Refines s e t bs := by
  have hnone {A : Type} {q : List A} : q ++ (none : Option A).toList = [] ++ q := List.append_nil q
  cases step_cases h with
  | setbps m bps => exact ⟨[], .nil, fun _ => .nil, rfl, hnone⟩
  | setmaxbps bps => exact ⟨[], .nil, fun _ => .nil, hnone, rfl⟩
  | syncRaises _ _ => exact ⟨[], .nil, fun _ => .nil, hnone, hnone⟩
  | serverRaises _ => exact ⟨[], .nil, fun _ => .nil, hnone, hnone⟩
  | @getBps m bps rest b _ hq hw hb =>
    refine ⟨_, refines_call (step_of_onHandler (serial_updateBps hi hw m bps) hb) (fun hm => ?_) ?_
      hnone⟩
    · exact hm.2 _ (by rw [call, hq]; rfl)
    · rw [hq]
      exact List.append_nil _
  | @getMaxBps bps rest b _ hq hw hb =>
    refine ⟨_, refines_call (step_of_onHandler (serial_setMaxBps hi hw bps) hb) (fun hm => ?_) hnone
      ?_⟩
    · exact hm.2 _ (by rw [call, hq]; rfl)
    · rw [hq]
      exact List.append_nil _
  | metricIds _ hw hb =>
    exact ⟨_, refines_call (step_of_onHandler (serial_list hi hw _ _) hb) (fun hm => hm.2 _ rfl) hnone
      hnone⟩
  | @beginUpdate u b _ hb =>
    exact ⟨_, refines_call (step_of_onHandler (e := .beginUpdate u) trivial hb)
      (fun hm => hm.2 _ rfl) hnone hnone⟩
  | @resumeUpdate u b _ hb =>
    exact ⟨_, refines_call (step_of_onHandler (e := .resumeUpdate u) trivial hb)
      (fun hm => hm.2 _ rfl) hnone hnone⟩
  | @endSync r b _ _ hb =>
    exact ⟨_, refines_call (step_of_onHandler (e := .endGroup r) trivial hb)
      (fun hm => hm.2 _ rfl) hnone hnone⟩
  | @endMax r b _ _ hb =>
    exact ⟨_, refines_call (step_of_onHandler (e := .endGroup r) trivial hb)
      (fun hm => hm.2 _ rfl) hnone hnone⟩
  | timeout _ hserial hb =>
    exact ⟨_, refines_call (step_of_onHandler hserial hb) (fun hm => hm.2 _ rfl) hnone hnone⟩
  | @taskEnds k b _ hb =>
    exact ⟨_, refines_call (step_of_onHandler (e := .taskEnds k) trivial hb)
      (fun hm => hm.2 _ rfl) hnone hnone⟩
  | iterate _ hb => exact ⟨_, refines_call hb (fun _ => trivial) hnone hnone⟩
  | connected _ hb => exact ⟨_, refines_call hb (fun _ => trivial) hnone hnone⟩

/-- The handler is called as the event loop allows, and by the queues in the order in which the
commands were typed: what has not been taken from a queue is what was typed last. -/
theorem runs_serial {bps_distribution_mode : String} {max_bps : Int} {es : List RunServerEvent}
    (h : Steps (init bps_distribution_mode max_bps) es s) : ∃ bs,
      Bandwidth.Steps (.init bps_distribution_mode max_bps) bs s.bandwidth ∧
      es.filterMap typedBps = bs.filterMap calledBps ++ s.updateBpsQueue ∧
      es.filterMap typedMaxBps = bs.filterMap calledMaxBps ++ s.setMaxBpsQueue := by
  refine (h.history (I := fun es s => Inv s ∧ ∃ bs,
    Bandwidth.Steps (.init bps_distribution_mode max_bps) bs s.bandwidth ∧
    es.filterMap typedBps = bs.filterMap calledBps ++ s.updateBpsQueue ∧
    es.filterMap typedMaxBps = bs.filterMap calledMaxBps ++ s.setMaxBpsQueue)
    ⟨inv_init bps_distribution_mode max_bps, [], .nil, rfl, rfl⟩ ?_).2
  rintro es t e u ⟨hi, bs, hrun, hbps, hmax⟩ hstep
  obtain ⟨cs, hr⟩ := refines_step hi hstep
  refine ⟨inv_step hi hstep, bs ++ cs, hrun.append hr.steps, ?_, ?_⟩
  · rw [List.filterMap_append, List.filterMap_append, hbps, List.append_assoc, List.append_assoc,
      ← hr.bps, filterMap_single]
  · rw [List.filterMap_append, List.filterMap_append, hmax, List.append_assoc, List.append_assoc,
      ← hr.maxBps, filterMap_single]

/-- Two rates are typed before the metric is known; the second is read when the first is set. -/
def twoRates : List RunServerEvent :=
  [.setbps "temp" 7, .setbps "temp" 9, .metricIds ["temp"] ["temp"], .getBps, .taskEnds 0,
    .resumeUpdate ⟨none, "temp", 7, some 0⟩, .getBps]

theorem two_rates_serial : ∃ (s : RunServer) (bs : List BandwidthEvent),
    Bandwidth.Steps (.init "manual" 100) bs s.bandwidth ∧
    s.handler.metrics.lookup "temp" = some 9 ∧ s.updateBpsQueue = [] ∧
    bs.filterMap calledBps = [("temp", 7), ("temp", 9)] := by
  have hrun : ∃ s, Trace.exec step (init "manual" 100) twoRates = some s ∧
      s.handler.metrics.lookup "temp" = some 9 ∧ s.updateBpsQueue = [] := ⟨_, rfl, rfl, rfl⟩
  obtain ⟨s, hs, hbps, hq⟩ := hrun
  obtain ⟨bs, hbs, hcalled, _⟩ := runs_serial (Trace.run_of_exec hs)
  rw [hq, List.append_nil] at hcalled
  exact ⟨s, bs, hbs, hbps, hq, hcalled.symm⟩

theorem server_step (h : s.step e = some t) :
    t.telemetryServerRaised = (s.telemetryServerRaised || serverRaises e) := by
  cases step_cases h with
  | serverRaises _ => exact (Bool.or_true _).symm
  | setbps | setmaxbps | getBps | getMaxBps | metricIds | syncRaises | beginUpdate | resumeUpdate
  | endSync | endMax | timeout | taskEnds | iterate | connected => exact (Bool.or_false _).symm

/-- Where discovery and the operator keep to the condition, the server goes on, and nothing divides
by zero. -/
theorem stays_defined {bps_distribution_mode : String} {max_bps : Int} {es : List RunServerEvent}
    (h : Trace.Run (Trace.Given Meets (Trace.ofFn step))
      (init bps_distribution_mode max_bps) es s) : s.failed = false ∧ s.bandwidth.Defined := by
  obtain ⟨hi, hb, hserver⟩ := h.invariant
    (I := fun s => Inv s ∧ s.bandwidth.Inv ∧ s.telemetryServerRaised = false)
    ⟨inv_init bps_distribution_mode max_bps, Bandwidth.inv_init bps_distribution_mode max_bps, rfl⟩
    (by
      rintro s e t ⟨hi, hb, hserver⟩ ⟨hm, hs⟩
      obtain ⟨bs, hr⟩ := refines_step hi hs
      refine ⟨inv_step hi hs, (hr.given hm).invariant hb fun _ _ _ hi h => ?_, ?_⟩
      · exact Bandwidth.inv_step hi h.1 h.2
      · rw [server_step hs, hserver, hm.1]
        rfl)
  refine ⟨?_, hb.defined⟩
  rw [Bool.eq_false_iff]
  intro hf
  rcases (failed_iff hi).mp hf with hended | hserver'
  · have hraised := hi.raised
    rw [if_pos hended] at hraised
    exact hb.raised (by rw [hraised]; exact List.mem_singleton_self _)
  · rw [hserver] at hserver'
    cases hserver'

/-- A metric is discovered, and a maximum is read while its share is being set. -/
def roomForOne : List RunServerEvent :=
  [.metricIds ["temp"] ["temp"], .setmaxbps 20, .iterate, .getMaxBps,
    .beginUpdate ⟨some 0, "temp", 10, none⟩]

instance (e : RunServerEvent) : Decidable (s.Meets e) :=
  inferInstanceAs (Decidable (_ ∧ ∀ e' ∈ s.call e, _))

theorem room_for_one_defined : ∃ s, Steps (init "fair" 10) roomForOne s ∧
    s.handler.maxBps = 20 ∧ s.failed = false ∧ s.bandwidth.Defined := by
  have hrun : ∃ s, Trace.exec (Trace.given Meets step) (init "fair" 10) roomForOne = some s ∧
      s.handler.maxBps = 20 := ⟨_, rfl, rfl⟩
  obtain ⟨s, hs, hmax⟩ := hrun
  have hgiven := Trace.run_of_exec_given hs
  exact ⟨s, hgiven.mono fun _ _ _ h => h.2, hmax, stays_defined hgiven⟩

/-- The telemetry server does not raise, and a maximum is not read before any metric is known,
unless it is the one in force. -/
def Survives (s : RunServer) : RunServerEvent → Prop
  | .getMaxBps => s.handler.metrics.keys ≠ [] ∨ s.setMaxBpsQueue.head? = some s.handler.maxBps
  | .serverRaises => False
  | _ => True

theorem not_raised (hi : Inv s) (hf : s.failed = false) : s.telemetryServerRaised = false := by
  rw [Bool.eq_false_iff] at hf ⊢
  exact fun hr => hf ((failed_iff hi).mpr (.inr hr))

theorem failed_step (hi : Inv s) (h : s.step e = some t) :
    t.failed = false ↔ s.failed = false ∧ s.Survives e := by
  have hi' := inv_step hi h
  have hserver := server_step h
  have hsame (hf : s.failed = false) (hq : t.handleSetMaxBpsQueue = s.handleSetMaxBpsQueue)
      (hr : t.telemetryServerRaised = s.telemetryServerRaised) (hs : s.Survives e) :
      t.failed = false ↔ s.failed = false ∧ s.Survives e := by
    refine iff_of_true ?_ ⟨hf, hs⟩
    rw [Bool.eq_false_iff] at hf ⊢
    rwa [Ne, failed_iff hi', hq, hr, ← failed_iff hi]
  cases step_cases h with
  | setbps m bps => exact (and_iff_left trivial).symm
  | setmaxbps bps => exact (and_iff_left trivial).symm
  | getBps hf _ _ _ => exact hsame hf rfl rfl trivial
  | @getMaxBps bps rest b hf hq hw hb =>
    have hserver : s.telemetryServerRaised = false := not_raised hi hf
    have hmax : s.handler.setMaxBps bps = b.handler := Option.some.inj (step_onHandler hb)
    have hcases := setMaxBps_cases s.handler bps
    have hkeys : s.Survives .getMaxBps ↔ s.handler.metrics.keys ≠ [] ∨ bps = s.handler.maxBps := by
      rw [Survives, hq]
      simp
    rw [Bool.eq_false_iff, Ne, failed_iff hi', hserver, hf, hkeys, eq_self, true_and]
    simp only [Bool.false_eq_true, or_false]
    rw [hmax] at hcases
    rcases hcases with ⟨hsame, hbps⟩ | ⟨hne, hk, _, _, hz⟩ | ⟨_, hk, _, hr⟩
    · exact iff_of_true (by simp [hsame, Place.after]) (.inr hbps)
    · exact iff_of_false (by simp [hz, Place.after]) (by simp [hk, hne])
    · have hplace : Place.after (b.handler.raised ≠ s.handler.raised)
          (b.handler.redistributions ≠ s.handler.redistributions) ≠ .ended := by
        rw [after_eq (by simpa using hr)]
        split <;> simp
      exact iff_of_true hplace (.inl hk)
  | metricIds hf _ _ => exact hsame hf rfl rfl trivial
  | syncRaises hf _ => exact hsame hf rfl rfl trivial
  | serverRaises _ =>
    refine iff_of_false ?_ fun hs => hs.2
    rw [Bool.eq_false_iff, Ne, failed_iff hi']
    exact not_not.mpr (.inr rfl)
  | beginUpdate hf _ => exact hsame hf rfl rfl trivial
  | resumeUpdate hf _ => exact hsame hf rfl rfl trivial
  | endSync hf _ _ => exact hsame hf rfl rfl trivial
  | endMax hf _ _ =>
    refine iff_of_true ?_ ⟨hf, trivial⟩
    rw [Bool.eq_false_iff, Ne, failed_iff hi']
    simpa using not_raised hi hf
  | timeout hf _ _ => exact hsame hf rfl rfl trivial
  | taskEnds hf _ => exact hsame hf rfl rfl trivial
  | iterate hf _ => exact hsame hf rfl rfl trivial
  | connected hf _ => exact hsame hf rfl rfl trivial

/-- The server is up exactly if `telemetry_server.run()` has not raised and no new maximum was read
before a metric was known. -/
theorem survives_iff {bps_distribution_mode : String} {max_bps : Int} {es : List RunServerEvent}
    (h : Steps (init bps_distribution_mode max_bps) es s) : s.failed = false ↔
      Trace.Run (Trace.Given Survives (Trace.ofFn step))
        (init bps_distribution_mode max_bps) es s :=
  (Trace.run_iff_given (I := Inv) (fun _ _ _ hi hs => inv_step hi hs)
    (fun _ _ _ hi hs => failed_step hi hs) h (inv_init bps_distribution_mode max_bps)).trans
    (and_iff_right rfl)

/-- `setmaxbps 5`, before any metric is known. -/
theorem max_before_metrics_ends_server :
    ∃ s, Steps (init "fair" 100000) [.setmaxbps 5, .getMaxBps] s ∧
      ¬ Trace.Run (Trace.Given Survives (Trace.ofFn step)) (init "fair" 100000)
        [.setmaxbps 5, .getMaxBps] s := by
  have hrun : ∃ s, Trace.exec step (init "fair" 100000) [.setmaxbps 5, .getMaxBps] = some s ∧
      s.failed = true := ⟨_, rfl, rfl⟩
  obtain ⟨s, hs, hf⟩ := hrun
  have hsteps := Trace.run_of_exec hs
  refine ⟨s, hsteps, fun h => ?_⟩
  rw [(survives_iff hsteps).mpr h] at hf
  cases hf

end RunServer

end Ground
end BvexLink
