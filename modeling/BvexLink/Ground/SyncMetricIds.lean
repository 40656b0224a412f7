import BvexLink.Trace.Run

/-!
# BvexLink.Ground.SyncMetricIds

`MetricSubscribeHandler` of `sync_metric_ids.py`: its operations, cut where they wait, as one step
function on the handler, the operations under way and the `subscribe` tasks ever created.

A coroutine runs until it waits for something that is not there yet. `update_bps` waits for the
task it has cancelled, `redistribute_bps_fairly` for the task group of its updates. A `subscribe`
task ends only once it is cancelled, some steps later.
-/

namespace BvexLink
namespace Ground

abbrev TaskId := Nat

inductive TaskStatus where
  | running
  | cancelled
  | finished
  deriving DecidableEq

structure SubscribeTask where
  metricId : String
  bps : Int
  status : TaskStatus
  deriving DecidableEq

namespace SubscribeTask

/-- `cancel` does nothing to a task that has been cancelled before or is done. -/
def cancel (t : SubscribeTask) : SubscribeTask :=
  if t.status = .running then { t with status := .cancelled } else t

def finish (t : SubscribeTask) : SubscribeTask := { t with status := .finished }

end SubscribeTask

/-- An `update_bps` under way, in a task group or on its own: not begun yet, or at
`await old_task`. -/
structure Update where
  group : Option Nat
  metricId : String
  bps : Int
  oldTask : Option TaskId
  deriving DecidableEq

/-- A `redistribute_bps_fairly` that waits for its task group. `sync` if `update_metric_id_list` is
its caller, `rest` is then what that still has to add. -/
structure Redistribution where
  group : Nat
  sync : Bool
  rest : List String
  deriving DecidableEq

inductive Raised where
  | zeroDivisionError
  | keyError
  deriving DecidableEq

/-- `metrics` has the `bps` of each `MetricInfo`. The order of the two dicts is not kept. -/
structure MetricSubscribeHandler where
  bpsDistributionMode : String
  maxBps : Int
  metrics : AList fun _ : String => Int
  metricSubscriptions : AList fun _ : String => TaskId
  updated : Bool
  subscribeTasks : List SubscribeTask
  groups : Nat
  updates : List Update
  redistributions : List Redistribution
  raised : List Raised

namespace MetricSubscribeHandler

def init (bps_distribution_mode : String) (max_bps : Int) : MetricSubscribeHandler where
  bpsDistributionMode := bps_distribution_mode
  maxBps := max_bps
  metrics := ∅
  metricSubscriptions := ∅
  updated := false
  subscribeTasks := []
  groups := 0
  updates := []
  redistributions := []
  raised := []

variable (s : MetricSubscribeHandler)

def raise (e : Raised) : MetricSubscribeHandler := { s with raised := s.raised ++ [e] }

def cancel (k : TaskId) : MetricSubscribeHandler :=
  { s with subscribeTasks := s.subscribeTasks.modify k SubscribeTask.cancel }

def hasStatus (k : TaskId) (status : TaskStatus) : Prop :=
  ∃ t ∈ s.subscribeTasks[k]?, t.status = status

instance (k : TaskId) (status : TaskStatus) : Decidable (s.hasStatus k status) :=
  inferInstanceAs (Decidable (∃ t ∈ s.subscribeTasks[k]?, t.status = status))

def subscribe (metric_id : String) (bps : Int) : MetricSubscribeHandler :=
  { s with
    metricSubscriptions := s.metricSubscriptions.insert metric_id s.subscribeTasks.length
    subscribeTasks := s.subscribeTasks ++ [⟨metric_id, bps, .running⟩] }

/-- `add_metric` up to its test of the mode. -/
def addMetric (metric_id : String) : MetricSubscribeHandler :=
  { s with metrics := s.metrics.insert metric_id 0 }.subscribe metric_id 0

/-- The updates are tasks of a new group and have not begun. -/
def redistributeBpsFairly (sync : Bool) (rest : List String) : MetricSubscribeHandler :=
  match s.metrics.keys with
  | [] => s.raise .zeroDivisionError
  | metric_ids =>
    let bps_per_metric := s.maxBps.fdiv metric_ids.length
    { s with
      groups := s.groups + 1
      updates := s.updates ++ metric_ids.map fun m => ⟨some s.groups, m, bps_per_metric, none⟩
      redistributions := s.redistributions ++ [⟨s.groups, sync, rest⟩] }

/-- The loop of `update_metric_id_list`. In mode `fair` it waits after each metric. -/
def addMetrics : List String → MetricSubscribeHandler → MetricSubscribeHandler
  | [], s => s
  | metric_id :: rest, s =>
    let s := s.addMetric metric_id
    if s.bpsDistributionMode = "fair" then s.redistributeBpsFairly true rest
    else addMetrics rest s

/-- `update_metric_id_list`; `new_metric_ids` is the set difference in the order of its
iteration. -/
def updateMetricIdList (new_metric_ids : List String) : MetricSubscribeHandler :=
  if new_metric_ids = [] then s else addMetrics new_metric_ids { s with updated := true }

/-- `update_bps` up to its `await`, or to its end if it does not have to wait. -/
def updateBps (group : Option Nat) (metric_id : String) (bps : Int) : MetricSubscribeHandler :=
  if metric_id ∈ s.metrics then
    let s := { s with metrics := s.metrics.insert metric_id bps }
    match s.metricSubscriptions.lookup metric_id with
    | none => s.raise .keyError
    | some old_task =>
      let s := s.cancel old_task
      if s.hasStatus old_task .finished then s.subscribe metric_id bps
      else { s with updates := s.updates ++ [⟨group, metric_id, bps, some old_task⟩] }
  else s

def setMaxBps (bps : Int) : MetricSubscribeHandler :=
  if bps ≠ s.maxBps then { s with maxBps := bps }.redistributeBpsFairly false [] else s

/-- Equal updates are interchangeable, so an event names an update, not its place. `timeout` is that
of `sync_metric_ids`: the updates of its group that have not begun never do, the others go on,
since they catch the `CancelledError`. -/
inductive Event where
  | updateMetricIdList (latest_metric_ids new_metric_ids : List String)
  | updateBps (metric_id : String) (bps : Int)
  | setMaxBps (bps : Int)
  | beginUpdate (u : Update)
  | resumeUpdate (u : Update)
  | endGroup (r : Redistribution)
  | timeout (r : Redistribution)
  | taskEnds (k : TaskId)

def step : Event → Option MetricSubscribeHandler
  | .updateMetricIdList latest_metric_ids new_metric_ids =>
    if new_metric_ids.Nodup ∧ (∀ m ∈ new_metric_ids, m ∈ latest_metric_ids ∧ m ∉ s.metrics) ∧
        (∀ m ∈ latest_metric_ids, m ∈ s.metrics ∨ m ∈ new_metric_ids) then
      some (s.updateMetricIdList new_metric_ids)
    else none
  | .updateBps metric_id bps => some (s.updateBps none metric_id bps)
  | .setMaxBps bps => some (s.setMaxBps bps)
  | .beginUpdate u =>
    if u ∈ s.updates ∧ u.oldTask = none then
      some ({ s with updates := s.updates.erase u }.updateBps u.group u.metricId u.bps)
    else none
  | .resumeUpdate u =>
    if u ∈ s.updates ∧ ∃ k ∈ u.oldTask, s.hasStatus k .finished then
      some ({ s with updates := s.updates.erase u }.subscribe u.metricId u.bps)
    else none
  | .endGroup r =>
    if r ∈ s.redistributions ∧ ∀ u ∈ s.updates, u.group ≠ some r.group then
      some (addMetrics r.rest { s with redistributions := s.redistributions.erase r })
    else none
  | .timeout r =>
    if r ∈ s.redistributions ∧ r.sync = true then
      some { s with
        redistributions := { r with rest := [] } :: s.redistributions.erase r
        updates := s.updates.filter fun u => u.group ≠ some r.group ∨ u.oldTask ≠ none }
    else none
  | .taskEnds k =>
    if s.hasStatus k .cancelled then
      some { s with subscribeTasks := s.subscribeTasks.modify k SubscribeTask.finish }
    else none

abbrev Steps : MetricSubscribeHandler → List Event → MetricSubscribeHandler → Prop :=
  Trace.Run (Trace.ofFn step)

def Quiescent : Prop := s.updates = [] ∧ s.redistributions = []

/-- The updates that wait for the task they have cancelled. -/
def suspended : List Update := s.updates.filter fun u => u.oldTask.isSome

end MetricSubscribeHandler

end Ground
end BvexLink
