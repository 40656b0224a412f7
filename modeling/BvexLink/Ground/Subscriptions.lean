import BvexLink.Ground.SyncMetricIds
import BvexLink.Lists.Update

/-!
# BvexLink.Ground.Subscriptions

What holds of the subscriptions whatever operations overlap.

* `Inv`: the two dicts have the same keys, each cancelled task has an update that waits for it, and
  so has each stored task that does not run.
* `updateBps_known`: what the first part of `update_bps` does.
* `step_cases`: what each event finds and leaves.
* `inv_step`, `inv_steps`: the invariant.
* `raised_updateBps`: an update of a metric never raises a `KeyError`.
-/

namespace BvexLink
namespace Ground

open ListUpdate

namespace SubscribeTask

@[simp] theorem cancel_metricId (t : SubscribeTask) : t.cancel.metricId = t.metricId := by
  unfold cancel
  split <;> rfl

theorem cancel_not_running (t : SubscribeTask) : t.cancel.status ≠ .running := by
  unfold cancel
  split
  · nofun
  · assumption

theorem cancel_of_not_running {t : SubscribeTask} (h : t.status ≠ .running) : t.cancel = t :=
  if_neg h

theorem finish_not_running (t : SubscribeTask) : t.finish.status ≠ .running := by
  intro h
  cases h

end SubscribeTask

namespace MetricSubscribeHandler

/-! ## What holds whatever overlaps -/

structure Inv (s : MetricSubscribeHandler) : Prop where
  keys : ∀ m, m ∈ s.metrics ↔ m ∈ s.metricSubscriptions
  stored : ∀ {m : String} {k : TaskId}, s.metricSubscriptions.lookup m = some k →
    ∃ t, s.subscribeTasks[k]? = some t ∧ t.metricId = m
  known : ∀ {k : TaskId} {t : SubscribeTask}, s.subscribeTasks[k]? = some t →
    t.metricId ∈ s.metrics
  old : ∀ u ∈ s.suspended, ∃ k t, u.oldTask = some k ∧ s.subscribeTasks[k]? = some t ∧
    t.metricId = u.metricId ∧ t.status ≠ .running
  awaited : ∀ {k : TaskId} {t : SubscribeTask}, s.subscribeTasks[k]? = some t →
    t.status = .cancelled → ∃ u ∈ s.suspended, u.oldTask = some k
  replaced : ∀ {m : String} {k : TaskId} {t : SubscribeTask},
    s.metricSubscriptions.lookup m = some k → s.subscribeTasks[k]? = some t →
    t.status ≠ .running → ∃ u ∈ s.suspended, u.metricId = m ∧ u.oldTask = some k

theorem inv_init (bps_distribution_mode : String) (max_bps : Int) :
    Inv (init bps_distribution_mode max_bps) where
  keys _ := Iff.rfl
  stored := nofun
  known := nofun
  old := nofun
  awaited := nofun
  replaced := nofun

theorem Inv.suspended_known {s : MetricSubscribeHandler} (hi : Inv s) {u : Update}
    (hu : u ∈ s.suspended) : u.metricId ∈ s.metrics := by
  obtain ⟨k, t, _, hk, ht, _⟩ := hi.old u hu
  rw [← ht]
  exact hi.known hk

theorem Inv.tasks {s : MetricSubscribeHandler} (hi : Inv s) :
    Stored SubscribeTask.metricId s.metricSubscriptions s.subscribeTasks := fun _ _ => hi.stored

theorem Inv.lookup {s : MetricSubscribeHandler} (hi : Inv s) {m : String} (hm : m ∈ s.metrics) :
    ∃ k t, s.metricSubscriptions.lookup m = some k ∧ s.subscribeTasks[k]? = some t ∧
      t.metricId = m :=
  hi.tasks.lookup ((hi.keys m).mp hm)

/-- The metrics, the tasks and the waiting updates are the same. -/
structure Same (s t : MetricSubscribeHandler) : Prop where
  metrics : t.metrics = s.metrics
  subscriptions : t.metricSubscriptions = s.metricSubscriptions
  tasks : t.subscribeTasks = s.subscribeTasks
  suspended : t.suspended = s.suspended

theorem Inv.same {s t : MetricSubscribeHandler} (hi : Inv s) (h : Same s t) : Inv t := by
  constructor
  · rw [h.metrics, h.subscriptions]
    exact hi.keys
  · rw [h.subscriptions, h.tasks]
    exact hi.stored
  · rw [h.metrics, h.tasks]
    exact hi.known
  · rw [h.suspended, h.tasks]
    exact hi.old
  · rw [h.suspended, h.tasks]
    exact hi.awaited
  · rw [h.suspended, h.subscriptions, h.tasks]
    exact hi.replaced

/-- A task is created and stored for `m`; the updates that go have waited for an old one of `m`. -/
theorem Inv.create {s t : MetricSubscribeHandler} {m : String} {b : Int} (hi : Inv s)
    (hm : ∀ m', m' ∈ t.metrics ↔ m' = m ∨ m' ∈ s.metrics)
    (hsub : t.metricSubscriptions = s.metricSubscriptions.insert m s.subscribeTasks.length)
    (htask : t.subscribeTasks = s.subscribeTasks ++ [⟨m, b, .running⟩])
    (hin : ∀ u ∈ t.suspended, u ∈ s.suspended)
    (hgone : ∀ u ∈ s.suspended, u ∈ t.suspended ∨
      u.metricId = m ∧ ∃ k ∈ u.oldTask, s.hasStatus k .finished) : Inv t := by
  constructor
  · intro m'
    rw [hm, hsub, AList.mem_insert, hi.keys]
  · intro m' k hk
    rw [hsub] at hk
    rw [htask]
    exact hi.tasks.snoc ⟨m, b, .running⟩ m' k hk
  · intro k task hk
    rw [htask, getElem?_snoc] at hk
    rw [hm]
    rcases hk with hk | ⟨_, rfl⟩
    · exact .inr (hi.known hk)
    · exact .inl rfl
  · intro u hu
    obtain ⟨k, task, huk, hk, hrest⟩ := hi.old u (hin u hu)
    exact ⟨k, task, huk, by rw [htask, getElem?_snoc]; exact .inl hk, hrest⟩
  · intro k task hk hc
    rw [htask, getElem?_snoc] at hk
    rcases hk with hk | ⟨_, rfl⟩
    · obtain ⟨u, hu, huk⟩ := hi.awaited hk hc
      rcases hgone u hu with hu' | ⟨_, k', huk', task', hk', hfin⟩
      · exact ⟨u, hu', huk⟩
      · rw [Option.mem_def, huk] at huk'
        cases huk'
        rw [Option.mem_def, hk] at hk'
        cases hk'
        rw [hc] at hfin
        cases hfin
    · cases hc
  · intro m' k task hk ht hr
    rw [hsub] at hk
    rw [htask, getElem?_snoc] at ht
    by_cases he : m' = m
    · subst he
      rw [AList.lookup_insert] at hk
      cases hk
      rcases ht with ht | ⟨_, rfl⟩
      · exact absurd (List.getElem?_eq_some_iff.mp ht).1 (Nat.lt_irrefl _)
      · exact absurd rfl hr
    · rw [AList.lookup_insert_ne he] at hk
      rcases ht with ht | ⟨hlen, _⟩
      · obtain ⟨u, hu, hum, huk⟩ := hi.replaced hk ht hr
        rcases hgone u hu with hu' | ⟨hum', _⟩
        · exact ⟨u, hu', hum, huk⟩
        · exact absurd (hum.symm.trans hum') he
      · obtain ⟨task', ht', _⟩ := hi.stored hk
        rw [hlen] at ht'
        exact absurd (List.getElem?_eq_some_iff.mp ht').1 (Nat.lt_irrefl _)

/-- The stored task of `u.metricId` is cancelled and `u` waits for it. -/
theorem Inv.cancelOld {s t : MetricSubscribeHandler} {u : Update} {k : TaskId} (hi : Inv s)
    (hm : ∀ m', m' ∈ t.metrics ↔ m' ∈ s.metrics)
    (hsub : t.metricSubscriptions = s.metricSubscriptions)
    (htask : t.subscribeTasks = s.subscribeTasks.modify k SubscribeTask.cancel)
    (hsus : t.suspended = s.suspended ++ [u]) (hu : u.oldTask = some k)
    (hk : s.metricSubscriptions.lookup u.metricId = some k) : Inv t := by
  obtain ⟨task, htk, htm⟩ := hi.stored hk
  constructor
  · intro m'
    rw [hm, hsub, hi.keys]
  · intro m' j hj
    rw [hsub] at hj
    rw [htask]
    exact hi.tasks.modify SubscribeTask.cancel_metricId k m' j hj
  · intro j b hj
    rw [htask, getElem?_modify_eq_some] at hj
    obtain ⟨a, ha, rfl⟩ := hj
    rw [hm]
    split
    · rw [SubscribeTask.cancel_metricId]
      exact hi.known ha
    · exact hi.known ha
  · intro v hv
    rw [hsus] at hv
    rcases List.mem_append.mp hv with hv | hv
    · obtain ⟨j, a, hvj, ha, ham, har⟩ := hi.old v hv
      refine ⟨j, a, hvj, ?_, ham, har⟩
      rw [htask, getElem?_modify_eq_some]
      refine ⟨a, ha, ?_⟩
      split
      · exact SubscribeTask.cancel_of_not_running har
      · rfl
    · rw [List.mem_singleton.mp hv]
      refine ⟨k, task.cancel, hu, ?_, ?_, task.cancel_not_running⟩
      · rw [htask, getElem?_modify_eq_some]
        exact ⟨task, htk, if_pos rfl⟩
      · rw [SubscribeTask.cancel_metricId, htm]
  · intro j b hj hb
    rw [htask, getElem?_modify_eq_some] at hj
    obtain ⟨a, ha, rfl⟩ := hj
    rw [hsus]
    by_cases hkj : k = j
    · exact ⟨u, List.mem_append_right _ (List.mem_singleton_self u), hkj ▸ hu⟩
    · rw [if_neg hkj] at hb
      obtain ⟨v, hv, hvj⟩ := hi.awaited ha hb
      exact ⟨v, List.mem_append_left _ hv, hvj⟩
  · intro m' j b hj hb hr
    rw [hsub] at hj
    rw [htask, getElem?_modify_eq_some] at hb
    obtain ⟨a, ha, rfl⟩ := hb
    rw [hsus]
    by_cases hkj : k = j
    · subst hkj
      obtain ⟨a', ha', ham'⟩ := hi.stored hj
      rw [htk] at ha'
      cases ha'
      exact ⟨u, List.mem_append_right _ (List.mem_singleton_self u), htm.symm.trans ham', hu⟩
    · rw [if_neg hkj] at hr
      obtain ⟨v, hv, hvm, hvj⟩ := hi.replaced hj ha hr
      exact ⟨v, List.mem_append_left _ hv, hvm, hvj⟩

theorem Inv.taskEnds {s t : MetricSubscribeHandler} {k : TaskId} (hi : Inv s)
    (hc : s.hasStatus k .cancelled) (hm : t.metrics = s.metrics)
    (hsub : t.metricSubscriptions = s.metricSubscriptions)
    (htask : t.subscribeTasks = s.subscribeTasks.modify k SubscribeTask.finish)
    (hsus : t.suspended = s.suspended) : Inv t := by
  obtain ⟨task, htk, hts⟩ := hc
  have hmetric (j : Nat) (a : SubscribeTask) :
      (if k = j then a.finish else a).metricId = a.metricId := by
    split <;> rfl
  have hstatus {j : Nat} {a : SubscribeTask} (ha : s.subscribeTasks[j]? = some a)
      (hr : (if k = j then a.finish else a).status ≠ .running) : a.status ≠ .running := by
    by_cases hkj : k = j
    · subst hkj
      rw [Option.mem_def, ha] at htk
      cases htk
      rw [hts]
      nofun
    · rwa [if_neg hkj] at hr
  constructor
  · rw [hm, hsub]
    exact hi.keys
  · intro m' j hj
    rw [hsub] at hj
    rw [htask]
    exact hi.tasks.modify (f := SubscribeTask.finish) (fun _ => rfl) k m' j hj
  · intro j b hj
    rw [htask, getElem?_modify_eq_some] at hj
    obtain ⟨a, ha, rfl⟩ := hj
    rw [hm, hmetric]
    exact hi.known ha
  · intro u hu
    rw [hsus] at hu
    obtain ⟨j, a, huj, ha, ham, har⟩ := hi.old u hu
    refine ⟨j, _, huj, by rw [htask, getElem?_modify_eq_some]; exact ⟨a, ha, rfl⟩, ?_, ?_⟩
    · rw [hmetric, ham]
    · split
      · nofun
      · exact har
  · intro j b hj hb
    rw [htask, getElem?_modify_eq_some] at hj
    obtain ⟨a, ha, rfl⟩ := hj
    rw [hsus]
    by_cases hkj : k = j
    · rw [if_pos hkj] at hb
      cases hb
    · rw [if_neg hkj] at hb
      exact hi.awaited ha hb
  · intro m' j b hj hb hr
    rw [hsub] at hj
    rw [htask, getElem?_modify_eq_some] at hb
    obtain ⟨a, ha, rfl⟩ := hb
    rw [hsus]
    exact hi.replaced hj ha (hstatus ha hr)

/-! ## The waiting updates -/

theorem mem_suspended {s : MetricSubscribeHandler} {u : Update} :
    u ∈ s.suspended ↔ u ∈ s.updates ∧ u.oldTask.isSome = true := List.mem_filter

theorem same_redistribute (s : MetricSubscribeHandler) (sync : Bool) (rest : List String) :
    Same s (s.redistributeBpsFairly sync rest) := by
  unfold redistributeBpsFairly
  split
  · exact ⟨rfl, rfl, rfl, rfl⟩
  · refine ⟨rfl, rfl, rfl, ?_⟩
    rw [suspended, suspended, List.filter_append]
    refine (congrArg _ (List.filter_eq_nil_iff.mpr fun u hu => ?_)).trans (List.append_nil _)
    obtain ⟨m, _, rfl⟩ := List.mem_map.mp hu
    simp

theorem same_setMaxBps (s : MetricSubscribeHandler) (bps : Int) : Same s (s.setMaxBps bps) := by
  unfold setMaxBps
  split
  · obtain ⟨hm, hs, ht, hsus⟩ := same_redistribute { s with maxBps := bps } false []
    exact ⟨hm, hs, ht, hsus⟩
  · exact ⟨rfl, rfl, rfl, rfl⟩

theorem suspended_erase (s : MetricSubscribeHandler) (u : Update) :
    { s with updates := s.updates.erase u }.suspended = s.suspended.erase u :=
  List.erase_filter.symm

theorem same_begin (s : MetricSubscribeHandler) {u : Update} (hu : u.oldTask = none) :
    Same s { s with updates := s.updates.erase u } := by
  refine ⟨rfl, rfl, rfl, ?_⟩
  rw [suspended_erase]
  refine List.erase_of_not_mem fun h => ?_
  rw [mem_suspended, hu] at h
  exact absurd h.2 (by simp)

/-- A timeout takes only updates that have not begun. -/
theorem same_timeout (s : MetricSubscribeHandler) (r : Redistribution)
    (rs : List Redistribution) : Same s { s with
      redistributions := rs
      updates := s.updates.filter fun u => u.group ≠ some r.group ∨ u.oldTask ≠ none } := by
  refine ⟨rfl, rfl, rfl, ?_⟩
  rw [suspended, suspended, List.filter_filter]
  refine List.filter_congr fun u _ => ?_
  cases u.oldTask <;> simp

/-! ## Adding metrics -/

/-- The metrics `addMetrics` adds before it waits. -/
def adds (s : MetricSubscribeHandler) (rest : List String) : List String :=
  if s.bpsDistributionMode = "fair" then rest.take 1 else rest

theorem adds_sublist (s : MetricSubscribeHandler) (rest : List String) :
    (s.adds rest).Sublist rest := by
  rw [adds]
  split
  · exact List.take_sublist _ _
  · exact List.Sublist.refl _

theorem same_addMetrics (rest : List String) (s : MetricSubscribeHandler) :
    Same ((s.adds rest).foldl addMetric s) (addMetrics rest s) := by
  induction rest generalizing s with
  | nil =>
    rw [adds, List.take_nil, ite_self, addMetrics]
    exact ⟨rfl, rfl, rfl, rfl⟩
  | cons m rest ih =>
    rw [addMetrics]
    by_cases hf : s.bpsDistributionMode = "fair"
    · have hf' : (s.addMetric m).bpsDistributionMode = "fair" := hf
      rw [adds, if_pos hf]
      simp only [hf', if_true]
      exact same_redistribute (s.addMetric m) true rest
    · have hf' : ¬ (s.addMetric m).bpsDistributionMode = "fair" := hf
      have hrest := ih (s.addMetric m)
      rw [adds, if_neg hf'] at hrest
      rw [adds, if_neg hf]
      simp only [hf', if_false]
      exact hrest

theorem mem_addMetric {s : MetricSubscribeHandler} {m m' : String} :
    m' ∈ (s.addMetric m).metrics ↔ m' = m ∨ m' ∈ s.metrics := AList.mem_insert s.metrics

theorem inv_addMetric {s : MetricSubscribeHandler} (hi : Inv s) (m : String) :
    Inv (s.addMetric m) :=
  hi.create (fun _ => mem_addMetric) rfl rfl (fun _ hu => hu) fun _ hu => .inl hu

theorem inv_addMetrics {s : MetricSubscribeHandler} (hi : Inv s) (rest : List String) :
    Inv (addMetrics rest s) := by
  refine Inv.same ?_ (same_addMetrics rest s)
  induction s.adds rest generalizing s with
  | nil => exact hi
  | cons m ms ih => exact ih (inv_addMetric hi m)

theorem mem_addMetrics {s : MetricSubscribeHandler} {rest : List String} {m : String} :
    m ∈ (addMetrics rest s).metrics ↔ m ∈ s.metrics ∨ m ∈ s.adds rest := by
  rw [(same_addMetrics rest s).metrics]
  induction s.adds rest generalizing s with
  | nil => simp
  | cons m' ms ih =>
    rw [List.foldl_cons, ih, mem_addMetric, List.mem_cons]
    rw [or_assoc]
    exact or_left_comm

/-! ## One update -/

theorem hasStatus_iff {s : MetricSubscribeHandler} {k : TaskId} {t : SubscribeTask}
    (ht : s.subscribeTasks[k]? = some t) (status : TaskStatus) :
    s.hasStatus k status ↔ t.status = status := by
  simp [hasStatus, ht]

theorem hasStatus_cancel {s : MetricSubscribeHandler} {k : TaskId} {t : SubscribeTask}
    (ht : s.subscribeTasks[k]? = some t) :
    (s.cancel k).hasStatus k .finished ↔ t.status = .finished := by
  have hc : (s.cancel k).subscribeTasks[k]? = some t.cancel :=
    getElem?_modify_eq_some.mpr ⟨t, ht, if_pos rfl⟩
  rw [hasStatus_iff hc, SubscribeTask.cancel]
  split
  · rename_i hr
    simp [hr]
  · exact Iff.rfl

/-- What the first part of `update_bps` does to a known metric. -/
inductive Updated (s : MetricSubscribeHandler) (group : Option Nat) (m : String) (bps : Int)
    (k : TaskId) (t : SubscribeTask) (s' : MetricSubscribeHandler) : Prop where
  | waits : t.status ≠ .finished → s'.metrics = s.metrics.insert m bps →
      s'.metricSubscriptions = s.metricSubscriptions →
      s'.subscribeTasks = s.subscribeTasks.modify k SubscribeTask.cancel →
      s'.suspended = s.suspended ++ [⟨group, m, bps, some k⟩] → Updated s group m bps k t s'
  | creates : t.status = .finished → s'.metrics = s.metrics.insert m bps →
      s'.metricSubscriptions = s.metricSubscriptions.insert m s.subscribeTasks.length →
      s'.subscribeTasks = s.subscribeTasks ++ [⟨m, bps, .running⟩] →
      s'.suspended = s.suspended → Updated s group m bps k t s'

theorem updateBps_known {s : MetricSubscribeHandler} (hi : Inv s) (group : Option Nat)
    {m : String} (bps : Int) (hm : m ∈ s.metrics) : ∃ k t,
      s.metricSubscriptions.lookup m = some k ∧ s.subscribeTasks[k]? = some t ∧ t.metricId = m ∧
      Updated s group m bps k t (s.updateBps group m bps) := by
  obtain ⟨k, t, hk, ht, htm⟩ := hi.lookup hm
  refine ⟨k, t, hk, ht, htm, ?_⟩
  have hfin := hasStatus_cancel (s := { s with metrics := s.metrics.insert m bps }) ht
  simp only [updateBps, if_pos hm, hk]
  by_cases hs : t.status = .finished
  · have hfix : s.subscribeTasks.modify k SubscribeTask.cancel = s.subscribeTasks :=
      modify_of_fix ht (SubscribeTask.cancel_of_not_running (by rw [hs]; nofun))
    rw [if_pos (hfin.mpr hs)]
    refine .creates hs rfl ?_ ?_ rfl
    · simp only [subscribe, cancel, hfix]
    · simp only [subscribe, cancel, hfix]
  · rw [if_neg (fun h => hs (hfin.mp h))]
    refine .waits hs rfl rfl rfl ?_
    simp [suspended, cancel, List.filter_append]

theorem updateBps_unknown {s : MetricSubscribeHandler} (group : Option Nat) {m : String}
    (bps : Int) (hm : m ∉ s.metrics) : s.updateBps group m bps = s := if_neg hm

theorem mem_insert_known {d : AList fun _ : String => Int} {m : String} (hm : m ∈ d) (b : Int)
    (m' : String) : m' ∈ d.insert m b ↔ m' ∈ d := by
  rw [AList.mem_insert]
  refine ⟨?_, .inr⟩
  rintro (rfl | h)
  · exact hm
  · exact h

theorem inv_updateBps {s : MetricSubscribeHandler} (hi : Inv s) (group : Option Nat) (m : String)
    (bps : Int) : Inv (s.updateBps group m bps) := by
  by_cases hm : m ∈ s.metrics
  · obtain ⟨k, t, hk, ht, htm, hu⟩ := updateBps_known hi group bps hm
    cases hu with
    | waits _ hmet hsub htask hsus =>
      exact hi.cancelOld (fun m' => by rw [hmet, mem_insert_known hm]) hsub htask hsus rfl hk
    | creates _ hmet hsub htask hsus =>
      refine hi.create (fun m' => ?_) hsub htask (fun u hu => hsus ▸ hu) fun u hu => .inl ?_
      · rw [hmet, AList.mem_insert]
      · exact hsus ▸ hu
  · rw [updateBps_unknown group bps hm]
    exact hi

theorem mem_updateBps {s : MetricSubscribeHandler} (hi : Inv s) (group : Option Nat) (m : String)
    (bps : Int) (m' : String) : m' ∈ (s.updateBps group m bps).metrics ↔ m' ∈ s.metrics := by
  by_cases hm : m ∈ s.metrics
  · obtain ⟨k, t, _, _, _, hu⟩ := updateBps_known hi group bps hm
    cases hu with
    | waits _ hmet _ _ _ => rw [hmet, mem_insert_known hm]
    | creates _ hmet _ _ _ => rw [hmet, mem_insert_known hm]
  · rw [updateBps_unknown group bps hm]

theorem inv_resume {s : MetricSubscribeHandler} (hi : Inv s) {u : Update}
    (hu : u ∈ s.suspended) (hfin : ∃ k ∈ u.oldTask, s.hasStatus k .finished) :
    Inv ({ s with updates := s.updates.erase u }.subscribe u.metricId u.bps) := by
  have hm := hi.suspended_known hu
  refine hi.create (m := u.metricId) (b := u.bps) (fun m' => ?_) rfl rfl (fun v hv => ?_)
    fun v hv => ?_
  · constructor
    · exact .inr
    · rintro (rfl | h)
      · exact hm
      · exact h
  · exact List.mem_of_mem_erase ((suspended_erase s u) ▸ hv)
  · by_cases he : v = u
    · rw [he]
      exact .inr ⟨rfl, hfin⟩
    · refine .inl ?_
      show v ∈ { s with updates := s.updates.erase u }.suspended
      rw [suspended_erase]
      exact (List.mem_erase_of_ne he).mpr hv

/-! ## One step -/

/-- What each event finds and leaves. -/
inductive StepCase (s : MetricSubscribeHandler) : Event → MetricSubscribeHandler → Prop where
  | updateMetricIdList (latest_metric_ids new_metric_ids : List String) (updated : Bool) :
      new_metric_ids.Nodup → (∀ m ∈ new_metric_ids, m ∉ s.metrics) →
      StepCase s (.updateMetricIdList latest_metric_ids new_metric_ids)
        (addMetrics new_metric_ids { s with updated := updated })
  | updateBps (metric_id : String) (bps : Int) :
      StepCase s (.updateBps metric_id bps) (s.updateBps none metric_id bps)
  | setMaxBps (bps : Int) : StepCase s (.setMaxBps bps) (s.setMaxBps bps)
  | beginUpdate (u : Update) : u.oldTask = none → StepCase s (.beginUpdate u)
      ({ s with updates := s.updates.erase u }.updateBps u.group u.metricId u.bps)
  | resumeUpdate (u : Update) : u ∈ s.suspended → (∃ k ∈ u.oldTask, s.hasStatus k .finished) →
      StepCase s (.resumeUpdate u)
        ({ s with updates := s.updates.erase u }.subscribe u.metricId u.bps)
  | endGroup (r : Redistribution) : StepCase s (.endGroup r)
      (addMetrics r.rest { s with redistributions := s.redistributions.erase r })
  | timeout (r : Redistribution) : StepCase s (.timeout r) { s with
      redistributions := { r with rest := [] } :: s.redistributions.erase r
      updates := s.updates.filter fun u => u.group ≠ some r.group ∨ u.oldTask ≠ none }
  | taskEnds (k : TaskId) : s.hasStatus k .cancelled → StepCase s (.taskEnds k)
      { s with subscribeTasks := s.subscribeTasks.modify k SubscribeTask.finish }

theorem updateMetricIdList_eq (s : MetricSubscribeHandler) (new_metric_ids : List String) :
    ∃ updated, s.updateMetricIdList new_metric_ids =
      addMetrics new_metric_ids { s with updated := updated } := by
  unfold updateMetricIdList
  split
  · rename_i h
    exact ⟨s.updated, by rw [h]; rfl⟩
  · exact ⟨true, rfl⟩

theorem step_cases {s t : MetricSubscribeHandler} {e : Event} (h : s.step e = some t) :
    StepCase s e t := by
  cases e with
  | updateMetricIdList latest_metric_ids new_metric_ids =>
    simp only [step] at h
    split at h
    · rename_i hg
      cases h
      obtain ⟨updated, hu⟩ := updateMetricIdList_eq s new_metric_ids
      rw [hu]
      exact .updateMetricIdList _ _ updated hg.1 fun m hm => (hg.2.1 m hm).2
    · cases h
  | updateBps metric_id bps =>
    cases h
    exact .updateBps metric_id bps
  | setMaxBps bps =>
    cases h
    exact .setMaxBps bps
  | beginUpdate u =>
    simp only [step] at h
    split at h
    · rename_i hu
      cases h
      exact .beginUpdate u hu.2
    · cases h
  | resumeUpdate u =>
    simp only [step] at h
    split at h
    · rename_i hu
      cases h
      obtain ⟨hu, k, hk, hfin⟩ := hu
      exact .resumeUpdate u (mem_suspended.mpr ⟨hu, by rw [hk]; rfl⟩) ⟨k, hk, hfin⟩
    · cases h
  | endGroup r =>
    simp only [step] at h
    split at h <;> cases h
    exact .endGroup r
  | timeout r =>
    simp only [step] at h
    split at h <;> cases h
    exact .timeout r
  | taskEnds k =>
    simp only [step] at h
    split at h
    · rename_i hc
      cases h
      exact .taskEnds k hc
    · cases h

theorem same_updated (s : MetricSubscribeHandler) (updated : Bool) :
    Same s { s with updated := updated } := ⟨rfl, rfl, rfl, rfl⟩

theorem same_redistributions (s : MetricSubscribeHandler) (rs : List Redistribution) :
    Same s { s with redistributions := rs } := ⟨rfl, rfl, rfl, rfl⟩

theorem inv_step {s t : MetricSubscribeHandler} {e : Event} (hi : Inv s)
    (h : s.step e = some t) : Inv t := by
  cases step_cases h with
  | updateMetricIdList _ new_metric_ids updated _ _ =>
    exact inv_addMetrics (hi.same (same_updated s updated)) new_metric_ids
  | updateBps metric_id bps => exact inv_updateBps hi none metric_id bps
  | setMaxBps bps => exact hi.same (same_setMaxBps s bps)
  | beginUpdate u hu =>
    exact inv_updateBps (hi.same (same_begin s hu)) u.group u.metricId u.bps
  | resumeUpdate u hu hfin => exact inv_resume hi hu hfin
  | endGroup r => exact inv_addMetrics (hi.same (same_redistributions s _)) r.rest
  | timeout r => exact hi.same (same_timeout s r _)
  | taskEnds k hc => exact hi.taskEnds hc rfl rfl rfl rfl

theorem inv_steps {bps_distribution_mode : String} {max_bps : Int} {es : List Event}
    {s : MetricSubscribeHandler} (h : Steps (init bps_distribution_mode max_bps) es s) : Inv s :=
  h.invariant (inv_init bps_distribution_mode max_bps) fun _ _ _ hi hs => inv_step hi hs

/-! ## What is raised -/

theorem raised_redistribute (s : MetricSubscribeHandler) (sync : Bool) (rest : List String) :
    (s.redistributeBpsFairly sync rest).raised =
      if s.metrics.keys = [] then s.raised ++ [.zeroDivisionError] else s.raised := by
  unfold redistributeBpsFairly
  split
  · rename_i h
    rw [if_pos h]
    rfl
  · rename_i h
    rw [if_neg h]

/-- There is a metric to redistribute to. -/
theorem raised_addMetrics (rest : List String) (s : MetricSubscribeHandler) :
    (addMetrics rest s).raised = s.raised := by
  induction rest generalizing s with
  | nil => rfl
  | cons m rest ih =>
    have hkeys : (s.addMetric m).metrics.keys ≠ [] :=
      List.ne_nil_of_mem (AList.mem_keys.mp (mem_addMetric.mpr (.inl rfl)))
    simp only [addMetrics]
    split
    · rw [raised_redistribute, if_neg hkeys]
      rfl
    · exact ih (s.addMetric m)

/-- A known metric has a subscription. -/
theorem raised_updateBps {s : MetricSubscribeHandler} (hi : Inv s) (group : Option Nat)
    (m : String) (bps : Int) : (s.updateBps group m bps).raised = s.raised := by
  by_cases hm : m ∈ s.metrics
  · obtain ⟨k, t, hk, _, _⟩ := hi.lookup hm
    simp only [updateBps, if_pos hm, hk]
    split <;> rfl
  · rw [updateBps_unknown group bps hm]

end MetricSubscribeHandler

end Ground
end BvexLink
