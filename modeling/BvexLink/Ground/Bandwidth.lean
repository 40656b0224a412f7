import BvexLink.Ground.Additions
import BvexLink.Onboard.DownlinkLoop

/-!
# BvexLink.Ground.Bandwidth

The rates of `MetricSubscribeHandler` under the event loop: a task created in one iteration runs in
the next, in the order of creation, and `open_connection` takes an iteration at least, so a
`subscribe` task that is cancelled at once never sends its `Subscribe`.

`add_metric` creates its task with the rate `0`. The fair share that follows cancels it in time.

* `Meets`: discovery in mode `fair` with a share left for each metric, positive rates from the
  operator, and a maximum only once there are metrics.
* `effect_of_step`: what such a step leaves of the tasks and updates.
* `inv_step`: a task with no rate is about to be cancelled.
* `defined_steps`: no division by zero, on the ground and on board.
-/

namespace BvexLink
namespace Ground

open ListUpdate

namespace MetricSubscribeHandler

/-! ## The condition on a step -/

/-- One metric more still gets a share. -/
def RoomForOne (s : MetricSubscribeHandler) : Prop :=
  s.bpsDistributionMode = "fair" ∧ (s.metrics.keys.length + 1 : Int) ≤ s.maxBps

/-- What a discovery or an operator may ask for. -/
def Meets (s : MetricSubscribeHandler) : Event → Prop
  | .updateMetricIdList _ new_metric_ids => new_metric_ids = [] ∨ s.RoomForOne
  | .endGroup r => r.rest = [] ∨ s.RoomForOne
  | .setMaxBps bps => bps = s.maxBps ∨ s.metrics.keys ≠ [] ∧ (s.metrics.keys.length : Int) ≤ bps
  | .updateBps metric_id bps => metric_id ∉ s.metrics ∨ 0 < bps
  | _ => True

/-- `run_server` and `sync_metric_ids` begin an operation when their last one has ended, and a
timeout comes after the tasks of the iteration before have begun. -/
def Serial (s : MetricSubscribeHandler) : Event → Prop
  | .updateMetricIdList _ _ => ∀ r ∈ s.redistributions, r.sync = false
  | .updateBps _ _ => ∀ u ∈ s.updates, u.group ≠ none
  | .setMaxBps _ => ∀ r ∈ s.redistributions, r.sync = true
  | .timeout r => ∀ u ∈ s.updates, u.group = some r.group → u.oldTask ≠ none
  | _ => True

instance (s : MetricSubscribeHandler) (e : Event) : Decidable (s.Serial e) := by
  unfold Serial
  cases e <;> infer_instance

instance (s : MetricSubscribeHandler) : Decidable s.RoomForOne :=
  inferInstanceAs (Decidable (_ ∧ _))

instance (s : MetricSubscribeHandler) (e : Event) : Decidable (s.Meets e) := by
  unfold Meets
  cases e <;> infer_instance

/-! ## The fair share -/

def share (s : MetricSubscribeHandler) : Int := s.maxBps.fdiv s.metrics.keys.length

theorem share_pos {s : MetricSubscribeHandler} (hk : s.metrics.keys ≠ [])
    (h : (s.metrics.keys.length : Int) ≤ s.maxBps) : 0 < s.share := by
  have hpos : (0 : Int) < s.metrics.keys.length := by
    exact_mod_cast List.length_pos_iff.mpr hk
  rw [share, Int.fdiv_eq_ediv_of_nonneg _ hpos.le]
  have : 1 ≤ s.maxBps / (s.metrics.keys.length : Int) := by
    rw [Int.le_ediv_iff_mul_le hpos]
    omega
  omega

theorem redistribute_eq {s : MetricSubscribeHandler} (hk : s.metrics.keys ≠ []) (sync : Bool)
    (rest : List String) : s.redistributeBpsFairly sync rest =
      { s with
        groups := s.groups + 1
        updates := s.updates ++ s.metrics.keys.map fun m => ⟨some s.groups, m, s.share, none⟩
        redistributions := s.redistributions ++ [⟨s.groups, sync, rest⟩] } := by
  unfold redistributeBpsFairly
  split
  · rename_i h
    exact absurd h hk
  · rfl

theorem length_keys_addMetric (s : MetricSubscribeHandler) (m : String) :
    (s.addMetric m).metrics.keys.length ≤ s.metrics.keys.length + 1 := by
  rw [show (s.addMetric m).metrics = s.metrics.insert m 0 from rfl, AList.keys_insert,
    List.length_cons]
  have := List.length_erase_le (a := m) (l := s.metrics.keys)
  omega

theorem addMetrics_fair {s : MetricSubscribeHandler} (hf : s.bpsDistributionMode = "fair")
    (m : String) (rest : List String) :
    addMetrics (m :: rest) s = (s.addMetric m).redistributeBpsFairly true rest := if_pos hf

/-! ## What a step leaves -/

/-- The stored task of its metric, with no update of it waiting. -/
structure Doomed (s : MetricSubscribeHandler) (k : TaskId) (t : SubscribeTask) : Prop where
  stored : s.metricSubscriptions.lookup t.metricId = some k
  free : ∀ u ∈ s.suspended, u.metricId ≠ t.metricId

/-- Nothing has happened to the metric. -/
structure Untouched (s s' : MetricSubscribeHandler) (m : String) : Prop where
  stored : s'.metricSubscriptions.lookup m = s.metricSubscriptions.lookup m
  free : ∀ u ∈ s'.suspended, u.metricId = m → u ∈ s.suspended
  update : ∀ u ∈ s.updates, u.oldTask = none → u.metricId = m → u ∈ s'.updates

/-- An update of one of the groups that are new. -/
def NewGroup (s s' : MetricSubscribeHandler) (u : Update) : Prop :=
  ∃ g, u.group = some g ∧ s.groups ≤ g ∧ g < s'.groups

/-- Running with no rate. -/
def Zero (s : MetricSubscribeHandler) (k : TaskId) (t : SubscribeTask) : Prop :=
  s.subscribeTasks[k]? = some t ∧ t.status = .running ∧ t.bps ≤ 0

structure Effect (s s' : MetricSubscribeHandler) : Prop where
  groups : s.groups ≤ s'.groups
  tasks : s.subscribeTasks.length ≤ s'.subscribeTasks.length
  raised : s'.raised = s.raised
  bps : ∀ {k : TaskId} {t : SubscribeTask}, s.subscribeTasks[k]? = some t →
    ∃ t', s'.subscribeTasks[k]? = some t' ∧ t'.bps = t.bps
  updates : ∀ u ∈ s'.updates, u ∈ s.updates ∨ 0 < u.bps ∧ (u.oldTask = none → NewGroup s s' u)
  zero : ∀ {k : TaskId} {t : SubscribeTask}, Zero s' k t → Zero s k t ∧ Untouched s s' t.metricId ∨
    s.subscribeTasks.length ≤ k ∧ Doomed s' k t ∧
      ∃ u ∈ s'.updates, u.oldTask = none ∧ u.metricId = t.metricId ∧ NewGroup s s' u

variable {s s' : MetricSubscribeHandler}

theorem effect_redistribute (hk : s.metrics.keys ≠ [])
    (h : (s.metrics.keys.length : Int) ≤ s.maxBps) (sync : Bool) (rest : List String) :
    Effect s (s.redistributeBpsFairly sync rest) := by
  have hsame := same_redistribute s sync rest
  have hpos := share_pos hk h
  rw [redistribute_eq hk] at hsame ⊢
  refine ⟨Nat.le_succ _, le_refl _, rfl, fun ht => ⟨_, ht, rfl⟩, ?_, ?_⟩
  · intro u hu
    rcases List.mem_append.mp hu with hu | hu
    · exact .inl hu
    · obtain ⟨m, _, rfl⟩ := List.mem_map.mp hu
      exact .inr ⟨hpos, fun _ => ⟨s.groups, rfl, le_refl _, Nat.lt_succ_self _⟩⟩
  · intro k t hz
    refine .inl ⟨hz, rfl, fun u hu _ => ?_, fun u hu _ _ => List.mem_append_left _ hu⟩
    rw [hsame.suspended] at hu
    exact hu

theorem effect_addMetric {m : String} (hi : Inv s) (hm : m ∉ s.metrics) (hroom : s.RoomForOne)
    (rest : List String) : Effect s ((s.addMetric m).redistributeBpsFairly true rest) := by
  have hk := keys_addMetric_ne s m
  have hlen := length_keys_addMetric s m
  have hpos : 0 < (s.addMetric m).share := by
    refine share_pos hk (le_trans ?_ hroom.2)
    exact_mod_cast hlen
  have hmem : m ∈ (s.addMetric m).metrics.keys := AList.mem_keys.mp (mem_addMetric.mpr (.inl rfl))
  have hsus := (same_redistribute (s.addMetric m) true rest).suspended
  rw [redistribute_eq hk] at hsus ⊢
  have hsus : suspended _ = s.suspended := hsus
  refine ⟨Nat.le_succ _, by simp [addMetric, subscribe], rfl, ?_, ?_, ?_⟩
  · intro k t ht
    exact ⟨t, getElem?_snoc.mpr (.inl ht), rfl⟩
  · intro u hu
    rcases List.mem_append.mp hu with hu | hu
    · exact .inl hu
    · obtain ⟨m', _, rfl⟩ := List.mem_map.mp hu
      exact .inr ⟨hpos, fun _ => ⟨s.groups, rfl, le_refl _, Nat.lt_succ_self _⟩⟩
  · rintro k t ⟨ht, hr, hb⟩
    rcases getElem?_snoc.mp ht with ht | ⟨hkk, htt⟩
    · have hne : t.metricId ≠ m := by
        intro h
        exact hm (h ▸ hi.known ht)
      refine .inl ⟨⟨ht, hr, hb⟩, AList.lookup_insert_ne hne, fun u hu _ => ?_,
        fun u hu _ _ => List.mem_append_left _ hu⟩
      rw [hsus] at hu
      exact hu
    · subst htt
      have hkk : k = s.subscribeTasks.length := hkk
      refine .inr ⟨hkk.ge, ⟨?_, ?_⟩, ⟨some s.groups, m, (s.addMetric m).share, none⟩, ?_, rfl, rfl,
        s.groups, rfl, le_refl _, Nat.lt_succ_self _⟩
      · rw [hkk]
        exact AList.lookup_insert _
      · intro u hu h
        have h : u.metricId = m := h
        rw [hsus] at hu
        exact hm (h ▸ hi.suspended_known hu)
      · exact List.mem_append_right _ (List.mem_map.mpr ⟨m, hmem, rfl⟩)

@[simp] theorem cancel_bps (t : SubscribeTask) : t.cancel.bps = t.bps := by
  rw [SubscribeTask.cancel]
  split <;> rfl

@[simp] theorem groups_updateBps (s : MetricSubscribeHandler) (group : Option Nat) (m : String)
    (bps : Int) : (s.updateBps group m bps).groups = s.groups := by
  simp only [updateBps]
  split
  · split
    · rfl
    · split <;> rfl
  · rfl

/-- An update that has begun waits for a task. -/
theorem updates_updateBps (s : MetricSubscribeHandler) (group : Option Nat) (m : String) (bps : Int) :
    ∃ us, (s.updateBps group m bps).updates = s.updates ++ us ∧
      ∀ u ∈ us, u.bps = bps ∧ u.oldTask ≠ none := by
  simp only [updateBps]
  split
  · split
    · exact ⟨[], by simp [raise], by simp⟩
    · split
      · exact ⟨[], by simp [subscribe, cancel], by simp⟩
      · refine ⟨_, rfl, fun u hu => ?_⟩
        rw [List.mem_singleton.mp hu]
        exact ⟨rfl, by simp⟩
  · exact ⟨[], by simp, by simp⟩

theorem mem_suspended_of_subset {us : List Update} (hus : ∀ u ∈ us, u ∈ s.updates) {u : Update}
    (hu : u ∈ { s with updates := us }.suspended) : u ∈ s.suspended := by
  obtain ⟨hmem, ho⟩ := mem_suspended.mp hu
  exact mem_suspended.mpr ⟨hus u hmem, ho⟩

/-- The first part of `update_bps`, the update itself taken from the list where it is in it. A task
that it finds is cancelled, or another with a rate takes its place. -/
theorem effect_updateBps {us : List Update} (group : Option Nat) {m : String} {bps : Int}
    (hi : Inv { s with updates := us }) (hz : ∀ {k t}, Zero s k t → Doomed s k t)
    (hb : m ∉ s.metrics ∨ 0 < bps) (hkeys : ∀ m, m ∈ s.metrics ↔ m ∈ s.metricSubscriptions)
    (hus : ∀ u ∈ us, u ∈ s.updates) (hrest : ∀ u ∈ s.updates, u ∈ us ∨ u.metricId = m) :
    Effect s ({ s with updates := us }.updateBps group m bps) := by
  obtain ⟨new, hupdates, hnew⟩ := updates_updateBps { s with updates := us } group m bps
  have hgroups := groups_updateBps { s with updates := us } group m bps
  have hraised := raised_updateBps hi group m bps
  have hkeep : ∀ u ∈ s.updates, u.metricId ≠ m →
      u ∈ ({ s with updates := us }.updateBps group m bps).updates := by
    intro u hu hne
    rw [hupdates]
    exact List.mem_append_left _ ((hrest u hu).resolve_right hne)
  by_cases hm : m ∈ s.metrics
  · have hpos := hb.resolve_left (not_not.mpr hm)
    have hcases : ∀ u ∈ ({ s with updates := us }.updateBps group m bps).updates,
        u ∈ s.updates ∨ 0 < u.bps ∧ (u.oldTask = none →
          NewGroup s ({ s with updates := us }.updateBps group m bps) u) := by
      intro u hu
      rw [hupdates] at hu
      rcases List.mem_append.mp hu with hu | hu
      · exact .inl (hus u hu)
      · obtain ⟨hbps, ho⟩ := hnew u hu
        exact .inr ⟨hbps ▸ hpos, fun h => absurd h ho⟩
    obtain ⟨k, t, hk, ht, htm, hu⟩ := updateBps_known hi group bps hm
    have hother : ∀ {j a}, Zero s j a → j ≠ k → a.metricId ≠ m := by
      intro j a ha hj h
      have := (hz ha).stored
      rw [h] at this
      exact hj (Option.some.inj (this.symm.trans hk))
    generalize { s with updates := us }.updateBps group m bps = s' at *
    cases hu with
    | waits hs _ hsub htask hsus =>
      refine ⟨hgroups.ge, ?_, hraised, ?_, hcases, ?_⟩
      · rw [htask, List.length_modify]
      · intro j a ha
        refine ⟨_, htask ▸ getElem?_modify_eq_some.mpr ⟨a, ha, rfl⟩, ?_⟩
        split <;> simp
      · rintro j a ⟨ha, hr, hle⟩
        rw [htask] at ha
        obtain ⟨a', ha', hif⟩ := getElem?_modify_eq_some.mp ha
        by_cases hj : k = j
        · rw [if_pos hj] at hif
          rw [← hif] at hr
          exact absurd hr a'.cancel_not_running
        · rw [if_neg hj] at hif
          subst hif
          have hne := hother ⟨ha', hr, hle⟩ (Ne.symm hj)
          refine .inl ⟨⟨ha', hr, hle⟩, by rw [hsub], fun u hu hum => ?_,
            fun u hu _ hum => hkeep u hu (hum ▸ hne)⟩
          rw [hsus] at hu
          rcases List.mem_append.mp hu with hu | hu
          · exact mem_suspended_of_subset hus hu
          · rw [List.mem_singleton.mp hu] at hum
            exact absurd hum.symm hne
    | creates hs _ hsub htask hsus =>
      refine ⟨hgroups.ge, ?_, hraised, ?_, hcases, ?_⟩
      · rw [htask]
        simp
      · intro j a ha
        exact ⟨a, htask ▸ getElem?_snoc.mpr (.inl ha), rfl⟩
      · rintro j a ⟨ha, hr, hle⟩
        rw [htask] at ha
        rcases getElem?_snoc.mp ha with ha | ⟨_, rfl⟩
        · have hj : j ≠ k := by
            rintro rfl
            have : a = t := Option.some.inj (ha.symm.trans ht)
            rw [← this, hr] at hs
            cases hs
          have hne := hother ⟨ha, hr, hle⟩ hj
          refine .inl ⟨⟨ha, hr, hle⟩, by rw [hsub, AList.lookup_insert_ne hne], fun u hu _ => ?_,
            fun u hu _ hum => hkeep u hu (hum ▸ hne)⟩
          rw [hsus] at hu
          exact mem_suspended_of_subset hus hu
        · exact absurd hpos (not_lt.mpr hle)
  · rw [updateBps_unknown (s := { s with updates := us }) group bps hm]
    refine ⟨le_refl _, le_refl _, rfl, fun ht => ⟨_, ht, rfl⟩, fun u hu => .inl (hus u hu), ?_⟩
    intro k t hzt
    have hne : t.metricId ≠ m := by
      intro h
      refine hm ((hkeys m).mpr (AList.lookup_isSome.mp ?_))
      rw [← h, (hz hzt).stored]
      rfl
    exact .inl ⟨hzt, rfl, fun u hu _ => mem_suspended_of_subset hus hu,
      fun u hu _ hum => (hrest u hu).resolve_right (hum ▸ hne)⟩

theorem effect_resume {u : Update} (hu : u ∈ s.suspended) (hb : 0 < u.bps)
    (hz : ∀ {k t}, Zero s k t → Doomed s k t) :
    Effect s ({ s with updates := s.updates.erase u }.subscribe u.metricId u.bps) := by
  refine ⟨le_refl _, by simp [subscribe], rfl,
    fun ht => ⟨_, getElem?_snoc.mpr (.inl ht), rfl⟩,
    fun v hv => .inl (List.mem_of_mem_erase hv), ?_⟩
  rintro k t ⟨ht, hr, hle⟩
  rcases getElem?_snoc.mp ht with ht | ⟨_, rfl⟩
  · have hne : t.metricId ≠ u.metricId := Ne.symm ((hz ⟨ht, hr, hle⟩).free u hu)
    refine .inl ⟨⟨ht, hr, hle⟩, AList.lookup_insert_ne hne, fun v hv _ => ?_, fun v hv ho _ => ?_⟩
    · exact mem_suspended_of_subset (fun _ => List.mem_of_mem_erase) hv
    · refine (List.mem_erase_of_ne ?_).mpr hv
      rintro rfl
      have := (mem_suspended.mp hu).2
      rw [ho] at this
      cases this
  · exact absurd hb (not_lt.mpr hle)

theorem effect_timeout {r : Redistribution} (rs : List Redistribution)
    (h : ∀ u ∈ s.updates, u.group = some r.group → u.oldTask ≠ none) :
    Effect s { s with
      redistributions := rs
      updates := s.updates.filter fun u => u.group ≠ some r.group ∨ u.oldTask ≠ none } := by
  have hsame := same_timeout s r rs
  refine ⟨le_refl _, le_refl _, rfl, fun ht => ⟨_, ht, rfl⟩,
    fun u hu => .inl (List.mem_of_mem_filter hu), fun hzt => .inl ⟨hzt, rfl, fun u hu _ => ?_,
      fun u hu ho _ => List.mem_filter.mpr ⟨hu, ?_⟩⟩⟩
  · rw [hsame.suspended] at hu
    exact hu
  · simp only [decide_eq_true_eq]
    exact .inl fun hg => h u hu hg ho

theorem effect_taskEnds (s : MetricSubscribeHandler) (k : TaskId) :
    Effect s { s with subscribeTasks := s.subscribeTasks.modify k SubscribeTask.finish } := by
  refine ⟨le_refl _, by rw [List.length_modify], rfl, ?_, fun u hu => .inl hu, ?_⟩
  · intro j t ht
    refine ⟨_, getElem?_modify_eq_some.mpr ⟨t, ht, rfl⟩, ?_⟩
    split <;> rfl
  · rintro j t ⟨ht, hr, hle⟩
    obtain ⟨a, ha, hif⟩ := getElem?_modify_eq_some.mp ht
    by_cases hj : k = j
    · rw [if_pos hj] at hif
      rw [← hif] at hr
      exact absurd hr a.finish_not_running
    · rw [if_neg hj] at hif
      subst hif
      exact .inl ⟨⟨ha, hr, hle⟩, rfl, fun _ hu _ => hu, fun _ hu _ _ => hu⟩

/-! ## One step -/

/-- Every update has a rate. -/
def Positive (s : MetricSubscribeHandler) : Prop := ∀ u ∈ s.updates, 0 < u.bps

theorem effect_addMetrics (hi : Inv s) {ms : List String} (hms : ∀ m ∈ ms, m ∉ s.metrics)
    (hroom : ms = [] ∨ s.RoomForOne) : Effect s (addMetrics ms s) := by
  cases ms with
  | nil =>
    exact ⟨le_refl _, le_refl _, rfl, fun ht => ⟨_, ht, rfl⟩, fun u hu => .inl hu,
      fun hz => .inl ⟨hz, rfl, fun _ hu _ => hu, fun _ hu _ _ => hu⟩⟩
  | cons m rest =>
    have hroom := hroom.resolve_left (by simp)
    rw [addMetrics_fair hroom.1]
    exact effect_addMetric hi (hms m (by simp)) hroom rest

theorem Effect.frame {s₀ : MetricSubscribeHandler} (h : Effect s₀ s') (hg : s₀.groups = s.groups)
    (ht : s₀.subscribeTasks = s.subscribeTasks) (hr : s₀.raised = s.raised)
    (hu : s₀.updates = s.updates) (hs : s₀.metricSubscriptions = s.metricSubscriptions) :
    Effect s s' := by
  have hsus : s₀.suspended = s.suspended := by rw [suspended, suspended, hu]
  obtain ⟨h1, h2, h3, h4, h5, h6⟩ := h
  simp only [NewGroup, Zero, hg, ht, hr, hu] at h1 h2 h3 h4 h5 h6
  refine ⟨h1, h2, h3, h4, h5, fun hz => (h6 hz).imp_left fun h => ⟨h.1, ?_⟩⟩
  obtain ⟨hst, hfr, hup⟩ := h.2
  rw [hs] at hst
  rw [hsus] at hfr
  rw [hu] at hup
  exact ⟨hst, hfr, hup⟩

theorem effect_of_step {e : Event} (hi : Inv s) (hrest : Rests s) (hpos : Positive s)
    (hz : ∀ {k t}, Zero s k t → Doomed s k t) (hserial : s.Serial e) (hm : s.Meets e)
    (h : s.step e = some s') : Effect s s' := by
  cases step_cases h with
  | updateMetricIdList latest new updated hn hnew =>
    have hi' := hi.same (same_updated s updated)
    exact (effect_addMetrics hi' hnew hm).frame rfl rfl rfl rfl rfl
  | updateBps m bps =>
    exact effect_updateBps none hi hz hm hi.keys (fun _ h => h) fun _ h => .inl h
  | setMaxBps bps =>
    by_cases hb : bps = s.maxBps
    · rw [setMaxBps, if_neg (not_not.mpr hb)]
      exact @effect_addMetrics s hi [] (by simp) (.inl rfl)
    · obtain ⟨hk, hle⟩ := hm.resolve_left hb
      rw [setMaxBps, if_pos hb]
      exact (effect_redistribute (s := { s with maxBps := bps }) hk hle false []).frame
        rfl rfl rfl rfl rfl
  | beginUpdate u hu =>
    have hi' := hi.same (same_begin s hu)
    refine effect_updateBps u.group hi' hz (.inr (hpos u (step_beginUpdate h).1)) hi.keys
      (fun _ => List.mem_of_mem_erase) fun v hv => ?_
    by_cases hv' : v = u
    · exact .inr (by rw [hv'])
    · exact .inl ((List.mem_erase_of_ne hv').mpr hv)
  | resumeUpdate u hu _ => exact effect_resume hu (hpos u (mem_suspended.mp hu).1) hz
  | endGroup r =>
    have hi' := hi.same (same_redistributions s (s.redistributions.erase r))
    have hnew : ∀ m ∈ r.rest, m ∉ s.metrics := by
      intro m hmr
      exact (hrest.new r (step_endGroup h).1 (List.ne_nil_of_mem hmr)).2.2 m hmr
    exact (effect_addMetrics hi' hnew hm).frame rfl rfl rfl rfl rfl
  | timeout r => exact effect_timeout _ hserial
  | taskEnds k _ => exact effect_taskEnds s k

end MetricSubscribeHandler

/-! ## The event loop -/

/-- `tick` counts the iterations of the event loop; `taskTicks` and `groupTicks` are those in which
the tasks and the groups of updates were created. `issued` are the tasks that have written their
`Subscribe`. -/
structure Bandwidth where
  handler : MetricSubscribeHandler
  tick : Nat
  taskTicks : List Nat
  groupTicks : List Nat
  issued : List TaskId

inductive BandwidthEvent where
  | handler (e : MetricSubscribeHandler.Event)
  | iterate
  | connected (k : TaskId)

namespace Bandwidth

open MetricSubscribeHandler

def init (bps_distribution_mode : String) (max_bps : Int) : Bandwidth :=
  ⟨.init bps_distribution_mode max_bps, 0, [], [], []⟩

/-- What is created now is created in this iteration. -/
def stamp (ticks : List Nat) (n tick : Nat) : List Nat :=
  ticks ++ List.replicate (n - ticks.length) tick

def step (s : Bandwidth) : BandwidthEvent → Option Bandwidth
  | .handler e =>
    if s.handler.Serial e then
      (s.handler.step e).map fun handler => { s with
        handler := handler
        taskTicks := stamp s.taskTicks handler.subscribeTasks.length s.tick
        groupTicks := stamp s.groupTicks handler.groups s.tick }
    else none
  | .iterate =>
    -- what was created before this iteration has begun in it
    if ∀ u ∈ s.handler.updates, u.oldTask = none →
        ∃ g ∈ u.group, s.groupTicks[g]? = some s.tick then
      some { s with tick := s.tick + 1 }
    else none
  | .connected k =>
    -- begun in the iteration after its creation, and connected in a later one
    if s.handler.hasStatus k .running ∧ k ∉ s.issued ∧ ∃ t ∈ s.taskTicks[k]?, t + 2 ≤ s.tick then
      some { s with issued := s.issued ++ [k] }
    else none

abbrev Steps : Bandwidth → List BandwidthEvent → Bandwidth → Prop := Trace.Run (Trace.ofFn step)

def Meets (s : Bandwidth) : BandwidthEvent → Prop
  | .handler e => s.handler.Meets e
  | _ => True

instance (s : Bandwidth) (e : BandwidthEvent) : Decidable (s.Meets e) := by
  unfold Meets
  cases e <;> infer_instance

/-- No division by zero in the handler, and none in the loop on board of any `Subscribe` that was
sent; all of these ask for a rate. -/
structure Defined (s : Bandwidth) : Prop where
  handler : Raised.zeroDivisionError ∉ s.handler.raised
  issued : ∀ k ∈ s.issued, ∀ t ∈ s.handler.subscribeTasks[k]?,
    0 < t.bps ∧ ∀ bytes_sent, Onboard.pause t.bps bytes_sent ≠ none

structure Inv (s : Bandwidth) : Prop where
  handler : s.handler.Inv
  rests : s.handler.Rests
  raised : Raised.zeroDivisionError ∉ s.handler.raised
  taskTicks : s.taskTicks.length = s.handler.subscribeTasks.length
  groupTicks : s.groupTicks.length = s.handler.groups
  positive : s.handler.Positive
  recent : ∀ u ∈ s.handler.updates, u.oldTask = none →
    ∃ g τ, u.group = some g ∧ s.groupTicks[g]? = some τ ∧ s.tick ≤ τ + 1
  zero : ∀ {k : TaskId} {t : SubscribeTask}, s.handler.Zero k t → s.handler.Doomed k t ∧
    ∃ u ∈ s.handler.updates, u.oldTask = none ∧ u.metricId = t.metricId ∧
      ∃ g τ, u.group = some g ∧ s.groupTicks[g]? = some τ ∧ s.taskTicks[k]? = some τ
  issued : ∀ k ∈ s.issued, ∃ t, s.handler.subscribeTasks[k]? = some t ∧ 0 < t.bps

theorem inv_init (bps_distribution_mode : String) (max_bps : Int) :
    (init bps_distribution_mode max_bps).Inv where
  handler := MetricSubscribeHandler.inv_init bps_distribution_mode max_bps
  rests := rests_init bps_distribution_mode max_bps
  raised := nofun
  taskTicks := rfl
  groupTicks := rfl
  positive := nofun
  recent := nofun
  zero := by
    rintro k t ⟨h, _⟩
    cases h
  issued := nofun

theorem stamp_old {ticks : List Nat} {n tick i τ : Nat} (h : ticks[i]? = some τ) :
    (stamp ticks n tick)[i]? = some τ := by
  rw [stamp, List.getElem?_append_left (List.getElem?_eq_some_iff.mp h).1]
  exact h

theorem stamp_new {ticks : List Nat} {n tick i : Nat} (h : ticks.length ≤ i) (hi : i < n) :
    (stamp ticks n tick)[i]? = some tick := by
  rw [stamp, List.getElem?_append_right h, List.getElem?_replicate, if_pos (by omega)]

theorem length_stamp {ticks : List Nat} {n tick : Nat} (h : ticks.length ≤ n) :
    (stamp ticks n tick).length = n := by
  rw [stamp, List.length_append, List.length_replicate]
  omega

theorem inv_handler {s : Bandwidth} {e : Event} {handler : MetricSubscribeHandler} (hi : s.Inv)
    (hserial : s.handler.Serial e) (hm : s.handler.Meets e) (h : s.handler.step e = some handler) :
    Inv { s with
      handler := handler
      taskTicks := stamp s.taskTicks handler.subscribeTasks.length s.tick
      groupTicks := stamp s.groupTicks handler.groups s.tick } := by
  have he := effect_of_step hi.handler hi.rests hi.positive (fun hz => (hi.zero hz).1) hserial hm h
  have hrest : handler.Rests := by
    refine rests_step hi.handler hi.rests ?_ h
    rintro latest_metric_ids new_metric_ids rfl
    exact hserial
  have hnew : ∀ u, NewGroup s.handler handler u → ∃ g, u.group = some g ∧
      (stamp s.groupTicks handler.groups s.tick)[g]? = some s.tick := by
    rintro u ⟨g, hg, hle, hlt⟩
    exact ⟨g, hg, stamp_new (hi.groupTicks.trans_le hle) hlt⟩
  refine ⟨MetricSubscribeHandler.inv_step hi.handler h, hrest, ?_, ?_, ?_, ?_, ?_, ?_, ?_⟩
  · rw [he.raised]
    exact hi.raised
  · exact length_stamp (hi.taskTicks.trans_le he.tasks)
  · exact length_stamp (hi.groupTicks.trans_le he.groups)
  · intro u hu
    rcases he.updates u hu with hu | ⟨hb, _⟩
    · exact hi.positive u hu
    · exact hb
  · intro u hu ho
    rcases he.updates u hu with hu | ⟨_, hg⟩
    · obtain ⟨g, τ, hg, hτ, hle⟩ := hi.recent u hu ho
      exact ⟨g, τ, hg, stamp_old hτ, hle⟩
    · obtain ⟨g, hg, hτ⟩ := hnew u (hg ho)
      exact ⟨g, s.tick, hg, hτ, Nat.le_succ _⟩
  · intro k t hz
    rcases he.zero hz with ⟨hz', hun⟩ | ⟨hk, hd, u, hu, ho, hum, hg⟩
    · obtain ⟨hd, u, hu, ho, hum, g, τ, hg, hτ, hτ'⟩ := hi.zero hz'
      refine ⟨⟨hun.stored.trans hd.stored, fun v hv hvm => hd.free v (hun.free v hv hvm) hvm⟩,
        u, hun.update u hu ho hum, ho, hum, g, τ, hg, stamp_old hτ, stamp_old hτ'⟩
    · obtain ⟨g, hg, hτ⟩ := hnew u hg
      refine ⟨hd, u, hu, ho, hum, g, s.tick, hg, hτ, stamp_new (hi.taskTicks.trans_le hk) ?_⟩
      exact (List.getElem?_eq_some_iff.mp hz.1).1
  · intro k hk
    obtain ⟨t, ht, hb⟩ := hi.issued k hk
    obtain ⟨t', ht', hbps⟩ := he.bps ht
    exact ⟨t', ht', hbps ▸ hb⟩

/-- A task with no rate is cancelled before it is connected. -/
theorem inv_step {s t : Bandwidth} {e : BandwidthEvent} (hi : s.Inv) (hm : s.Meets e)
    (h : s.step e = some t) : t.Inv := by
  cases e with
  | handler e =>
    rw [step] at h
    split at h
    · rename_i hserial
      obtain ⟨handler, hs, rfl⟩ := Option.map_eq_some_iff.mp h
      exact inv_handler hi hserial hm hs
    · cases h
  | iterate =>
    rw [step] at h
    split at h
    · rename_i hall
      cases h
      refine ⟨hi.handler, hi.rests, hi.raised, hi.taskTicks, hi.groupTicks, hi.positive, ?_, hi.zero,
        hi.issued⟩
      intro u hu ho
      obtain ⟨g, hg, hτ⟩ := hall u hu ho
      exact ⟨g, s.tick, hg, hτ, le_refl _⟩
    · cases h
  | connected k =>
    rw [step] at h
    split at h
    · rename_i hc
      obtain ⟨⟨t, ht, hr⟩, _, τ, hτ, hle⟩ := hc
      cases h
      refine ⟨hi.handler, hi.rests, hi.raised, hi.taskTicks, hi.groupTicks, hi.positive, hi.recent,
        hi.zero, ?_⟩
      intro j hj
      rcases List.mem_append.mp hj with hj | hj
      · exact hi.issued j hj
      · rw [List.mem_singleton.mp hj]
        refine ⟨t, ht, ?_⟩
        by_contra hb
        obtain ⟨_, u, hu, ho, _, g, σ, hg, hσ, hσ'⟩ := hi.zero ⟨ht, hr, not_lt.mp hb⟩
        obtain ⟨g', σ', hg', hs', hle'⟩ := hi.recent u hu ho
        rw [hg] at hg'
        cases hg'
        rw [hσ] at hs'
        cases hs'
        rw [hσ'] at hτ
        cases hτ
        omega
    · cases h

theorem Inv.defined {s : Bandwidth} (hi : s.Inv) : s.Defined := by
  refine ⟨hi.raised, fun k hk t ht => ?_⟩
  obtain ⟨t', ht', hb⟩ := hi.issued k hk
  rw [Option.mem_def, ht'] at ht
  cases ht
  refine ⟨hb, fun n => ?_⟩
  rw [Onboard.pause, if_neg hb.ne']
  nofun

/-- Where discovery and the operator keep to the condition, nothing divides by zero: neither an
operation of the handler nor, on board, the loop of any `Subscribe` sent. -/
theorem defined_steps {bps_distribution_mode : String} {max_bps : Int} {es : List BandwidthEvent}
    {s : Bandwidth}
    (h : Trace.Run (Trace.Given Meets (Trace.ofFn step)) (init bps_distribution_mode max_bps) es s) :
    s.Defined :=
  (h.invariant (inv_init bps_distribution_mode max_bps) fun _ _ _ hi hs =>
    inv_step hi hs.1 hs.2).defined

def discovery : List BandwidthEvent :=
  [.handler (.updateMetricIdList ["temp"] ["temp"]), .iterate,
    .handler (.beginUpdate ⟨some 0, "temp", 10, none⟩), .handler (.taskEnds 0),
    .handler (.resumeUpdate ⟨some 0, "temp", 10, some 0⟩), .handler (.endGroup ⟨0, true, []⟩),
    .iterate, .iterate, .connected 1]

theorem discovery_defined : ∃ s, Steps (init "fair" 10) discovery s ∧ s.issued = [1] ∧ s.Defined := by
  have hrun : ∃ s, Trace.exec (Trace.given Meets step) (init "fair" 10) discovery = some s ∧
      s.issued = [1] := ⟨_, rfl, rfl⟩
  obtain ⟨s, hs, hissued⟩ := hrun
  have hgiven := Trace.run_of_exec_given hs
  exact ⟨s, hgiven.mono fun _ _ _ h => h.2, hissued, defined_steps hgiven⟩

/-- `setmaxbps 5`, before any metric is known. -/
theorem max_before_metrics : ¬ ∀ (bps_distribution_mode : String) (max_bps : Int)
    (es : List BandwidthEvent) (s : Bandwidth),
      Steps (init bps_distribution_mode max_bps) es s → s.Defined := by
  intro h
  have hrun : ∃ s, Trace.exec step (init "fair" 100000) [.handler (.setMaxBps 5)] = some s ∧
      s.handler.raised = [.zeroDivisionError] := ⟨_, rfl, rfl⟩
  obtain ⟨s, hs, hr⟩ := hrun
  have hd := (h _ _ _ s (Trace.run_of_exec hs)).handler
  rw [hr] at hd
  exact hd (List.mem_singleton_self _)

end Bandwidth

end Ground
end BvexLink
