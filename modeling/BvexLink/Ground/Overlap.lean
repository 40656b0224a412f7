import BvexLink.Ground.Subscriptions

/-!
# BvexLink.Ground.Overlap

How many subscriptions of a metric are live. An update cancels one `subscribe` task and creates one,
and between the two stands for it; two updates of a metric that wait at the same time have cancelled
the same task and create two.

* `weight`: the running tasks of a metric and the updates that wait; `tight_step` is when it stays
  at one.
* `Agree`: the tasks have the recorded bps.
* `one_subscription_iff`: one live subscription per metric, if and only if no two updates of a
  metric have overlapped and no known metric was added.
-/

namespace BvexLink
namespace Ground

open ListUpdate

namespace MetricSubscribeHandler

/-! ## The weight of a metric -/

/-- Its running tasks and the updates that wait and will create one each. -/
def weight (s : MetricSubscribeHandler) (m : String) : Nat :=
  (s.subscribeTasks.countP fun t => t.metricId = m ∧ t.status = .running) +
    s.suspended.countP fun u => u.metricId = m

theorem Same.weight {s t : MetricSubscribeHandler} (h : Same s t) (m : String) :
    t.weight m = s.weight m := by
  rw [MetricSubscribeHandler.weight, MetricSubscribeHandler.weight, h.tasks, h.suspended]

theorem weight_subscribe (s : MetricSubscribeHandler) (m : String) (bps : Int) (m' : String) :
    (s.subscribe m bps).weight m' = s.weight m' + [m].count m' := by
  have hsus : (s.subscribe m bps).suspended = s.suspended := rfl
  rw [weight, weight, hsus, subscribe, List.countP_append, List.countP_singleton,
    List.count_singleton]
  by_cases hm : m = m'
  · simp [hm]
    omega
  · simp [hm]

theorem weight_addMetrics (s : MetricSubscribeHandler) (rest : List String) (m : String) :
    (addMetrics rest s).weight m = s.weight m + (s.adds rest).count m := by
  rw [(same_addMetrics rest s).weight]
  induction s.adds rest generalizing s with
  | nil => rfl
  | cons m' ms ih =>
    have hone : (s.addMetric m').weight m = s.weight m + [m'].count m :=
      weight_subscribe { s with metrics := s.metrics.insert m' 0 } m' 0 m
    show _ = s.weight m + ([m'] ++ ms).count m
    rw [List.foldl_cons, ih, hone, List.count_append, Nat.add_assoc]

theorem weight_resume {s : MetricSubscribeHandler} {u : Update} (hu : u ∈ s.suspended)
    (m : String) : ({ s with updates := s.updates.erase u }.subscribe u.metricId u.bps).weight m =
      s.weight m := by
  have herase := countP_erase_add (p := fun v : Update => decide (v.metricId = m)) hu
  rw [weight_subscribe, weight, weight, suspended_erase, ← herase, List.count_singleton]
  by_cases hm : u.metricId = m
  · simp [hm]
    omega
  · simp [hm]

theorem weight_taskEnds {s : MetricSubscribeHandler} {k : TaskId}
    (hc : s.hasStatus k .cancelled) (m : String) :
    { s with subscribeTasks := s.subscribeTasks.modify k SubscribeTask.finish }.weight m =
      s.weight m := by
  obtain ⟨t, ht, hs⟩ := hc
  have hcount := countP_modify (f := SubscribeTask.finish)
    (p := fun t : SubscribeTask => decide (t.metricId = m ∧ t.status = .running)) ht
  simp only [SubscribeTask.finish, hs, reduceCtorEq, and_false, decide_false] at hcount
  exact congrArg (· + _) hcount

theorem countP_cancel {s : MetricSubscribeHandler} {k : TaskId} {t : SubscribeTask}
    (ht : s.subscribeTasks[k]? = some t) (m : String) :
    ((s.subscribeTasks.modify k SubscribeTask.cancel).countP fun t =>
        t.metricId = m ∧ t.status = .running) +
      (if t.metricId = m ∧ t.status = .running then 1 else 0) =
      s.subscribeTasks.countP fun t => t.metricId = m ∧ t.status = .running := by
  have hcount := countP_modify (f := SubscribeTask.cancel)
    (p := fun t : SubscribeTask => decide (t.metricId = m ∧ t.status = .running)) ht
  simpa [t.cancel_not_running] using hcount

/-- An update adds nothing if it finds the stored task running, else one. -/
theorem weight_updated {s s' : MetricSubscribeHandler} {group : Option Nat} {m : String}
    {bps : Int} {k : TaskId} {t : SubscribeTask} (ht : s.subscribeTasks[k]? = some t)
    (htm : t.metricId = m) (h : Updated s group m bps k t s') (m' : String) :
    s'.weight m' = s.weight m' + (if t.status = .running then [] else [m]).count m' := by
  cases h with
  | waits _ _ _ htask hsus =>
    have hcount := countP_cancel ht m'
    rw [weight, weight, htask, hsus, List.countP_append, List.countP_singleton, ← hcount, htm]
    -- the update counts for the task it has cancelled
    by_cases hs : t.status = .running
    · simp only [hs, and_true, decide_eq_true_eq, if_true, List.count_nil]
      omega
    · simp only [hs, and_false, decide_eq_true_eq, if_false, List.count_singleton, beq_iff_eq]
      omega
  | creates hs _ _ htask hsus =>
    have hr : t.status ≠ .running := by
      rw [hs]
      nofun
    rw [weight, weight, htask, hsus, List.countP_append, List.countP_singleton, if_neg hr]
    simp only [and_true, decide_eq_true_eq, List.count_singleton, beq_iff_eq]
    omega

theorem Inv.weight_unknown {s : MetricSubscribeHandler} (hi : Inv s) {m : String}
    (hm : m ∉ s.metrics) : s.weight m = 0 := by
  have htasks : (s.subscribeTasks.countP fun t => t.metricId = m ∧ t.status = .running) = 0 := by
    rw [List.countP_eq_zero]
    intro t ht
    obtain ⟨k, hk⟩ := List.mem_iff_getElem?.mp ht
    have htm : t.metricId ≠ m := fun h => hm (h ▸ hi.known hk)
    simp [htm]
  have hupdates : (s.suspended.countP fun u => u.metricId = m) = 0 := by
    rw [List.countP_eq_zero]
    intro u hu
    have hum : u.metricId ≠ m := fun h => hm (h ▸ hi.suspended_known hu)
    simp [hum]
  rw [weight, htasks, hupdates]

theorem Inv.weight_known {s : MetricSubscribeHandler} (hi : Inv s) {m : String}
    (hm : m ∈ s.metrics) : 0 < s.weight m := by
  obtain ⟨k, t, hk, ht, htm⟩ := hi.lookup hm
  by_cases hs : t.status = .running
  · have hpos : 0 < s.subscribeTasks.countP fun t => t.metricId = m ∧ t.status = .running :=
      List.countP_pos_iff.mpr ⟨t, List.mem_of_getElem? ht, by simp [htm, hs]⟩
    exact Nat.add_pos_left hpos _
  · obtain ⟨u, hu, hum, _⟩ := hi.replaced hk ht hs
    have hpos : 0 < s.suspended.countP fun u => u.metricId = m :=
      List.countP_pos_iff.mpr ⟨u, hu, by simp [hum]⟩
    exact Nat.add_pos_right _ hpos

/-! ## Overlaps -/

/-- No update of `m` waits for the task it has cancelled. -/
def Free (s : MetricSubscribeHandler) (m : String) : Prop := ∀ u ∈ s.suspended, u.metricId ≠ m

/-- No update begins while another one of its metric waits, and no known metric is added. -/
def Alone (s : MetricSubscribeHandler) : Event → Prop
  | .updateBps metric_id _ => s.Free metric_id
  | .beginUpdate u => s.Free u.metricId
  | .endGroup r => (s.adds r.rest).Nodup ∧ ∀ m ∈ s.adds r.rest, m ∉ s.metrics
  | _ => True

instance (s : MetricSubscribeHandler) (m : String) : Decidable (s.Free m) :=
  inferInstanceAs (Decidable (∀ u ∈ s.suspended, u.metricId ≠ m))

instance (s : MetricSubscribeHandler) (e : Event) : Decidable (s.Alone e) :=
  match e with
  | .updateBps metric_id _ => inferInstanceAs (Decidable (s.Free metric_id))
  | .beginUpdate u => inferInstanceAs (Decidable (s.Free u.metricId))
  | .endGroup r => inferInstanceAs
      (Decidable ((s.adds r.rest).Nodup ∧ ∀ m ∈ s.adds r.rest, m ∉ s.metrics))
  | .updateMetricIdList _ _ | .setMaxBps _ | .resumeUpdate _ | .timeout _ | .taskEnds _ =>
    inferInstanceAs (Decidable True)

def Tight (s : MetricSubscribeHandler) : Prop := ∀ m ∈ s.metrics, s.weight m = 1

theorem Same.tight {s t : MetricSubscribeHandler} (h : Same s t) : Tight t ↔ Tight s := by
  simp only [Tight, h.metrics, h.weight]

theorem Same.free {s t : MetricSubscribeHandler} (h : Same s t) (m : String) :
    Free t m ↔ Free s m := by
  rw [Free, Free, h.suspended]

/-- `ms` has come on top of the weights. -/
theorem tight_of_count {s t : MetricSubscribeHandler} (hi : Inv s) (ms : List String)
    (hw : ∀ m, t.weight m = s.weight m + ms.count m)
    (hm : ∀ m, m ∈ t.metrics ↔ m ∈ s.metrics ∨ m ∈ ms) :
    Tight t ↔ Tight s ∧ ms.Nodup ∧ ∀ m ∈ ms, m ∉ s.metrics := by
  constructor
  · intro ht
    refine ⟨fun m hs => ?_, List.nodup_iff_count_le_one.mpr fun m => ?_, fun m hms hs => ?_⟩
    · have h1 := ht m ((hm m).mpr (.inl hs))
      have h2 := hi.weight_known hs
      rw [hw] at h1
      omega
    · by_cases hms : m ∈ ms
      · have h1 := ht m ((hm m).mpr (.inr hms))
        rw [hw] at h1
        omega
      · rw [List.count_eq_zero.mpr hms]
        omega
    · have h1 := ht m ((hm m).mpr (.inl hs))
      have h2 := hi.weight_known hs
      have h3 := List.count_pos_iff.mpr hms
      rw [hw] at h1
      omega
  · rintro ⟨hs, hnodup, hnew⟩ m ht
    rw [hw]
    by_cases hms : m ∈ ms
    · rw [hi.weight_unknown (hnew m hms), List.count_eq_one_of_mem hnodup hms]
    · rw [hs m (((hm m).mp ht).resolve_right hms), List.count_eq_zero.mpr hms]

theorem tight_addMetrics {s : MetricSubscribeHandler} (hi : Inv s) (rest : List String) :
    Tight (addMetrics rest s) ↔
      Tight s ∧ (s.adds rest).Nodup ∧ ∀ m ∈ s.adds rest, m ∉ s.metrics :=
  tight_of_count hi (s.adds rest) (weight_addMetrics s rest) fun _ => mem_addMetrics

/-- An update keeps the weight of its metric at one if and only if it waits alone. -/
theorem tight_updateBps {s : MetricSubscribeHandler} (hi : Inv s) (group : Option Nat)
    (m : String) (bps : Int) : Tight (s.updateBps group m bps) ↔ Tight s ∧ s.Free m := by
  by_cases hm : m ∈ s.metrics
  · obtain ⟨k, t, hk, ht, htm, hu⟩ := updateBps_known hi group bps hm
    have hiff := tight_of_count hi (if t.status = .running then [] else [m])
      (weight_updated ht htm hu) fun m' => by
        rw [mem_updateBps hi]
        split
        · simp
        · rw [List.mem_singleton]
          exact ⟨.inl, fun h => h.elim id fun h => h ▸ hm⟩
    rw [hiff]
    refine and_congr_right fun hs => ?_
    by_cases hr : t.status = .running
    · rw [if_pos hr]
      refine ⟨fun _ u hu hum => ?_, fun _ => ⟨List.nodup_nil, nofun⟩⟩
      have hlive : 0 < s.subscribeTasks.countP fun t => t.metricId = m ∧ t.status = .running :=
        List.countP_pos_iff.mpr ⟨t, List.mem_of_getElem? ht, by simp [htm, hr]⟩
      have hwait : 0 < s.suspended.countP fun u => u.metricId = m :=
        List.countP_pos_iff.mpr ⟨u, hu, by simp [hum]⟩
      have hone := hs m hm
      rw [weight] at hone
      omega
    · rw [if_neg hr]
      constructor
      · rintro ⟨_, h⟩
        exact absurd hm (h m (List.mem_singleton_self m))
      · intro hf
        obtain ⟨u, hu, hum, _⟩ := hi.replaced hk ht hr
        exact absurd hum (hf u hu)
  · rw [updateBps_unknown group bps hm]
    refine ⟨fun hs => ⟨hs, fun u hu hum => ?_⟩, And.left⟩
    exact hm (hum ▸ hi.suspended_known hu)

theorem tight_step {s t : MetricSubscribeHandler} {e : Event} (hi : Inv s)
    (h : s.step e = some t) : Tight t ↔ Tight s ∧ s.Alone e := by
  cases step_cases h with
  | updateMetricIdList _ new_metric_ids updated hnodup hnew =>
    have hs := same_updated s updated
    have hsub := adds_sublist s new_metric_ids
    refine (tight_addMetrics (hi.same hs) new_metric_ids).trans ?_
    rw [hs.tight]
    refine and_congr_right fun _ => (iff_true_right trivial).mpr ?_
    exact ⟨hnodup.sublist hsub, fun m hm => hnew m (hsub.subset hm)⟩
  | updateBps metric_id bps => exact tight_updateBps hi none metric_id bps
  | setMaxBps bps => exact (same_setMaxBps s bps).tight.trans (and_iff_left trivial).symm
  | beginUpdate u hu =>
    have hs := same_begin s hu
    rw [tight_updateBps (hi.same hs), hs.tight, hs.free]
    exact Iff.rfl
  | resumeUpdate u hu _ =>
    refine Iff.trans ?_ (and_iff_left trivial).symm
    simp only [Tight, weight_resume hu]
    exact Iff.rfl
  | endGroup r =>
    have hs := same_redistributions s (s.redistributions.erase r)
    refine (tight_addMetrics (hi.same hs) r.rest).trans ?_
    rw [hs.tight]
    exact Iff.rfl
  | timeout r => exact (same_timeout s r _).tight.trans (and_iff_left trivial).symm
  | taskEnds k hc =>
    refine Iff.trans ?_ (and_iff_left trivial).symm
    simp only [Tight, weight_taskEnds hc]

/-- The weights of all metrics are one after a run if and only if they were and nothing has
overlapped. -/
theorem tight_run {s t : MetricSubscribeHandler} {es : List Event} (hi : Inv s)
    (h : Steps s es t) :
    Tight t ↔ Tight s ∧ Trace.Run (Trace.Given Alone (Trace.ofFn step)) s es t :=
  Trace.run_iff_given (fun _ _ _ => inv_step) (fun _ _ _ => tight_step) h hi

/-! ## The recorded bps -/

/-- What waits will create a task with the recorded bps, what runs was created with it. -/
structure Agree (s : MetricSubscribeHandler) : Prop where
  waiting : ∀ u ∈ s.suspended, s.metrics.lookup u.metricId = some u.bps
  running : ∀ {m : String} {k : TaskId} {t : SubscribeTask},
    s.metricSubscriptions.lookup m = some k → s.subscribeTasks[k]? = some t →
    t.status = .running → s.metrics.lookup m = some t.bps

theorem agree_init (bps_distribution_mode : String) (max_bps : Int) :
    Agree (init bps_distribution_mode max_bps) := ⟨nofun, nofun⟩

theorem Agree.same {s t : MetricSubscribeHandler} (ha : Agree s) (h : Same s t) : Agree t := by
  constructor
  · rw [h.suspended, h.metrics]
    exact ha.waiting
  · rw [h.subscriptions, h.tasks, h.metrics]
    exact ha.running

/-- A task is created for `m` with the recorded bps. -/
theorem Agree.create {s t : MetricSubscribeHandler} {m : String} {b : Int} (hi : Inv s)
    (ha : Agree s) (hrec : t.metrics.lookup m = some b)
    (hother : ∀ m', m' ≠ m → t.metrics.lookup m' = s.metrics.lookup m')
    (hsub : t.metricSubscriptions = s.metricSubscriptions.insert m s.subscribeTasks.length)
    (htask : t.subscribeTasks = s.subscribeTasks ++ [⟨m, b, .running⟩])
    (hwait : ∀ u ∈ t.suspended, t.metrics.lookup u.metricId = some u.bps) : Agree t := by
  refine ⟨hwait, fun {m' k task} hk ht hr => ?_⟩
  rw [hsub] at hk
  rw [htask, getElem?_snoc] at ht
  by_cases he : m' = m
  · subst he
    rw [AList.lookup_insert] at hk
    cases hk
    rcases ht with ht | ⟨_, rfl⟩
    · exact absurd (List.getElem?_eq_some_iff.mp ht).1 (Nat.lt_irrefl _)
    · exact hrec
  · rw [AList.lookup_insert_ne he] at hk
    rw [hother m' he]
    rcases ht with ht | ⟨hlen, _⟩
    · exact ha.running hk ht hr
    · obtain ⟨a, hka, _⟩ := hi.stored hk
      rw [hlen] at hka
      exact absurd (List.getElem?_eq_some_iff.mp hka).1 (Nat.lt_irrefl _)

/-- A task has stopped running. -/
theorem Agree.stop {s t : MetricSubscribeHandler} {f : SubscribeTask → SubscribeTask} {k : TaskId}
    (ha : Agree s) (hmet : t.metrics = s.metrics)
    (hsub : t.metricSubscriptions = s.metricSubscriptions)
    (htask : t.subscribeTasks = s.subscribeTasks.modify k f)
    (hf : ∀ t, (f t).status ≠ .running) (hsus : t.suspended = s.suspended) : Agree t := by
  constructor
  · rw [hsus, hmet]
    exact ha.waiting
  · intro m j b hj hb hr
    rw [hsub] at hj
    rw [htask, getElem?_modify_eq_some] at hb
    obtain ⟨a, hab, rfl⟩ := hb
    rw [hmet]
    by_cases hkj : k = j
    · rw [if_pos hkj] at hr
      exact absurd hr (hf a)
    · rw [if_neg hkj] at hr ⊢
      exact ha.running hj hab hr

theorem agree_addMetric {s : MetricSubscribeHandler} (hi : Inv s) (ha : Agree s) {m : String}
    (hm : m ∉ s.metrics) : Agree (s.addMetric m) := by
  have hother (m' : String) (h : m' ≠ m) :
      (s.addMetric m).metrics.lookup m' = s.metrics.lookup m' := AList.lookup_insert_ne h
  refine ha.create hi (AList.lookup_insert s.metrics) hother rfl rfl fun u hu => ?_
  have hum : u.metricId ≠ m := fun h => hm (h ▸ hi.suspended_known hu)
  rw [hother _ hum]
  exact ha.waiting u hu

theorem agree_foldl {s : MetricSubscribeHandler} (hi : Inv s) (ha : Agree s) {ms : List String}
    (hnodup : ms.Nodup) (hnew : ∀ m ∈ ms, m ∉ s.metrics) : Agree (ms.foldl addMetric s) := by
  induction ms generalizing s with
  | nil => exact ha
  | cons m ms ih =>
    obtain ⟨hm, hms⟩ := List.nodup_cons.mp hnodup
    have hone := agree_addMetric hi ha (hnew m (List.mem_cons_self ..))
    refine ih (inv_addMetric hi m) hone hms fun m' hm' => ?_
    rw [mem_addMetric]
    rintro (rfl | h)
    · exact hm hm'
    · exact hnew m' (List.mem_cons_of_mem _ hm') h

theorem agree_addMetrics {s : MetricSubscribeHandler} (hi : Inv s) (ha : Agree s)
    {rest : List String} (hnodup : (s.adds rest).Nodup) (hnew : ∀ m ∈ s.adds rest, m ∉ s.metrics) :
    Agree (addMetrics rest s) :=
  (agree_foldl hi ha hnodup hnew).same (same_addMetrics rest s)

theorem agree_updateBps {s : MetricSubscribeHandler} (hi : Inv s) (ha : Agree s)
    (group : Option Nat) {m : String} (bps : Int) (hf : s.Free m) :
    Agree (s.updateBps group m bps) := by
  by_cases hm : m ∈ s.metrics
  · obtain ⟨k, t, hk, ht, htm, hu⟩ := updateBps_known hi group bps hm
    cases hu with
    | waits _ hmet hsub htask hsus =>
      constructor
      · intro u hu
        rw [hsus] at hu
        rw [hmet]
        rcases List.mem_append.mp hu with hu | hu
        · rw [AList.lookup_insert_ne (hf u hu)]
          exact ha.waiting u hu
        · rw [List.mem_singleton.mp hu]
          exact AList.lookup_insert s.metrics
      · intro m' j b hj hb hr
        rw [hsub] at hj
        rw [htask, getElem?_modify_eq_some] at hb
        obtain ⟨a, hab, rfl⟩ := hb
        by_cases hkj : k = j
        · rw [if_pos hkj] at hr
          exact absurd hr a.cancel_not_running
        · rw [if_neg hkj] at hr ⊢
          have hne : m' ≠ m := by
            rintro rfl
            rw [hk] at hj
            exact hkj (Option.some.inj hj)
          rw [hmet, AList.lookup_insert_ne hne]
          exact ha.running hj hab hr
    | creates hs _ _ _ _ =>
      -- the stored task has ended, so an update waits for it
      obtain ⟨u, hu, hum, _⟩ := hi.replaced hk ht (by rw [hs]; nofun)
      exact absurd hum (hf u hu)
  · rw [updateBps_unknown group bps hm]
    exact ha

theorem agree_step {s t : MetricSubscribeHandler} {e : Event} (hi : Inv s) (ha : Agree s)
    (hal : s.Alone e) (h : s.step e = some t) : Agree t := by
  cases step_cases h with
  | updateMetricIdList _ new_metric_ids updated hnodup hnew =>
    have hs := same_updated s updated
    have hsub := adds_sublist s new_metric_ids
    exact agree_addMetrics (hi.same hs) (ha.same hs) (hnodup.sublist hsub) fun m hm =>
      hnew m (hsub.subset hm)
  | updateBps metric_id bps => exact agree_updateBps hi ha none bps hal
  | setMaxBps bps => exact ha.same (same_setMaxBps s bps)
  | beginUpdate u hu =>
    have hs := same_begin s hu
    exact agree_updateBps (hi.same hs) (ha.same hs) u.group u.bps ((hs.free _).mpr hal)
  | resumeUpdate u hu _ =>
    refine ha.create hi (ha.waiting u hu) (fun _ _ => rfl) rfl rfl fun v hv => ?_
    exact ha.waiting v (List.mem_of_mem_erase ((suspended_erase s u) ▸ hv))
  | endGroup r =>
    have hs := same_redistributions s (s.redistributions.erase r)
    exact agree_addMetrics (hi.same hs) (ha.same hs) hal.1 hal.2
  | timeout r => exact ha.same (same_timeout s r _)
  | taskEnds k _ => exact ha.stop rfl rfl rfl SubscribeTask.finish_not_running rfl

/-! ## One subscription a metric -/

/-- Each metric has one unfinished `subscribe` task, the stored one, and it was created with the
recorded bps. -/
structure OnePerMetric (s : MetricSubscribeHandler) : Prop where
  keys : ∀ m, m ∈ s.metrics ↔ m ∈ s.metricSubscriptions
  one : ∀ m bps, s.metrics.lookup m = some bps → ∃ k t,
    s.metricSubscriptions.lookup m = some k ∧ s.subscribeTasks[k]? = some t ∧ t.metricId = m ∧
    t.bps = bps ∧ t.status ≠ .finished ∧
    ∀ (j : TaskId) (t' : SubscribeTask), s.subscribeTasks[j]? = some t' → t'.metricId = m →
      t'.status ≠ .finished → j = k

theorem Quiescent.suspended {s : MetricSubscribeHandler} (hq : s.Quiescent) :
    s.suspended = [] := by
  rw [MetricSubscribeHandler.suspended, hq.1]
  rfl

/-- With nothing under way, what is not finished runs. -/
theorem Inv.unfinished {s : MetricSubscribeHandler} (hi : Inv s) (hq : s.Quiescent) {k : TaskId}
    {t : SubscribeTask} (ht : s.subscribeTasks[k]? = some t) :
    t.status ≠ .finished ↔ t.status = .running := by
  constructor
  · intro hf
    cases hs : t.status with
    | running => rfl
    | cancelled =>
      obtain ⟨u, hu, _⟩ := hi.awaited ht hs
      rw [hq.suspended] at hu
      cases hu
    | finished => exact absurd hs hf
  · intro hr
    rw [hr]
    nofun

theorem Quiescent.weight {s : MetricSubscribeHandler} (hq : s.Quiescent) (m : String) :
    s.weight m = s.subscribeTasks.countP fun t => t.metricId = m ∧ t.status = .running := by
  rw [MetricSubscribeHandler.weight, hq.suspended]
  rfl

theorem tight_of_onePerMetric {s : MetricSubscribeHandler} (hi : Inv s) (hq : s.Quiescent)
    (h : OnePerMetric s) : Tight s := by
  intro m hm
  refine Nat.le_antisymm ?_ (hi.weight_known hm)
  obtain ⟨bps, hb⟩ := Option.isSome_iff_exists.mp (AList.lookup_isSome.mpr hm)
  obtain ⟨k, t, _, _, _, _, _, huniq⟩ := h.one m bps hb
  rw [hq.weight, countP_le_one_iff]
  intro i j a b hia ha hjb hb
  simp only [decide_eq_true_eq] at ha hb
  rw [huniq i a hia ha.1 ((hi.unfinished hq hia).mpr ha.2),
    huniq j b hjb hb.1 ((hi.unfinished hq hjb).mpr hb.2)]

theorem onePerMetric_of_tight {s : MetricSubscribeHandler} (hi : Inv s) (ha : Agree s)
    (hq : s.Quiescent) (h : Tight s) : OnePerMetric s := by
  refine ⟨hi.keys, fun m bps hb => ?_⟩
  have hm : m ∈ s.metrics := AList.lookup_isSome.mp (by rw [hb]; rfl)
  obtain ⟨k, t, hk, ht, htm⟩ := hi.lookup hm
  have hr : t.status = .running := by
    by_contra hr
    obtain ⟨u, hu, _⟩ := hi.replaced hk ht hr
    rw [hq.suspended] at hu
    cases hu
  have hrec := (ha.running hk ht hr).symm.trans hb
  refine ⟨k, t, hk, ht, htm, Option.some.inj hrec, (hi.unfinished hq ht).mpr hr, ?_⟩
  intro j t' hj hm' hf
  have hone := h m hm
  rw [hq.weight] at hone
  refine countP_le_one_iff.mp (Nat.le_of_eq hone) j k t' t hj ?_ ht ?_
  · simp [hm', (hi.unfinished hq hj).mp hf]
  · simp [htm, hr]

/-- After a run with nothing under way each metric has one live subscription, with the recorded
bps, if and only if at every step of the run no two updates of a metric overlapped and no known
metric was added. -/
theorem one_subscription_iff {bps_distribution_mode : String} {max_bps : Int} {es : List Event}
    {s : MetricSubscribeHandler} (h : Steps (init bps_distribution_mode max_bps) es s)
    (hq : s.Quiescent) : OnePerMetric s ↔
      Trace.Run (Trace.Given Alone (Trace.ofFn step)) (init bps_distribution_mode max_bps) es s := by
  have hi := inv_steps h
  have htight := tight_run (inv_init bps_distribution_mode max_bps) h
  rw [and_iff_right (show Tight (init bps_distribution_mode max_bps) from nofun)] at htight
  constructor
  · intro hone
    exact htight.mp (tight_of_onePerMetric hi hq hone)
  · intro hrun
    have hagree : Inv s ∧ Agree s :=
      hrun.invariant (I := fun s => Inv s ∧ Agree s)
        ⟨inv_init bps_distribution_mode max_bps, agree_init bps_distribution_mode max_bps⟩
        fun _ _ _ hs hst => ⟨inv_step hs.1 hst.2, agree_step hs.1 hs.2 hst.1 hst.2⟩
    exact onePerMetric_of_tight hi hagree.2 hq (htight.mpr hrun)

/-- One metric, whose bps is set; then the maximum is. -/
def oneAfterTheOther : List Event :=
  [.updateMetricIdList ["temp"] ["temp"], .updateBps "temp" 5, .taskEnds 0,
    .resumeUpdate ⟨none, "temp", 5, some 0⟩, .setMaxBps 60, .beginUpdate ⟨some 0, "temp", 60, none⟩,
    .taskEnds 1, .resumeUpdate ⟨some 0, "temp", 60, some 1⟩, .endGroup ⟨0, false, []⟩]

/-- The maximum is set while the update of the metric waits. -/
def overlapping : List Event :=
  [.updateMetricIdList ["temp"] ["temp"], .updateBps "temp" 5, .setMaxBps 60,
    .beginUpdate ⟨some 0, "temp", 60, none⟩, .taskEnds 0, .resumeUpdate ⟨none, "temp", 5, some 0⟩,
    .resumeUpdate ⟨some 0, "temp", 60, some 0⟩, .endGroup ⟨0, false, []⟩]

theorem one_subscription_after_updates : ∃ s, Steps (init "manual" 100) oneAfterTheOther s ∧
    OnePerMetric s := by
  have hrun : ∃ s, Trace.exec (Trace.given Alone step) (init "manual" 100) oneAfterTheOther =
      some s ∧ s.Quiescent := ⟨_, rfl, rfl, rfl⟩
  obtain ⟨s, hs, hq⟩ := hrun
  have hgiven := Trace.run_of_exec_given hs
  have hsteps : Steps (init "manual" 100) oneAfterTheOther s := hgiven.mono fun _ _ _ h => h.2
  exact ⟨s, hsteps, (one_subscription_iff hsteps hq).mpr hgiven⟩

/-- The task of the first update runs on, and no dict holds it. -/
theorem overlap_leaks_subscription : ∃ s, Steps (init "manual" 100) overlapping s ∧
    s.Quiescent ∧ s.metricSubscriptions.lookup "temp" = some 2 ∧
    s.subscribeTasks = [⟨"temp", 0, .finished⟩, ⟨"temp", 5, .running⟩, ⟨"temp", 60, .running⟩] ∧
    ¬ OnePerMetric s := by
  have hrun : ∃ s, Trace.exec step (init "manual" 100) overlapping = some s ∧
      s.Quiescent ∧ s.metrics.lookup "temp" = some 60 ∧
      s.metricSubscriptions.lookup "temp" = some 2 ∧
      s.subscribeTasks = [⟨"temp", 0, .finished⟩, ⟨"temp", 5, .running⟩, ⟨"temp", 60, .running⟩] :=
    ⟨_, rfl, ⟨rfl, rfl⟩, rfl, rfl, rfl⟩
  obtain ⟨s, hs, hq, hm, hsub, htasks⟩ := hrun
  refine ⟨s, Trace.run_of_exec hs, hq, hsub, htasks, fun hone => ?_⟩
  obtain ⟨k, t, _, _, _, _, _, huniq⟩ := hone.one "temp" 60 hm
  have h1 := huniq 1 ⟨"temp", 5, .running⟩ (by rw [htasks]; rfl) rfl nofun
  have h2 := huniq 2 ⟨"temp", 60, .running⟩ (by rw [htasks]; rfl) rfl nofun
  exact absurd (h1.trans h2.symm) (by decide)

end MetricSubscribeHandler

end Ground
end BvexLink
