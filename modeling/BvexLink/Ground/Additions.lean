import BvexLink.Ground.Subscriptions

/-!
# BvexLink.Ground.Additions

What `update_metric_id_list` adds at once, and what is left to add when the updates of the metrics
it has added are done.

* `redistributions_addMetrics`: the redistribution that holds the rest.
* `Rests`, `rests_step`: the rest is new, and only one redistribution holds any.
* `covered_list`, `covered_step`: which metrics are known or still to be added.
* `mem_metrics_step`, `added_new`: the calls of `add_metric`, each for a metric not known before.
-/

namespace BvexLink
namespace Ground
namespace MetricSubscribeHandler

variable {s s' : MetricSubscribeHandler}

/-! ## What is added later -/

/-- The metrics `addMetrics` leaves for later. -/
def later (s : MetricSubscribeHandler) (rest : List String) : List String :=
  if s.bpsDistributionMode = "fair" then rest.tail else []

theorem adds_append_later (s : MetricSubscribeHandler) (rest : List String) :
    s.adds rest ++ s.later rest = rest := by
  rw [adds, later]
  split
  · cases rest <;> rfl
  · exact List.append_nil rest

theorem keys_addMetric_ne (s : MetricSubscribeHandler) (m : String) :
    (s.addMetric m).metrics.keys ≠ [] :=
  List.ne_nil_of_mem (AList.mem_keys.mp (mem_addMetric.mpr (.inl rfl)))

theorem redistributions_redistribute (hk : s.metrics.keys ≠ []) (sync : Bool)
    (rest : List String) : (s.redistributeBpsFairly sync rest).redistributions =
      s.redistributions ++ [⟨s.groups, sync, rest⟩] := by
  unfold redistributeBpsFairly
  split
  · rename_i h
    exact absurd h hk
  · rfl

/-- A redistribution that holds what is left, or none where nothing is. -/
theorem redistributions_addMetrics (rest : List String) (s : MetricSubscribeHandler) :
    ∃ rs, (addMetrics rest s).redistributions = s.redistributions ++ rs ∧
      (rs = [] ∧ s.later rest = [] ∨ rs = [⟨s.groups, true, s.later rest⟩]) := by
  induction rest generalizing s with
  | nil => exact ⟨[], by simp [addMetrics], .inl ⟨rfl, by simp [later]⟩⟩
  | cons m rest ih =>
    rw [addMetrics]
    by_cases hf : s.bpsDistributionMode = "fair"
    · have hf' : (s.addMetric m).bpsDistributionMode = "fair" := hf
      simp only [hf', if_true]
      refine ⟨[⟨s.groups, true, rest⟩], ?_, .inr (by rw [later, if_pos hf, List.tail_cons])⟩
      exact redistributions_redistribute (keys_addMetric_ne s m) true rest
    · have hf' : ¬ (s.addMetric m).bpsDistributionMode = "fair" := hf
      obtain ⟨rs, hrs, hcases⟩ := ih (s.addMetric m)
      rw [later, if_neg hf'] at hcases
      rw [later, if_neg hf]
      refine ⟨rs, ?_, hcases⟩
      simp only [hf', if_false]
      exact hrs

theorem redistributions_updateBps (s : MetricSubscribeHandler) (group : Option Nat) (m : String)
    (bps : Int) : (s.updateBps group m bps).redistributions = s.redistributions := by
  simp only [updateBps]
  split
  · split
    · rfl
    · split <;> rfl
  · rfl

/-! ## What is left to add -/

/-- What is left to add is new, and `sync_metric_ids` adds it. -/
structure Rests (s : MetricSubscribeHandler) : Prop where
  new : ∀ r ∈ s.redistributions, r.rest ≠ [] → r.sync = true ∧ r.rest.Nodup ∧
    ∀ m ∈ r.rest, m ∉ s.metrics
  one : (s.redistributions.filter (·.sync)).length ≤ 1

theorem rests_init (bps_distribution_mode : String) (max_bps : Int) :
    Rests (init bps_distribution_mode max_bps) :=
  ⟨nofun, by simp [init]⟩

theorem Rests.frame (h : Rests s) (hr : s'.redistributions = s.redistributions)
    (hm : ∀ m, m ∈ s'.metrics → m ∈ s.metrics) : Rests s' := by
  refine ⟨fun r hmem hne => ?_, by rw [hr]; exact h.one⟩
  rw [hr] at hmem
  obtain ⟨hs, hn, hnew⟩ := h.new r hmem hne
  exact ⟨hs, hn, fun m hmm hmet => hnew m hmm (hm m hmet)⟩

/-- A redistribution of no caller's. -/
theorem Rests.append (h : Rests s) {r : Redistribution} (hr : r.sync = false) (hrest : r.rest = [])
    (hs : s'.redistributions = s.redistributions ++ [r]) (hm : s'.metrics = s.metrics) :
    Rests s' := by
  constructor
  · intro r' hr' hne
    rw [hs] at hr'
    rw [hm]
    rcases List.mem_append.mp hr' with hr' | hr'
    · exact h.new r' hr' hne
    · rw [List.mem_singleton.mp hr'] at hne
      exact absurd hrest hne
  · rw [hs, List.filter_append]
    simpa [hr] using h.one

/-- New metrics are added, where nothing else is being added. -/
theorem rests_addMetrics {rest : List String}
    (hnone : ∀ r ∈ s.redistributions, r.sync = false ∧ r.rest = []) (hn : rest.Nodup)
    (hnew : ∀ m ∈ rest, m ∉ s.metrics) : Rests (addMetrics rest s) := by
  obtain ⟨rs, hrs, hcases⟩ := redistributions_addMetrics rest s
  have hnil : s.redistributions.filter (·.sync) = [] :=
    List.filter_eq_nil_iff.mpr fun r hr => by simp [(hnone r hr).1]
  rw [← adds_append_later s rest, List.nodup_append] at hn
  obtain ⟨_, hlater, hdisj⟩ := hn
  constructor
  · intro r hr hne
    rw [hrs] at hr
    rcases List.mem_append.mp hr with hr | hr
    · exact absurd (hnone r hr).2 hne
    · rcases hcases with ⟨rfl, _⟩ | rfl
      · cases hr
      · rw [List.mem_singleton.mp hr]
        refine ⟨rfl, hlater, fun m hm hmem => ?_⟩
        rcases mem_addMetrics.mp hmem with hmem | hmem
        · refine hnew m ?_ hmem
          rw [← adds_append_later s rest]
          exact List.mem_append_right _ hm
        · exact hdisj m hmem m hm rfl
  · rw [hrs, List.filter_append, hnil]
    rcases hcases with ⟨rfl, _⟩ | rfl <;> simp

/-- When the one that adds metrics is taken away, no other does. -/
theorem Rests.erase (h : Rests s) {r : Redistribution} (hr : r ∈ s.redistributions)
    (hs : r.sync = true) : ∀ r' ∈ s.redistributions.erase r, r'.sync = false ∧ r'.rest = [] := by
  have hlen : ((s.redistributions.erase r).filter (·.sync)).length = 0 := by
    have hmem : r ∈ s.redistributions.filter (·.sync) := List.mem_filter.mpr ⟨hr, hs⟩
    rw [← List.erase_filter, List.length_erase_of_mem hmem]
    have := h.one
    omega
  intro r' hr'
  have hs' : r'.sync = false := by
    simpa using List.filter_eq_nil_iff.mp (List.length_eq_zero_iff.mp hlen) r' hr'
  refine ⟨hs', ?_⟩
  by_contra hne
  rw [(h.new r' (List.mem_of_mem_erase hr') hne).1] at hs'
  cases hs'

theorem Rests.none (h : Rests s) (hs : ∀ r ∈ s.redistributions, r.sync = false) :
    ∀ r ∈ s.redistributions, r.sync = false ∧ r.rest = [] := by
  intro r hr
  refine ⟨hs r hr, ?_⟩
  by_contra hne
  have := (h.new r hr hne).1
  rw [hs r hr] at this
  cases this

theorem rests_endGroup (h : Rests s) {r : Redistribution} (hr : r ∈ s.redistributions) :
    Rests (addMetrics r.rest { s with redistributions := s.redistributions.erase r }) := by
  by_cases hne : r.rest = []
  · rw [hne]
    refine ⟨fun r' hr' => h.new r' (List.mem_of_mem_erase hr'), ?_⟩
    exact ((List.erase_sublist.filter _).length_le).trans h.one
  · obtain ⟨hs, hn, hnew⟩ := h.new r hr hne
    exact rests_addMetrics (h.erase hr hs) hn hnew

theorem rests_timeout (h : Rests s) {r : Redistribution} (hr : r ∈ s.redistributions)
    (hs : r.sync = true) {us : List Update} :
    Rests { s with redistributions := { r with rest := [] } :: s.redistributions.erase r, updates := us } := by
  have hnone := h.erase hr hs
  constructor
  · intro r' hr' hne
    rcases List.mem_cons.mp hr' with rfl | hr'
    · exact absurd rfl hne
    · exact absurd (hnone r' hr').2 hne
  · have hnil : (s.redistributions.erase r).filter (·.sync) = [] :=
      List.filter_eq_nil_iff.mpr fun r' hr' => by simp [(hnone r' hr').1]
    show ((_ :: s.redistributions.erase r).filter _).length ≤ 1
    rw [List.filter_cons, hnil]
    split <;> simp

theorem rests_setMaxBps (h : Rests s) (bps : Int) : Rests (s.setMaxBps bps) := by
  rw [setMaxBps]
  split
  · have hm := (same_redistribute { s with maxBps := bps } false []).metrics
    by_cases hk : s.metrics.keys = []
    · unfold redistributeBpsFairly
      simp only [hk]
      exact h.frame rfl fun _ hm => hm
    · exact h.append rfl rfl (redistributions_redistribute (s := { s with maxBps := bps }) hk false [])
        hm
  · exact h

theorem step_list {latest_metric_ids new_metric_ids : List String}
    (h : s.step (.updateMetricIdList latest_metric_ids new_metric_ids) = some s') :
    (∀ m ∈ new_metric_ids, m ∈ latest_metric_ids) ∧
      ∀ m ∈ latest_metric_ids, m ∈ s.metrics ∨ m ∈ new_metric_ids := by
  simp only [step] at h
  split at h
  · rename_i hg
    exact ⟨fun m hm => (hg.2.1 m hm).1, hg.2.2⟩
  · cases h

theorem step_beginUpdate {u : Update} (h : s.step (.beginUpdate u) = some s') :
    u ∈ s.updates ∧ u.oldTask = none := by
  simp only [step] at h
  split at h
  · assumption
  · cases h

theorem step_endGroup {r : Redistribution} (h : s.step (.endGroup r) = some s') :
    r ∈ s.redistributions ∧ ∀ u ∈ s.updates, u.group ≠ some r.group := by
  simp only [step] at h
  split at h
  · assumption
  · cases h

theorem step_timeout {r : Redistribution} (h : s.step (.timeout r) = some s') :
    r ∈ s.redistributions ∧ r.sync = true := by
  simp only [step] at h
  split at h
  · assumption
  · cases h

/-- `sync_metric_ids` takes a list when it is done with the last one. -/
theorem rests_step {e : Event} (hi : Inv s) (h : Rests s)
    (hsync : ∀ latest_metric_ids new_metric_ids,
      e = .updateMetricIdList latest_metric_ids new_metric_ids →
        ∀ r ∈ s.redistributions, r.sync = false)
    (hs : s.step e = some s') : Rests s' := by
  cases step_cases hs with
  | updateMetricIdList latest new updated hn hnew =>
    exact rests_addMetrics (s := { s with updated := updated }) (h.none (hsync latest new rfl)) hn hnew
  | updateBps m bps =>
    exact h.frame (redistributions_updateBps s none m bps) fun m' =>
      (mem_updateBps hi none m bps m').mp
  | setMaxBps bps => exact rests_setMaxBps h bps
  | beginUpdate u hu =>
    exact h.frame (redistributions_updateBps _ u.group u.metricId u.bps) fun m' =>
      (mem_updateBps (hi.same (same_begin s hu)) u.group u.metricId u.bps m').mp
  | resumeUpdate u _ _ => exact h.frame rfl fun _ hm => hm
  | endGroup r => exact rests_endGroup h (step_endGroup hs).1
  | timeout r =>
    obtain ⟨hr, hsync⟩ := step_timeout hs
    exact rests_timeout h hr hsync
  | taskEnds k _ => exact h.frame rfl fun _ hm => hm

/-- Only `sync_metric_ids` begins to add metrics. -/
theorem sync_step {e : Event} (h : Rests s) (hs : s.step e = some s')
    (hlist : ∀ latest_metric_ids new_metric_ids,
      e ≠ .updateMetricIdList latest_metric_ids new_metric_ids)
    (hsync : ∀ r ∈ s.redistributions, r.sync = false) :
    ∀ r ∈ s'.redistributions, r.sync = false := by
  cases step_cases hs with
  | updateMetricIdList latest new _ _ _ => exact absurd rfl (hlist latest new)
  | updateBps m bps =>
    rw [redistributions_updateBps]
    exact hsync
  | setMaxBps bps =>
    rw [setMaxBps]
    split
    · by_cases hk : s.metrics.keys = []
      · unfold redistributeBpsFairly
        simp only [hk]
        exact hsync
      · rw [redistributions_redistribute (s := { s with maxBps := bps }) hk]
        intro r hr
        rcases List.mem_append.mp hr with hr | hr
        · exact hsync r hr
        · rw [List.mem_singleton.mp hr]
    · exact hsync
  | beginUpdate u _ =>
    rw [redistributions_updateBps]
    exact hsync
  | endGroup r =>
    have hr := (step_endGroup hs).1
    rw [((h.none hsync) r hr).2]
    exact fun r' hr' => hsync r' (List.mem_of_mem_erase hr')
  | timeout r =>
    obtain ⟨hr, hs'⟩ := step_timeout hs
    rw [hsync r hr] at hs'
    cases hs'
  | _ => exact hsync

/-! ## What is known or still to be added -/

/-- `sync_metric_ids` has still to add it. -/
def Awaits (s : MetricSubscribeHandler) (m : String) : Prop :=
  ∃ r ∈ s.redistributions, m ∈ r.rest

def Covered (s : MetricSubscribeHandler) (m : String) : Prop := m ∈ s.metrics ∨ s.Awaits m

theorem Covered.congr (hm : ∀ m, m ∈ s'.metrics ↔ m ∈ s.metrics)
    (hr : s'.redistributions = s.redistributions) (m : String) : s'.Covered m ↔ s.Covered m := by
  rw [Covered, Covered, Awaits, Awaits, hm, hr]

theorem covered_addMetrics (rest : List String) (s : MetricSubscribeHandler) (m : String) :
    (addMetrics rest s).Covered m ↔ s.Covered m ∨ m ∈ rest := by
  obtain ⟨rs, hrs, hcases⟩ := redistributions_addMetrics rest s
  have hlater : (∃ r ∈ rs, m ∈ r.rest) ↔ m ∈ s.later rest := by
    rcases hcases with ⟨rfl, hl⟩ | rfl
    · simp [hl]
    · simp
  have hrest : m ∈ rest ↔ m ∈ s.adds rest ∨ m ∈ s.later rest := by
    rw [← List.mem_append, adds_append_later]
  have hmem : (∃ r ∈ s.redistributions ++ rs, m ∈ r.rest) ↔
      s.Awaits m ∨ ∃ r ∈ rs, m ∈ r.rest := by
    simp only [List.mem_append, or_and_right, exists_or, Awaits]
  rw [Covered, Awaits, hrs, hmem, hlater, hrest, mem_addMetrics, Covered]
  exact or_or_or_comm

theorem covered_endGroup {r : Redistribution} (hr : r ∈ s.redistributions) (m : String) :
    (addMetrics r.rest { s with redistributions := s.redistributions.erase r }).Covered m ↔
      s.Covered m := by
  rw [covered_addMetrics]
  have hsplit : s.Awaits m ↔ m ∈ r.rest ∨ ∃ r' ∈ s.redistributions.erase r, m ∈ r'.rest := by
    have hmem (r' : Redistribution) :
        r' ∈ s.redistributions ↔ r' = r ∨ r' ∈ s.redistributions.erase r := by
      rw [(List.perm_cons_erase hr).mem_iff, List.mem_cons]
    simp only [Awaits, hmem, or_and_right, exists_or, exists_eq_left]
  rw [Covered, Covered, hsplit, or_assoc]
  exact or_congr_right or_comm

theorem covered_setMaxBps (s : MetricSubscribeHandler) (bps : Int) (m : String) :
    (s.setMaxBps bps).Covered m ↔ s.Covered m := by
  have hm : (s.setMaxBps bps).metrics = s.metrics := (same_setMaxBps s bps).metrics
  rw [Covered, Covered, hm, setMaxBps]
  split
  · by_cases hk : s.metrics.keys = []
    · unfold redistributeBpsFairly
      simp only [hk]
      exact Iff.rfl
    · have hr := redistributions_redistribute (s := { s with maxBps := bps }) hk false []
      rw [Awaits, hr]
      simp [Awaits]
  · exact Iff.rfl

/-- A timeout takes away what was still to be added. -/
theorem covered_timeout {r : Redistribution} (hrest : Rests s) (h : s.step (.timeout r) = some s')
    (m : String) : s'.Covered m ↔ m ∈ s.metrics := by
  obtain ⟨hr, hs⟩ := step_timeout h
  have hnone := hrest.erase hr hs
  cases step_cases h with
  | timeout =>
    refine ⟨?_, .inl⟩
    rintro (hm | ⟨r', hr', hm⟩)
    · exact hm
    · rcases List.mem_cons.mp hr' with rfl | hr'
      · cases hm
      · rw [(hnone r' hr').2] at hm
        cases hm

theorem covered_list {latest_metric_ids new_metric_ids : List String}
    (h : s.step (.updateMetricIdList latest_metric_ids new_metric_ids) = some s') (m : String) :
    s'.Covered m ↔ s.Covered m ∨ m ∈ new_metric_ids := by
  cases step_cases h with
  | updateMetricIdList _ _ updated _ _ => exact covered_addMetrics new_metric_ids _ m

/-- Only a new list adds to what is covered, only a timeout takes from it. -/
theorem covered_step {e : Event} (hi : Inv s) (h : s.step e = some s')
    (hlist : ∀ latest_metric_ids new_metric_ids,
      e ≠ .updateMetricIdList latest_metric_ids new_metric_ids)
    (htimeout : ∀ r, e ≠ .timeout r) (m : String) : s'.Covered m ↔ s.Covered m := by
  cases step_cases h with
  | updateMetricIdList latest new updated _ _ => exact absurd rfl (hlist latest new)
  | updateBps m' bps =>
    exact Covered.congr (mem_updateBps hi none m' bps) (redistributions_updateBps s none m' bps) m
  | setMaxBps bps => exact covered_setMaxBps s bps m
  | beginUpdate u hu =>
    exact Covered.congr (mem_updateBps (hi.same (same_begin s hu)) u.group u.metricId u.bps)
      (redistributions_updateBps _ u.group u.metricId u.bps) m
  | resumeUpdate u _ _ => exact Covered.congr (fun _ => Iff.rfl) rfl m
  | endGroup r => exact covered_endGroup (step_endGroup h).1 m
  | timeout r => exact absurd rfl (htimeout r)
  | taskEnds k _ => exact Covered.congr (fun _ => Iff.rfl) rfl m

/-! ## The calls of `add_metric` -/

/-- The metrics for which a step calls `add_metric`. -/
def added (s : MetricSubscribeHandler) : Event → List String
  | .updateMetricIdList _ new_metric_ids => s.adds new_metric_ids
  | .endGroup r => s.adds r.rest
  | _ => []

theorem mem_metrics_step {e : Event} (hi : Inv s) (h : s.step e = some s') (m : String) :
    m ∈ s'.metrics ↔ m ∈ s.metrics ∨ m ∈ s.added e := by
  cases step_cases h with
  | updateMetricIdList latest new updated _ _ => exact mem_addMetrics
  | updateBps m' bps => simp [added, mem_updateBps hi]
  | setMaxBps bps => simp [added, (same_setMaxBps s bps).metrics]
  | beginUpdate u hu =>
    rw [mem_updateBps (hi.same (same_begin s hu))]
    simp [added]
  | endGroup r => exact mem_addMetrics
  | _ => simp [added, subscribe]

/-- Each is new. -/
theorem added_new {e : Event} (hr : Rests s) (h : s.step e = some s') :
    (s.added e).Nodup ∧ ∀ m ∈ s.added e, m ∉ s.metrics := by
  cases step_cases h with
  | updateMetricIdList latest new updated hn hnew =>
    have hsub := s.adds_sublist new
    exact ⟨hn.sublist hsub, fun m hm => hnew m (hsub.subset hm)⟩
  | endGroup r =>
    have hsub := s.adds_sublist r.rest
    by_cases hne : r.rest = []
    · have hnil : s.adds r.rest = [] := List.eq_nil_of_subset_nil (hne ▸ hsub.subset)
      rw [added, hnil]
      exact ⟨List.nodup_nil, nofun⟩
    · obtain ⟨_, hn, hnew⟩ := hr.new r (step_endGroup h).1 hne
      exact ⟨hn.sublist hsub, fun m hm => hnew m (hsub.subset hm)⟩
  | _ => exact ⟨List.nodup_nil, nofun⟩

end MetricSubscribeHandler
end Ground
end BvexLink
