import BvexLink.Ground.Bandwidth
import BvexLink.Ground.Overlap

/-!
# BvexLink.Ground.FairShare

`MetricSubscribeHandler` in mode `fair` where each call of `update_metric_id_list` and `set_max_bps`
is finished before the next one starts.

* `Sharing`: while a call is under way, each metric has its share or an update that brings it.
* `sharing_step`, `alone_of_oneByOne`: what one step keeps.
* `fair_sharing`: the shares after each call, and that they depend only on the union of the lists
  and the last maximum.
-/

namespace BvexLink
namespace Ground
namespace MetricSubscribeHandler

variable {s s' : MetricSubscribeHandler}

/-- A call comes when the last one is finished; it is one of these two and is not cancelled. -/
def OneByOne (s : MetricSubscribeHandler) : Event → Prop
  | .updateMetricIdList _ _ => s.Quiescent
  | .setMaxBps _ => s.Quiescent
  | .updateBps _ _ => False
  | .timeout _ => False
  | _ => True

/-- An update that has not begun will bring the metric its share. -/
def Pending (s : MetricSubscribeHandler) (m : String) : Prop :=
  ∃ u ∈ s.updates, u.oldTask = none ∧ u.metricId = m

structure Sharing (s : MetricSubscribeHandler) : Prop where
  mode : s.bpsDistributionMode = "fair"
  one : s.redistributions.length ≤ 1
  group : ∀ u ∈ s.updates, ∃ r ∈ s.redistributions, u.group = some r.group
  bps : ∀ u ∈ s.updates, u.bps = s.share
  known : ∀ u ∈ s.updates, u.metricId ∈ s.metrics
  nodup : (s.updates.map Update.metricId).Nodup
  shared : ∀ m ∈ s.metrics, s.Pending m ∨ s.metrics.lookup m = some s.share

theorem sharing_init (max_bps : Int) : Sharing (init "fair" max_bps) where
  mode := rfl
  one := Nat.zero_le _
  group := by simp [init]
  bps := by simp [init]
  known := by simp [init]
  nodup := List.nodup_nil
  shared m hm := absurd hm (AList.notMem_empty m)

/-! ## A redistribution -/

/-- Where nothing is under way, each metric gets an update. -/
theorem sharing_redistribute (hf : s.bpsDistributionMode = "fair") (hq : s.Quiescent)
    (sync : Bool) (rest : List String) : Sharing (s.redistributeBpsFairly sync rest) := by
  by_cases hk : s.metrics.keys = []
  · have hraise : s.redistributeBpsFairly sync rest = s.raise .zeroDivisionError := by
      unfold redistributeBpsFairly
      simp only [hk]
    rw [hraise]
    constructor
    · exact hf
    · simp [raise, hq.2]
    · simp [raise, hq.1]
    · simp [raise, hq.1]
    · simp [raise, hq.1]
    · simp [raise, hq.1]
    · intro m hm
      rw [AList.mem_keys, show (s.raise .zeroDivisionError).metrics.keys = s.metrics.keys from rfl,
        hk] at hm
      cases hm
  · rw [redistribute_eq hk, hq.1, hq.2]
    constructor
    · exact hf
    · exact Nat.le_refl 1
    · intro u hu
      obtain ⟨m, _, rfl⟩ := List.mem_map.mp hu
      exact ⟨_, List.mem_singleton_self _, rfl⟩
    · intro u hu
      obtain ⟨m, _, rfl⟩ := List.mem_map.mp hu
      rfl
    · intro u hu
      obtain ⟨m, hm, rfl⟩ := List.mem_map.mp hu
      exact AList.mem_keys.mpr hm
    · have hkeys : s.metrics.keys.Nodup := s.metrics.nodupKeys
      simpa [Function.comp_def] using hkeys
    · intro m hm
      exact .inl ⟨_, List.mem_map_of_mem (AList.mem_keys.mp hm), rfl, rfl⟩

theorem sharing_addMetrics (h : Sharing s) (hq : s.Quiescent) (rest : List String) :
    Sharing (addMetrics rest s) := by
  cases rest with
  | nil => exact h
  | cons m rest =>
    rw [addMetrics_fair h.mode]
    exact sharing_redistribute (s := s.addMetric m) h.mode hq true rest

/-- Where nothing is under way, each metric has its share. -/
theorem Sharing.settled (h : Sharing s) (hu : s.updates = []) {m : String} (hm : m ∈ s.metrics) :
    s.metrics.lookup m = some s.share := by
  rcases h.shared m hm with ⟨u, hu', _⟩ | hs
  · rw [hu] at hu'
    cases hu'
  · exact hs

/-! ## An update -/

theorem metrics_updateBps (hi : Inv s) (group : Option Nat) {m : String} (bps : Int)
    (hm : m ∈ s.metrics) : (s.updateBps group m bps).metrics = s.metrics.insert m bps := by
  obtain ⟨k, t, _, _, _, hu⟩ := updateBps_known hi group bps hm
  cases hu with
  | waits _ hmet _ _ _ => exact hmet
  | creates _ hmet _ _ _ => exact hmet

theorem mode_updateBps (s : MetricSubscribeHandler) (group : Option Nat) (m : String) (bps : Int) :
    (s.updateBps group m bps).bpsDistributionMode = s.bpsDistributionMode ∧
      (s.updateBps group m bps).maxBps = s.maxBps := by
  simp only [updateBps]
  split
  · split
    · exact ⟨rfl, rfl⟩
    · split <;> exact ⟨rfl, rfl⟩
  · exact ⟨rfl, rfl⟩

/-- The update that waits, if it has to. -/
theorem begun_updateBps (s : MetricSubscribeHandler) (group : Option Nat) (m : String)
    (bps : Int) : ∃ us, (s.updateBps group m bps).updates = s.updates ++ us ∧
      (us = [] ∨ ∃ k, us = [⟨group, m, bps, some k⟩]) := by
  simp only [updateBps]
  split
  · split
    · exact ⟨[], (List.append_nil _).symm, .inl rfl⟩
    · split
      · exact ⟨[], (List.append_nil _).symm, .inl rfl⟩
      · exact ⟨_, rfl, .inr ⟨_, rfl⟩⟩
  · exact ⟨[], (List.append_nil _).symm, .inl rfl⟩

theorem length_keys_insert {d : AList fun _ : String => Int} {m : String} (hm : m ∈ d) (b : Int) :
    (d.insert m b).keys.length = d.keys.length := by
  have hmem : m ∈ d.keys := AList.mem_keys.mp hm
  have hpos := List.length_pos_of_mem hmem
  rw [AList.keys_insert, List.length_cons, List.length_erase_of_mem hmem]
  omega

theorem share_updateBps (hi : Inv s) (group : Option Nat) {m : String} (bps : Int)
    (hm : m ∈ s.metrics) : (s.updateBps group m bps).share = s.share := by
  rw [share, share, (mode_updateBps s group m bps).2, metrics_updateBps hi group bps hm,
    length_keys_insert hm]

/-- The updates without `u` and with what it becomes, if anything, are still one for a metric. -/
theorem nodup_begun {us vs : List Update} {u : Update} (h : (us.map Update.metricId).Nodup)
    (hu : u ∈ us) (hv : vs = [] ∨ ∃ v, vs = [v] ∧ v.metricId = u.metricId) :
    ((us.erase u ++ vs).map Update.metricId).Nodup := by
  have hperm : (us.map Update.metricId).Perm (u.metricId :: (us.erase u).map Update.metricId) :=
    (List.perm_cons_erase hu).map Update.metricId
  have hnodup := hperm.nodup_iff.mp h
  rcases hv with rfl | ⟨v, rfl, hvm⟩
  · rw [List.append_nil]
    exact (List.nodup_cons.mp hnodup).2
  · rw [List.map_append, List.map_singleton, hvm]
    exact (List.perm_append_singleton _ _).nodup_iff.mpr hnodup

theorem pending_erase {u : Update} {m : String} (h : s.Pending m)
    (hne : u.oldTask ≠ none ∨ u.metricId ≠ m) :
    ∃ v ∈ s.updates.erase u, v.oldTask = none ∧ v.metricId = m := by
  obtain ⟨v, hv, ho, hvm⟩ := h
  refine ⟨v, (List.mem_erase_of_ne ?_).mpr hv, ho, hvm⟩
  rintro rfl
  rcases hne with hne | hne
  · exact hne ho
  · exact hne hvm

theorem sharing_begin (hi : Inv s) (h : Sharing s) {u : Update} (hu : u ∈ s.updates)
    (ho : u.oldTask = none) :
    Sharing ({ s with updates := s.updates.erase u }.updateBps u.group u.metricId u.bps) := by
  have hi' : Inv { s with updates := s.updates.erase u } := hi.same (same_begin s ho)
  have hm : u.metricId ∈ s.metrics := h.known u hu
  obtain ⟨us, hus, hcases⟩ :=
    begun_updateBps { s with updates := s.updates.erase u } u.group u.metricId u.bps
  have hshare := share_updateBps hi' u.group u.bps hm
  have hmet := metrics_updateBps hi' u.group u.bps hm
  have hold : ∀ v ∈ s.updates.erase u ++ us, v ∈ s.updates ∨
      v.group = u.group ∧ v.metricId = u.metricId ∧ v.bps = u.bps := by
    intro v hv
    rcases List.mem_append.mp hv with hv | hv
    · exact .inl (List.mem_of_mem_erase hv)
    · rcases hcases with rfl | ⟨k, rfl⟩
      · cases hv
      · rw [List.mem_singleton.mp hv]
        exact .inr ⟨rfl, rfl, rfl⟩
  constructor
  · rw [(mode_updateBps _ _ _ _).1]
    exact h.mode
  · rw [redistributions_updateBps]
    exact h.one
  · rw [redistributions_updateBps, hus]
    intro v hv
    rcases hold v hv with hv | ⟨hg, _, _⟩
    · exact h.group v hv
    · rw [hg]
      exact h.group u hu
  · rw [hus, hshare]
    intro v hv
    rcases hold v hv with hv | ⟨_, _, hb⟩
    · exact h.bps v hv
    · rw [hb]
      exact h.bps u hu
  · rw [hus, hmet]
    intro v hv
    rw [mem_insert_known hm]
    rcases hold v hv with hv | ⟨_, hvm, _⟩
    · exact h.known v hv
    · rw [hvm]
      exact hm
  · rw [hus]
    refine nodup_begun h.nodup hu ?_
    rcases hcases with rfl | ⟨k, rfl⟩
    · exact .inl rfl
    · exact .inr ⟨_, rfl, rfl⟩
  · intro m hmem
    rw [hmet, mem_insert_known hm] at hmem
    rw [hshare, hmet, Pending, hus]
    by_cases he : m = u.metricId
    · rw [he, AList.lookup_insert, h.bps u hu]
      exact .inr rfl
    · rw [AList.lookup_insert_ne he]
      rcases h.shared m hmem with hp | hs
      · obtain ⟨v, hv, hvo⟩ := pending_erase (u := u) hp (.inr fun hum => he hum.symm)
        exact .inl ⟨v, List.mem_append_left _ hv, hvo⟩
      · exact .inr hs

theorem sharing_resume (h : Sharing s) {u : Update} (hu : u ∈ s.suspended) :
    Sharing ({ s with updates := s.updates.erase u }.subscribe u.metricId u.bps) := by
  obtain ⟨hmem, ho⟩ := mem_suspended.mp hu
  have hsub : ∀ v ∈ s.updates.erase u, v ∈ s.updates := fun v => List.mem_of_mem_erase
  constructor
  · exact h.mode
  · exact h.one
  · intro v hv
    exact h.group v (hsub v hv)
  · intro v hv
    exact h.bps v (hsub v hv)
  · intro v hv
    exact h.known v (hsub v hv)
  · exact h.nodup.sublist (List.erase_sublist.map _)
  · intro m hm
    rcases h.shared m hm with hp | hs
    · refine .inl (pending_erase hp (.inl fun hnone => ?_))
      rw [hnone] at ho
      cases ho
    · exact .inr hs

/-- With its group the redistribution is done, and nothing else is under way. -/
theorem quiescent_endGroup (h : Sharing s) {r : Redistribution} (hr : r ∈ s.redistributions)
    (hgroup : ∀ u ∈ s.updates, u.group ≠ some r.group) :
    s.updates = [] ∧ s.redistributions.erase r = [] := by
  obtain ⟨r', hr'⟩ : ∃ r', s.redistributions = [r'] := by
    have hpos := List.length_pos_of_mem hr
    have hone := h.one
    exact List.length_eq_one_iff.mp (by omega)
  rw [hr', List.mem_singleton] at hr
  constructor
  · rw [List.eq_nil_iff_forall_not_mem]
    intro u hu
    obtain ⟨r'', hr'', hg⟩ := h.group u hu
    rw [hr', List.mem_singleton] at hr''
    exact hgroup u hu (by rw [hg, hr'', hr])
  · rw [hr', hr, List.erase_cons_head]

theorem sharing_endGroup (h : Sharing s) {r : Redistribution} (hr : r ∈ s.redistributions)
    (hgroup : ∀ u ∈ s.updates, u.group ≠ some r.group) :
    Sharing (addMetrics r.rest { s with redistributions := s.redistributions.erase r }) := by
  obtain ⟨hu, he⟩ := quiescent_endGroup h hr hgroup
  refine sharing_addMetrics (s := { s with redistributions := s.redistributions.erase r }) ?_
    ⟨hu, he⟩ r.rest
  constructor
  · exact h.mode
  · exact (List.length_erase_le).trans h.one
  · simp [hu]
  · exact h.bps
  · exact h.known
  · exact h.nodup
  · exact h.shared

theorem sharing_setMaxBps (h : Sharing s) (hq : s.Quiescent) (bps : Int) :
    Sharing (s.setMaxBps bps) := by
  unfold setMaxBps
  split
  · exact sharing_redistribute (s := { s with maxBps := bps }) h.mode hq false []
  · exact h

theorem sharing_step {e : Event} (hi : Inv s) (h : Sharing s) (ho : s.OneByOne e)
    (hst : s.step e = some s') : Sharing s' := by
  cases step_cases hst with
  | updateMetricIdList latest new updated _ _ =>
    refine sharing_addMetrics (s := { s with updated := updated }) ?_ ho new
    exact ⟨h.mode, h.one, h.group, h.bps, h.known, h.nodup, h.shared⟩
  | updateBps m bps => exact ho.elim
  | setMaxBps bps => exact sharing_setMaxBps h ho bps
  | beginUpdate u hnone => exact sharing_begin hi h (step_beginUpdate hst).1 hnone
  | resumeUpdate u hu _ => exact sharing_resume h hu
  | endGroup r =>
    obtain ⟨hr, hgroup⟩ := step_endGroup hst
    exact sharing_endGroup h hr hgroup
  | timeout r => exact ho.elim
  | taskEnds k _ => exact ⟨h.mode, h.one, h.group, h.bps, h.known, h.nodup, h.shared⟩

/-- Such updates do not overlap, and no known metric is added. -/
theorem alone_of_oneByOne {e : Event} (hr : Rests s) (h : Sharing s) (ho : s.OneByOne e)
    (hst : s.step e = some s') : s.Alone e := by
  cases e with
  | updateBps m bps => exact ho.elim
  | beginUpdate u =>
    obtain ⟨hu, hnone⟩ := step_beginUpdate hst
    intro v hv hvm
    obtain ⟨hv, hsome⟩ := mem_suspended.mp hv
    have heq : v = u := List.inj_on_of_nodup_map h.nodup hv hu hvm
    rw [heq, hnone] at hsome
    cases hsome
  | endGroup r => exact added_new hr hst
  | _ => trivial

/-! ## A run -/

/-- The invariant. -/
structure Fair (s : MetricSubscribeHandler) : Prop where
  inv : Inv s
  agree : Agree s
  tight : Tight s
  rests : Rests s
  sharing : Sharing s

theorem fair_init (max_bps : Int) : Fair (init "fair" max_bps) where
  inv := inv_init _ _
  agree := agree_init _ _
  tight m hm := absurd hm (AList.notMem_empty m)
  rests := rests_init _ _
  sharing := sharing_init max_bps

theorem fair_step {e : Event} (h : Fair s) (ho : s.OneByOne e) (hst : s.step e = some s') :
    Fair s' := by
  have halone := alone_of_oneByOne h.rests h.sharing ho hst
  refine ⟨inv_step h.inv hst, agree_step h.inv h.agree halone hst,
    (tight_step h.inv hst).mpr ⟨h.tight, halone⟩, rests_step h.inv h.rests ?_ hst,
    sharing_step h.inv h.sharing ho hst⟩
  rintro latest new rfl r hr
  rw [ho.2] at hr
  cases hr

/-! ## The calls of a run -/

/-- The lists received. -/
def received (es : List Event) : List (List String) :=
  es.flatMap fun
    | .updateMetricIdList latest_metric_ids _ => [latest_metric_ids]
    | _ => []

/-- The maximum, if it was `max_bps` before. -/
def Event.maxBps (max_bps : Int) : Event → Int
  | .setMaxBps bps => bps
  | _ => max_bps

def lastMaxBps (max_bps : Int) (es : List Event) : Int := es.foldl Event.maxBps max_bps

theorem maxBps_redistribute (s : MetricSubscribeHandler) (sync : Bool) (rest : List String) :
    (s.redistributeBpsFairly sync rest).maxBps = s.maxBps := by
  unfold redistributeBpsFairly
  split <;> rfl

theorem maxBps_addMetrics (rest : List String) (s : MetricSubscribeHandler) :
    (addMetrics rest s).maxBps = s.maxBps := by
  induction rest generalizing s with
  | nil => rfl
  | cons m rest ih =>
    simp only [addMetrics]
    split
    · exact maxBps_redistribute (s.addMetric m) true rest
    · exact ih (s.addMetric m)

theorem maxBps_step {e : Event} (hst : s.step e = some s') : s'.maxBps = e.maxBps s.maxBps := by
  cases step_cases hst with
  | updateMetricIdList latest new updated _ _ => exact maxBps_addMetrics new _
  | updateBps m bps => exact (mode_updateBps s none m bps).2
  | setMaxBps bps =>
    unfold setMaxBps
    split
    · exact maxBps_redistribute { s with maxBps := bps } false []
    · rename_i h
      exact (not_not.mp h).symm
  | beginUpdate u _ => exact (mode_updateBps _ u.group u.metricId u.bps).2
  | resumeUpdate u _ _ => rfl
  | endGroup r => exact maxBps_addMetrics r.rest _
  | timeout r => rfl
  | taskEnds k _ => rfl

/-- What is known or still to be added has been received. -/
theorem covered_received {e : Event} (hi : Inv s) (ho : s.OneByOne e) (hst : s.step e = some s')
    {es : List Event} (h : ∀ m, s.Covered m ↔ ∃ l ∈ received es, m ∈ l) (m : String) :
    s'.Covered m ↔ ∃ l ∈ received (es ++ [e]), m ∈ l := by
  have hsplit : (∃ l ∈ received (es ++ [e]), m ∈ l) ↔
      s.Covered m ∨ ∃ l ∈ received [e], m ∈ l := by
    rw [h m, received, List.flatMap_append]
    simp only [List.mem_append, or_and_right, exists_or]
    rfl
  rw [hsplit]
  cases e with
  | updateMetricIdList latest new =>
    obtain ⟨hnew, hlatest⟩ := step_list hst
    rw [covered_list hst m]
    have hone : (∃ l ∈ received [.updateMetricIdList latest new], m ∈ l) ↔ m ∈ latest := by
      simp [received]
    rw [hone]
    constructor
    · exact Or.imp_right (hnew m)
    · rintro (hc | hm)
      · exact .inl hc
      · rcases hlatest m hm with hk | hn
        · exact .inl (.inl hk)
        · exact .inr hn
  | timeout r => exact ho.elim
  | _ =>
    rw [covered_step hi hst (by simp) (by simp)]
    simp [received]

/-- A run of such calls. -/
abbrev Calls : MetricSubscribeHandler → List Event → MetricSubscribeHandler → Prop :=
  Trace.Run (Trace.Given OneByOne (Trace.ofFn step))

theorem fair_calls {max_bps : Int} {es : List Event} (h : Calls (init "fair" max_bps) es s) :
    Fair s ∧ (∀ m, s.Covered m ↔ ∃ l ∈ received es, m ∈ l) ∧ s.maxBps = lastMaxBps max_bps es := by
  refine h.history (I := fun es s => Fair s ∧
    (∀ m, s.Covered m ↔ ∃ l ∈ received es, m ∈ l) ∧ s.maxBps = lastMaxBps max_bps es)
    ⟨fair_init max_bps, ?_, rfl⟩ ?_
  · intro m
    refine iff_of_false ?_ (by simp [received])
    rintro (hm | ⟨r, hr, _⟩)
    · exact AList.notMem_empty m hm
    · cases hr
  · rintro es s e t ⟨hf, hc, hmax⟩ ⟨ho, hst⟩
    refine ⟨fair_step hf ho hst, covered_received hf.inv ho hst hc, ?_⟩
    rw [maxBps_step hst, hmax, lastMaxBps, lastMaxBps, List.foldl_append]
    rfl

/-! ## The shares -/

/-- The stored task of a metric. -/
def subscription (s : MetricSubscribeHandler) (m : String) : Option SubscribeTask :=
  (s.metricSubscriptions.lookup m).bind fun k => s.subscribeTasks[k]?

def totalBps (s : MetricSubscribeHandler) : Int := (s.metrics.entries.map Sigma.snd).sum

structure FairlyShared (s : MetricSubscribeHandler) : Prop where
  bps : ∀ m ∈ s.metrics, s.metrics.lookup m = some s.share
  subscribed : ∀ m ∈ s.metrics, s.subscription m = some ⟨m, s.share, .running⟩
  superseded : ∀ k t, s.subscribeTasks[k]? = some t →
    (∀ m, s.metricSubscriptions.lookup m ≠ some k) → t.status = .finished
  total_le : s.totalBps ≤ s.maxBps
  lt_total : s.maxBps < s.totalBps + s.metrics.keys.length

theorem totalBps_eq (h : ∀ m ∈ s.metrics, s.metrics.lookup m = some s.share) :
    s.totalBps = s.metrics.keys.length * s.share := by
  have hall : ∀ b ∈ s.metrics.entries.map Sigma.snd, b = s.share := by
    intro b hb
    obtain ⟨⟨m, b'⟩, he, rfl⟩ := List.mem_map.mp hb
    have hl : s.metrics.lookup m = some b' := AList.mem_lookup_iff.mpr he
    have hm : m ∈ s.metrics := AList.lookup_isSome.mp (by rw [hl]; rfl)
    rw [h m hm] at hl
    exact (Option.some.inj hl).symm
  rw [totalBps, List.sum_eq_card_nsmul _ _ hall, nsmul_eq_mul, List.length_map, AList.keys,
    List.keys, List.length_map]

theorem share_bounds (hk : s.metrics.keys ≠ []) :
    s.metrics.keys.length * s.share ≤ s.maxBps ∧
      s.maxBps < s.metrics.keys.length * s.share + s.metrics.keys.length := by
  have hpos : (0 : Int) < s.metrics.keys.length := by
    exact_mod_cast List.length_pos_iff.mpr hk
  rw [share, Int.fdiv_eq_ediv_of_nonneg _ hpos.le]
  exact ⟨Int.mul_ediv_self_le hpos.ne', Int.lt_mul_ediv_self_add hpos⟩

theorem fairlyShared_of_fair (h : Fair s) (hq : s.Quiescent) (hk : s.metrics.keys ≠ []) :
    FairlyShared s := by
  have hbps : ∀ m ∈ s.metrics, s.metrics.lookup m = some s.share :=
    fun m hm => h.sharing.settled hq.1 hm
  have hone := onePerMetric_of_tight h.inv h.agree hq h.tight
  obtain ⟨hle, hlt⟩ := share_bounds hk
  refine ⟨hbps, fun m hm => ?_, fun k t ht hstored => ?_, ?_, ?_⟩
  · obtain ⟨k, t, hkm, ht, htm, htb, htf, _⟩ := hone.one m _ (hbps m hm)
    have hr := (h.inv.unfinished hq ht).mp htf
    rw [subscription, hkm, Option.bind_some, ht]
    cases t
    cases htm
    cases htb
    cases hr
    rfl
  · by_contra hf
    obtain ⟨j, t', hj, _, _, _, _, huniq⟩ := hone.one t.metricId _ (hbps _ (h.inv.known ht))
    rw [← huniq k t ht rfl hf] at hj
    exact hstored t.metricId hj
  · rw [totalBps_eq hbps]
    exact hle
  · rw [totalBps_eq hbps]
    exact hlt

/-- The same maximum, metrics, rates and subscriptions. -/
structure SameShares (s s' : MetricSubscribeHandler) : Prop where
  maxBps : s.maxBps = s'.maxBps
  bps : ∀ m, s.metrics.lookup m = s'.metrics.lookup m
  subscription : ∀ m, s.subscription m = s'.subscription m

theorem length_keys_congr (h : ∀ m, m ∈ s.metrics ↔ m ∈ s'.metrics) :
    s.metrics.keys.length = s'.metrics.keys.length := by
  have hperm : s.metrics.keys.Perm s'.metrics.keys := by
    rw [List.perm_ext_iff_of_nodup s.metrics.keys_nodup s'.metrics.keys_nodup]
    exact fun m => AList.mem_keys.symm.trans ((h m).trans AList.mem_keys)
  exact hperm.length_eq

theorem subscription_unknown (hi : Inv s) {m : String} (hm : m ∉ s.metrics) :
    s.subscription m = none := by
  rw [hi.keys, ← AList.lookup_eq_none] at hm
  rw [subscription, hm]
  rfl

theorem sameShares_of_fairlyShared (hi : Inv s) (hi' : Inv s') (h : FairlyShared s)
    (h' : FairlyShared s') (hm : ∀ m, m ∈ s.metrics ↔ m ∈ s'.metrics)
    (hmax : s.maxBps = s'.maxBps) : SameShares s s' := by
  have hshare : s.share = s'.share := by rw [share, share, hmax, length_keys_congr hm]
  refine ⟨hmax, fun m => ?_, fun m => ?_⟩
  · by_cases hmem : m ∈ s.metrics
    · rw [h.bps m hmem, h'.bps m ((hm m).mp hmem), hshare]
    · rw [AList.lookup_eq_none.mpr hmem, AList.lookup_eq_none.mpr fun hn => hmem ((hm m).mpr hn)]
  · by_cases hmem : m ∈ s.metrics
    · rw [h.subscribed m hmem, h'.subscribed m ((hm m).mp hmem), hshare]
    · rw [subscription_unknown hi hmem, subscription_unknown hi' fun hn => hmem ((hm m).mpr hn)]

theorem mem_metrics_of_quiescent (hq : s.Quiescent) (m : String) : s.Covered m ↔ m ∈ s.metrics := by
  simp [Covered, Awaits, hq.2]

/-- After each call that leaves a metric known: the metrics are the union of the lists, each has its
share of the last maximum and one task that runs with it, and another order of the same ids under the
same maximum comes to the same. -/
theorem fair_sharing {max_bps : Int} {es : List Event} (h : Calls (init "fair" max_bps) es s)
    (hq : s.Quiescent) (hk : s.metrics.keys ≠ []) :
    (∀ m, m ∈ s.metrics ↔ ∃ l ∈ received es, m ∈ l) ∧ s.maxBps = lastMaxBps max_bps es ∧
    FairlyShared s ∧
    ∀ max_bps' es' s', Calls (init "fair" max_bps') es' s' → s'.Quiescent →
      (∀ m, (∃ l ∈ received es, m ∈ l) ↔ ∃ l ∈ received es', m ∈ l) →
      lastMaxBps max_bps es = lastMaxBps max_bps' es' → SameShares s s' := by
  obtain ⟨hf, hc, hmax⟩ := fair_calls h
  have hmem : ∀ m, m ∈ s.metrics ↔ ∃ l ∈ received es, m ∈ l :=
    fun m => (mem_metrics_of_quiescent hq m).symm.trans (hc m)
  refine ⟨hmem, hmax, fairlyShared_of_fair hf hq hk, ?_⟩
  intro max_bps' es' s' h' hq' hsame hlast
  obtain ⟨hf', hc', hmax'⟩ := fair_calls h'
  have hmem' : ∀ m, m ∈ s.metrics ↔ m ∈ s'.metrics := fun m =>
    (hmem m).trans ((hsame m).trans ((hc' m).symm.trans (mem_metrics_of_quiescent hq' m)))
  have hk' : s'.metrics.keys ≠ [] := by
    intro hnil
    have hlen := length_keys_congr hmem'
    rw [hnil] at hlen
    exact hk (List.length_eq_zero_iff.mp hlen)
  exact sameShares_of_fairlyShared hf.inv hf'.inv (fairlyShared_of_fair hf hq hk)
    (fairlyShared_of_fair hf' hq' hk') hmem' (by rw [hmax, hmax', hlast])

instance (s : MetricSubscribeHandler) : Decidable s.Quiescent :=
  inferInstanceAs (Decidable (_ ∧ _))

instance (s : MetricSubscribeHandler) (e : Event) : Decidable (s.OneByOne e) :=
  match e with
  | .updateMetricIdList _ _ => inferInstanceAs (Decidable s.Quiescent)
  | .setMaxBps _ => inferInstanceAs (Decidable s.Quiescent)
  | .updateBps _ _ => inferInstanceAs (Decidable False)
  | .timeout _ => inferInstanceAs (Decidable False)
  | .beginUpdate _ | .resumeUpdate _ | .endGroup _ | .taskEnds _ => inferInstanceAs (Decidable True)

/-- Two metrics are added. -/
def twoMetrics : List Event :=
  [.updateMetricIdList ["temp", "volt"] ["temp", "volt"],
    .beginUpdate ⟨some 0, "temp", 100, none⟩, .taskEnds 0,
    .resumeUpdate ⟨some 0, "temp", 100, some 0⟩, .endGroup ⟨0, true, ["volt"]⟩,
    .beginUpdate ⟨some 1, "volt", 50, none⟩, .beginUpdate ⟨some 1, "temp", 50, none⟩,
    .taskEnds 1, .taskEnds 2, .resumeUpdate ⟨some 1, "temp", 50, some 1⟩,
    .resumeUpdate ⟨some 1, "volt", 50, some 2⟩, .endGroup ⟨1, true, []⟩]

theorem two_metrics_share : ∃ s, Calls (init "fair" 100) twoMetrics s ∧ FairlyShared s ∧
    s.share = 50 := by
  have hrun : ∃ s, Trace.exec (Trace.given OneByOne step) (init "fair" 100) twoMetrics = some s ∧
      s.Quiescent ∧ s.metrics.keys ≠ [] ∧ s.share = 50 := by
    refine ⟨_, rfl, ⟨rfl, rfl⟩, by decide, by decide⟩
  obtain ⟨s, hs, hq, hk, hshare⟩ := hrun
  have hcalls := Trace.run_of_exec_given hs
  exact ⟨s, hcalls, (fair_sharing hcalls hq hk).2.2.1, hshare⟩

end MetricSubscribeHandler
end Ground
end BvexLink
