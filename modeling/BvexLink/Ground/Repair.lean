import BvexLink.Ground.Reallocation
import BvexLink.Trace.Progress

/-!
# BvexLink.Ground.Repair

What `update_bps` and `redistribute_bps_fairly` make of the subscriptions when some have failed.

* `op_step`: where each update and each subscription stands while the operation is under way.
* `intact_step`: the one way in which a stored task can come to have failed.
* `exists_ended`: the operation ends.
* `repairs_iff`: when it repairs what it addresses.
-/

namespace BvexLink
namespace Ground
namespace Reallocation

open ListUpdate

namespace Handler

variable {s s' s₀ : Handler}

/-- The stored task of a metric. -/
def subscription (s : Handler) (m : String) : Option SubscribeTask :=
  (s.metricSubscriptions.lookup m).bind fun k => s.subscribeTasks[k]?

def HasFailed (s : Handler) (m : String) : Prop :=
  ∃ t, s.subscription m = some t ∧ t.status = .failed

theorem subscription_eq {m : String} {k : TaskId} (h : s.metricSubscriptions.lookup m = some k) :
    s.subscription m = s.subscribeTasks[k]? := by
  rw [subscription, h, Option.bind_some]

theorem subscription_modify_self {m : String} {k : TaskId} {t : SubscribeTask}
    (hk : s.metricSubscriptions.lookup m = some k) (ht : s.subscribeTasks[k]? = some t)
    (f : SubscribeTask → SubscribeTask) :
    subscription { s with subscribeTasks := s.subscribeTasks.modify k f } m = some (f t) := by
  rw [subscription_eq (s := { s with subscribeTasks := s.subscribeTasks.modify k f }) hk]
  exact getElem?_modify_eq_some.mpr ⟨t, ht, if_pos rfl⟩

theorem subscription_modify_other {m : String} {k : TaskId}
    (h : s.metricSubscriptions.lookup m ≠ some k) (f : SubscribeTask → SubscribeTask) :
    subscription { s with subscribeTasks := s.subscribeTasks.modify k f } m = s.subscription m := by
  unfold subscription
  cases hk : s.metricSubscriptions.lookup m with
  | none => rfl
  | some k' =>
    have hne : k ≠ k' := by
      rintro rfl
      exact h hk
    simp [List.getElem?_modify, hne]

theorem subscription_subscribe_self (s : Handler) (m : String) (bps : Int) :
    (s.subscribe m bps).subscription m = some ⟨m, bps, .running⟩ := by
  rw [subscription_eq (s := s.subscribe m bps) (AList.lookup_insert _)]
  exact getElem?_snoc.mpr (.inr ⟨rfl, rfl⟩)

theorem subscription_subscribe_other (hi : Inv s) {m m' : String} (h : m' ≠ m) (bps : Int) :
    (s.subscribe m bps).subscription m' = s.subscription m' := by
  have hl : (s.subscribe m bps).metricSubscriptions.lookup m' = s.metricSubscriptions.lookup m' :=
    AList.lookup_insert_ne h
  rw [subscription, subscription, hl]
  cases hk : s.metricSubscriptions.lookup m' with
  | none => rfl
  | some k =>
    obtain ⟨t, ht, _⟩ := hi.stored hk
    rw [Option.bind_some, Option.bind_some, ht]
    exact getElem?_snoc.mpr (.inl ht)

theorem mem_setPhase {m : String} {p q : Phase} (h : s.updates.lookup m = some p) (m' : String) :
    m' ∈ (s.setPhase m q).updates ↔ m' ∈ s.updates := by
  have hm : m ∈ s.updates := AList.lookup_isSome.mp (by rw [h]; rfl)
  rw [setPhase, AList.mem_insert]
  constructor
  · rintro (rfl | h)
    · exact hm
    · exact h
  · exact .inr

/-! ## While the operation is under way -/

/-- What an update that has ended has come to; the operation began in `s₀`. -/
def Reached (s₀ s : Handler) (m : String) : Phase → Prop
  | .returned => s.metrics.lookup m = some s.bps ∧
      (∃ k, s.metricSubscriptions.lookup m = some k ∧ s₀.subscribeTasks.length ≤ k) ∧
      ∃ t, s.subscription m = some t ∧ t.bps = s.bps ∧ (t.status = .running ∨ t.status = .failed)
  | .raised => s.HasFailed m
  | .created => True
  | .waiting _ => True

structure Op (s₀ s : Handler) : Prop where
  inv : Inv s
  created : s₀.subscribeTasks.length ≤ s.subscribeTasks.length
  metrics : ∀ m, m ∈ s.metrics ↔ m ∈ s₀.metrics
  updates : ∀ m, m ∈ s.updates ↔ m ∈ s₀.updates
  bps : s.bps = s₀.bps
  reached : ∀ m ∈ s.metrics, ∀ p, s.updates.lookup m = some p → Reached s₀ s m p
  others : ∀ m, m ∉ s.updates →
    s.metricSubscriptions.lookup m = s₀.metricSubscriptions.lookup m ∧
      (s.subscription m = s₀.subscription m ∨ s.HasFailed m)
  aborting : s.aborting = true → s.Failed
  ended : ∀ r, s.outcome = some r → (∀ m ∈ s.updates.keys, s.Ended m) ∧ r = s.result

theorem op_start (hi : Inv s) (ho : s.outcome ≠ none) (group : Bool) (ms : List String)
    (bps : Int) :
    Op (s.start group ms bps) (s.start group ms bps) where
  inv := inv_start hi ho group ms bps
  created := Nat.le_refl _
  metrics _ := Iff.rfl
  updates _ := Iff.rfl
  bps := rfl
  reached m _ p hp := by
    change (createUpdates ms).lookup m = some p at hp
    rw [lookup_createUpdates] at hp
    split at hp <;> cases hp
    trivial
  others _ _ := ⟨rfl, .inl rfl⟩
  aborting h := by cases h
  ended _ h := by cases h

structure Same (s s' : Handler) (m : String) : Prop where
  recorded : s'.metrics.lookup m = s.metrics.lookup m
  stored : s'.metricSubscriptions.lookup m = s.metricSubscriptions.lookup m
  subscription : s'.subscription m = s.subscription m

theorem Same.hasFailed {m : String} (h : Same s s' m) : s'.HasFailed m ↔ s.HasFailed m := by
  rw [HasFailed, HasFailed, h.subscription]

theorem Reached.same {m : String} {p : Phase} (h : Reached s₀ s m p) (hs : Same s s' m)
    (hb : s'.bps = s.bps) : Reached s₀ s' m p := by
  cases p with
  | returned =>
    unfold Reached at h ⊢
    rw [hs.recorded, hs.stored, hs.subscription, hb]
    exact h
  | raised => exact hs.hasFailed.mpr h
  | created => trivial
  | waiting k => trivial

theorem failed_setPhase {m : String} {p q : Phase} (hq : s.updates.lookup m = some q)
    (hne : q ≠ .raised) (h : s.Failed) : (s.setPhase m p).Failed := by
  obtain ⟨m', _, hr⟩ := h
  have he : m' ≠ m := by
    rintro rfl
    rw [hq] at hr
    exact hne (Option.some.inj hr)
  have hl : (s.setPhase m p).updates.lookup m' = some .raised :=
    (AList.lookup_insert_ne he).trans hr
  exact ⟨m', AList.mem_keys.mp (AList.lookup_isSome.mp (by rw [hl]; rfl)), hl⟩

theorem op_setPhase (h : Op s₀ s) {m : String} {p q : Phase} (hi : Inv (s'.setPhase m p))
    (ho : s.outcome = none) (hq : s.updates.lookup m = some q) (hne : q ≠ .raised)
    (hupdates : s'.updates = s.updates) (houtcome : s'.outcome = s.outcome)
    (haborting : s'.aborting = s.aborting) (hbps : s'.bps = s.bps)
    (hlen : s.subscribeTasks.length ≤ s'.subscribeTasks.length)
    (hmetrics : ∀ m', m' ∈ s'.metrics ↔ m' ∈ s.metrics) (hother : ∀ m', m' ≠ m → Same s s' m')
    (hself : m ∈ s.metrics → Reached s₀ s' m p) : Op s₀ (s'.setPhase m p) := by
  have hq' : s'.updates.lookup m = some q := by rw [hupdates, hq]
  have hmem : ∀ m', m' ∈ (s'.setPhase m p).updates ↔ m' ∈ s.updates := by
    intro m'
    rw [mem_setPhase hq', hupdates]
  have hphase : ∀ r, Reached s₀ s' m r → Reached s₀ (s'.setPhase m p) m r :=
    fun r hr => hr.same ⟨rfl, rfl, rfl⟩ rfl
  refine ⟨hi, h.created.trans hlen, fun m' => (hmetrics m').trans (h.metrics m'),
    fun m' => (hmem m').trans (h.updates m'), hbps.trans h.bps, ?_, ?_, ?_, ?_⟩
  · intro m' hm' r hr
    by_cases he : m' = m
    · subst he
      rw [setPhase, AList.lookup_insert] at hr
      cases hr
      exact hphase p (hself ((hmetrics m').mp hm'))
    · rw [setPhase, AList.lookup_insert_ne he, hupdates] at hr
      have hsame := hother m' he
      have hset : Same s (s'.setPhase m p) m' :=
        ⟨hsame.recorded, hsame.stored, hsame.subscription⟩
      exact (h.reached m' ((hmetrics m').mp hm') r hr).same hset hbps
  · intro m' hm'
    rw [hmem] at hm'
    have he : m' ≠ m := by
      rintro rfl
      exact hm' (AList.lookup_isSome.mp (by rw [hq]; rfl))
    have hsame := hother m' he
    obtain ⟨hstored, hsub⟩ := h.others m' hm'
    exact ⟨hsame.stored.trans hstored,
      hsub.imp (hsame.subscription.trans ·) hsame.hasFailed.mpr⟩
  · intro ha
    refine failed_setPhase hq' hne ?_
    rw [Failed, hupdates]
    exact h.aborting (haborting ▸ ha)
  · intro r hr
    change s'.outcome = some r at hr
    rw [houtcome, ho] at hr
    cases hr

theorem op_finish (h : Op s₀ s) {k : TaskId} {t : SubscribeTask} {x : TaskStatus}
    (ht : s.subscribeTasks[k]? = some t)
    (hx : x = .failed ∨ x = .cancelled ∧ t.status = .cancelling) :
    Op s₀ { s with subscribeTasks := s.subscribeTasks.modify k (.finish x) } := by
  have hi : Inv { s with subscribeTasks := s.subscribeTasks.modify k (.finish x) } := by
    refine inv_finish h.inv ?_ ?_
    · rintro rfl
      simp at hx
    · rintro rfl
      simp at hx
  -- whose stored task it is
  have hown : ∀ m, s.metricSubscriptions.lookup m = some k →
      x = .failed ∨ s.updates.lookup m = some (.waiting k) := by
    intro m hk
    refine hx.imp_right fun hc => ?_
    obtain ⟨ho, m', hw⟩ := h.inv.awaited ht hc.2
    rw [h.inv.stored_inj hk (h.inv.waiting ho hw).1]
    exact hw
  have hsame : ∀ m, s.metricSubscriptions.lookup m ≠ some k →
      Same s { s with subscribeTasks := s.subscribeTasks.modify k (.finish x) } m :=
    fun m hm => ⟨rfl, rfl, subscription_modify_other hm _⟩
  refine ⟨hi, ?_, h.metrics, h.updates, h.bps, ?_, ?_, h.aborting, h.ended⟩
  · simpa using h.created
  · intro m hm p hp
    have hr := h.reached m hm p hp
    by_cases hk : s.metricSubscriptions.lookup m = some k
    · have hsub := subscription_modify_self hk ht (.finish x)
      rcases hown m hk with rfl | hw
      · cases p with
        | returned =>
          obtain ⟨hb, hfresh, t', ht', htb, _⟩ := hr
          rw [subscription_eq hk, ht] at ht'
          cases ht'
          exact ⟨hb, hfresh, _, hsub, htb, .inr rfl⟩
        | raised => exact ⟨_, hsub, rfl⟩
        | created => trivial
        | waiting k' => trivial
      · rw [hp] at hw
        cases hw
        trivial
    · exact hr.same (hsame m hk) rfl
  · intro m hm
    obtain ⟨hstored, hsub⟩ := h.others m hm
    refine ⟨hstored, ?_⟩
    by_cases hk : s.metricSubscriptions.lookup m = some k
    · rcases hown m hk with rfl | hw
      · exact .inr ⟨_, subscription_modify_self hk ht _, rfl⟩
      · exact absurd (AList.lookup_isSome.mp (by rw [hw]; rfl)) hm
    · exact hsub.imp ((hsame m hk).subscription.trans ·) (hsame m hk).hasFailed.mpr

theorem op_step (h : Op s₀ s) {e : Event} (hst : s.step e = some s') : Op s₀ s' := by
  have hi := inv_step h.inv hst
  cases step_cases h.inv hst with
  | unknown ho hp hm =>
    exact op_setPhase h hi ho hp (by simp) rfl rfl rfl rfl (Nat.le_refl _) (fun _ => Iff.rfl)
      (fun _ _ => ⟨rfl, rfl, rfl⟩) fun hm' => absurd hm' hm
  | raises _ ho hp hq hrec hk ht hs =>
    refine op_setPhase h hi ho hp ?_ rfl rfl rfl rfl (Nat.le_refl _) hrec.mem
      (fun m' he => ⟨hrec.other m' he, rfl, rfl⟩) fun _ => ⟨_, (subscription_eq hk).trans ht, hs⟩
    rcases hq with rfl | rfl <;> simp
  | @creates _ m k t p metrics _ ho hp hq hrec hk ht hs =>
    refine op_setPhase h hi ho hp ?_ rfl rfl rfl rfl ?_ hrec.mem (fun m' he => ?_) fun _ => ?_
    · rcases hq with rfl | rfl <;> simp
    · simp [subscribe]
    · exact ⟨hrec.other m' he, AList.lookup_insert_ne he, subscription_subscribe_other h.inv he s.bps⟩
    · exact ⟨hrec.self, ⟨_, AList.lookup_insert _, h.created⟩, _,
        subscription_subscribe_self _ m s.bps, rfl, .inl rfl⟩
  | @waits m k t metrics ho hp hrec hk ht hs =>
    refine op_setPhase h hi ho hp (by simp) rfl rfl rfl rfl ?_ hrec.mem (fun m' he => ?_)
      fun _ => trivial
    · simp [cancel]
    · refine ⟨hrec.other m' he, rfl, subscription_modify_other (fun hk' => ?_) _⟩
      exact he (h.inv.stored_inj hk' hk)
  | abort ho _ hf =>
    refine ⟨hi, h.created, h.metrics, h.updates, h.bps, h.reached, h.others, fun _ => hf, ?_⟩
    intro r hr
    change s.outcome = some r at hr
    rw [ho] at hr
    cases hr
  | join ho hall _ =>
    refine ⟨hi, h.created, h.metrics, h.updates, h.bps, h.reached, h.others, h.aborting, ?_⟩
    intro r hr
    cases hr
    exact ⟨hall, rfl⟩
  | taskEnds ht hs => exact op_finish h ht (.inr ⟨rfl, hs⟩)
  | taskFails ht _ => exact op_finish h ht (.inl rfl)

/-! ## What fails -/

def Spares (s : Handler) : Event → Prop
  | .taskFails k => ∀ m, s.metricSubscriptions.lookup m ≠ some k
  | _ => True

/-- The stored tasks of the metrics addressed have not failed, the others are what they were. -/
structure Intact (s₀ s : Handler) : Prop where
  addressed : ∀ m ∈ s.updates, ¬ s.HasFailed m
  others : ∀ m, m ∉ s.updates → s.subscription m = s₀.subscription m

/-- At most the subscription of one metric addressed changes, and that does not come to fail. -/
theorem intact_congr {e : Event} (hspares : s.Spares e) (hmem : ∀ m, m ∈ s'.updates ↔ m ∈ s.updates)
    (hsame : ∀ m, s'.subscription m = s.subscription m ∨
      m ∈ s.updates ∧ ¬ s'.HasFailed m ∧ ¬ s.HasFailed m) :
    Intact s₀ s' ↔ Intact s₀ s ∧ s.Spares e := by
  have hfailed : ∀ m, s'.HasFailed m ↔ s.HasFailed m := by
    intro m
    rcases hsame m with hm | ⟨_, hf', hf⟩
    · rw [HasFailed, HasFailed, hm]
    · exact iff_of_false hf' hf
  have hother : ∀ m, m ∉ s.updates → s'.subscription m = s.subscription m :=
    fun m hm => (hsame m).resolve_right fun h => hm h.1
  rw [and_iff_left hspares]
  constructor
  · intro h
    refine ⟨fun m hm => ?_, fun m hm => ?_⟩
    · rw [← hfailed m]
      exact h.addressed m ((hmem m).mpr hm)
    · rw [← hother m hm]
      exact h.others m fun hm' => hm ((hmem m).mp hm')
  · intro h
    refine ⟨fun m hm => ?_, fun m hm => ?_⟩
    · rw [hfailed m]
      exact h.addressed m ((hmem m).mp hm)
    · rw [hother m fun hm' => hm ((hmem m).mpr hm')]
      exact h.others m fun hm' => hm ((hmem m).mpr hm')

theorem hasFailed_iff {m : String} {t : SubscribeTask} (h : s.subscription m = some t) :
    s.HasFailed m ↔ t.status = .failed := by
  rw [HasFailed, h]
  simp

theorem mem_updates {m : String} {p : Phase} (h : s.updates.lookup m = some p) : m ∈ s.updates :=
  AList.lookup_isSome.mp (by rw [h]; rfl)

theorem intact_taskFails (h : Op s₀ s) {k : TaskId} {t : SubscribeTask}
    (ht : s.subscribeTasks[k]? = some t) (hs : t.status = .running ∨ t.status = .cancelling) :
    Intact s₀ { s with subscribeTasks := s.subscribeTasks.modify k (.finish .failed) } ↔
      Intact s₀ s ∧ s.Spares (.taskFails k) := by
  by_cases hk : ∃ m, s.metricSubscriptions.lookup m = some k
  · obtain ⟨m, hk⟩ := hk
    have hsub := subscription_modify_self hk ht (.finish .failed)
    refine iff_of_false (fun hi => ?_) fun hi => hi.2 m hk
    by_cases hm : m ∈ s.updates
    · exact hi.addressed m hm ⟨_, hsub, rfl⟩
    · have hsame := hi.others m hm
      rw [hsub] at hsame
      have hold : s.HasFailed m := by
        rcases (h.others m hm).2 with hsub' | hf
        · exact ⟨_, hsub'.trans hsame.symm, rfl⟩
        · exact hf
      rw [hasFailed_iff ((subscription_eq hk).trans ht)] at hold
      rcases hs with hs | hs
      · rw [hs] at hold
        cases hold
      · rw [hs] at hold
        cases hold
  · push Not at hk
    exact intact_congr hk (fun _ => Iff.rfl) fun m => .inl (subscription_modify_other (hk m) _)

/-- One step: no stored task has failed exactly if none had and the step lets none fail. -/
theorem intact_step (h : Op s₀ s) {e : Event} (hst : s.step e = some s') :
    Intact s₀ s' ↔ Intact s₀ s ∧ s.Spares e := by
  cases step_cases h.inv hst with
  | unknown ho hp hm => exact intact_congr trivial (mem_setPhase hp) fun _ => .inl rfl
  | raises he ho hp _ hrec hk ht hs =>
    refine intact_congr ?_ (mem_setPhase hp) fun _ => .inl rfl
    rcases he with rfl | rfl <;> trivial
  | @creates _ m k t p metrics he ho hp _ hrec hk ht hs =>
    refine intact_congr ?_ (mem_setPhase hp) fun m' => ?_
    · rcases he with rfl | rfl <;> trivial
    · by_cases hne : m' = m
      · subst hne
        -- the old task was cancelled, the new one runs
        have hnew := hasFailed_iff (subscription_subscribe_self s m' s.bps)
        refine .inr ⟨mem_updates hp, fun hf => ?_, fun hf => ?_⟩
        · cases hnew.mp hf
        · rw [hasFailed_iff ((subscription_eq hk).trans ht), hs] at hf
          cases hf
      · exact .inl (subscription_subscribe_other h.inv hne s.bps)
  | @waits m k t metrics ho hp hrec hk ht hs =>
    refine intact_congr trivial (mem_setPhase hp) fun m' => ?_
    by_cases hne : m' = m
    · subst hne
      have hnew := hasFailed_iff (subscription_modify_self hk ht SubscribeTask.cancel)
      refine .inr ⟨mem_updates hp, fun hf => ?_, fun hf => ?_⟩
      · have hc := hnew.mp hf
        rcases hs with hs | hs <;> simp [SubscribeTask.cancel, hs] at hc
      · rw [hasFailed_iff ((subscription_eq hk).trans ht)] at hf
        rcases hs with hs | hs <;> simp [hs] at hf
    · exact .inl (subscription_modify_other (fun hk' => hne (h.inv.stored_inj hk' hk)) _)
  | abort ho _ hf => exact intact_congr trivial (fun _ => Iff.rfl) fun _ => .inl rfl
  | join ho hall _ => exact intact_congr trivial (fun _ => Iff.rfl) fun _ => .inl rfl
  | @taskEnds k t ht hs =>
    refine intact_congr trivial (fun _ => Iff.rfl) fun m' => ?_
    by_cases hk : s.metricSubscriptions.lookup m' = some k
    · obtain ⟨ho, m, hw⟩ := h.inv.awaited ht hs
      have hm : m' = m := h.inv.stored_inj hk (h.inv.waiting ho hw).1
      have hnew := hasFailed_iff (subscription_modify_self hk ht (.finish .cancelled))
      refine .inr ⟨hm ▸ mem_updates hw, fun hf => ?_, fun hf => ?_⟩
      · cases hnew.mp hf
      · rw [hasFailed_iff ((subscription_eq hk).trans ht), hs] at hf
        cases hf
    · exact .inl (subscription_modify_other hk _)
  | taskFails ht hs => exact intact_taskFails h ht hs

/-! ## At the end -/

/-- Each metric of `ms` has a new subscription that runs with `bps`; the others have what they had. -/
structure Repaired (s₀ s : Handler) (ms : List String) (bps : Int) : Prop where
  fresh : ∀ m ∈ ms, s.metrics.lookup m = some bps ∧ s.subscription m = some ⟨m, bps, .running⟩ ∧
    ∃ k, s.metricSubscriptions.lookup m = some k ∧ s₀.subscribeTasks.length ≤ k
  others : ∀ m, m ∉ ms → s.metricSubscriptions.lookup m = s₀.metricSubscriptions.lookup m ∧
    s.subscription m = s₀.subscription m

theorem returned_of_intact (h : Op s₀ s) (hi : Intact s₀ s) {r : Result} (hr : s.outcome = some r)
    (hknown : ∀ m ∈ s.updates, m ∈ s.metrics) :
    r = .returned ∧ ∀ m ∈ s.updates, s.updates.lookup m = some .returned := by
  have hnone : ¬ s.Failed := by
    rintro ⟨m, hm, hraised⟩
    have hmem := mem_updates hraised
    exact hi.addressed m hmem (h.reached m (hknown m hmem) _ hraised)
  obtain ⟨hall, hresult⟩ := h.ended r hr
  refine ⟨by rw [hresult, result, if_neg hnone], fun m hm => ?_⟩
  rcases hall m (AList.mem_keys.mp hm) with hret | hraised | ⟨_, ha⟩
  · exact hret
  · exact absurd ⟨m, AList.mem_keys.mp hm, hraised⟩ hnone
  · exact absurd (h.aborting ha) hnone

theorem repaired_iff_intact (h : Op s₀ s) {r : Result} (hr : s.outcome = some r) {ms : List String}
    (hms : ∀ m, m ∈ s.updates ↔ m ∈ ms) (hknown : ∀ m ∈ ms, m ∈ s.metrics) :
    r = .returned ∧ Repaired s₀ s ms s.bps ↔ Intact s₀ s := by
  constructor
  · rintro ⟨_, hrep⟩
    refine ⟨fun m hm hf => ?_, fun m hm => (hrep.others m fun hm' => hm ((hms m).mpr hm')).2⟩
    rw [hasFailed_iff (hrep.fresh m ((hms m).mp hm)).2.1] at hf
    cases hf
  · intro hi
    obtain ⟨hret, hall⟩ := returned_of_intact h hi hr fun m hm => hknown m ((hms m).mp hm)
    refine ⟨hret, fun m hm => ?_, fun m hm => ?_⟩
    · have hmem : m ∈ s.updates := (hms m).mpr hm
      obtain ⟨hb, hfresh, t, ht, htb, hts⟩ := h.reached m (hknown m hm) _ (hall m hmem)
      refine ⟨hb, ?_, hfresh⟩
      obtain ⟨k, hk, _⟩ := hfresh
      obtain ⟨t', ht', htm⟩ := h.inv.stored hk
      rw [subscription_eq hk, ht'] at ht
      obtain rfl : t' = t := Option.some.inj ht
      have hrun : t'.status = .running := hts.resolve_right fun hf =>
        hi.addressed m hmem ((hasFailed_iff ((subscription_eq hk).trans ht')).mpr hf)
      rw [subscription_eq hk, ht']
      cases t'
      cases htm
      cases htb
      cases hrun
      rfl
    · have hmem : m ∉ s.updates := fun hm' => hm ((hms m).mp hm')
      exact ⟨(h.others m hmem).1, hi.others m hmem⟩

/-! ## The operation ends -/

def phaseSize : Phase → Nat
  | .created => 4
  | .waiting _ => 3
  | .returned => 0
  | .raised => 0

def taskSize (t : SubscribeTask) : Nat :=
  match t.status with
  | .running => 2
  | .cancelling => 1
  | .cancelled => 0
  | .failed => 0

def size (s : Handler) : Nat :=
  (s.updates.entries.map fun e => phaseSize e.2).sum + (s.subscribeTasks.map taskSize).sum +
    (!s.aborting).toNat + s.outcome.isNone.toNat

theorem size_setPhase {m : String} {p q : Phase} (h : s.updates.lookup m = some q) :
    (s.setPhase m p).size + phaseSize q = s.size + phaseSize p := by
  have hsum := sum_entries_insert (p := p) h phaseSize
  simp only [size, setPhase]
  omega

theorem size_modify {k : TaskId} {t : SubscribeTask} (h : s.subscribeTasks[k]? = some t)
    (f : SubscribeTask → SubscribeTask) :
    size { s with subscribeTasks := s.subscribeTasks.modify k f } + taskSize t =
      s.size + taskSize (f t) := by
  have hsum := sum_map_modify (f := f) (g := taskSize) h
  simp only [size]
  omega

theorem size_subscribe (s : Handler) (m : String) (bps : Int) :
    (s.subscribe m bps).size = s.size + 2 := by
  simp only [size, subscribe, List.map_append, List.sum_append, List.map_cons, List.map_nil,
    List.sum_cons, List.sum_nil, taskSize]
  omega

theorem size_step (hi : Inv s) {e : Event} (hst : s.step e = some s') : s'.size < s.size := by
  cases step_cases hi hst with
  | unknown ho hp hm =>
    have h := size_setPhase (p := .returned) hp
    simp only [phaseSize] at h
    omega
  | @raises _ m k t p metrics he ho hp hq hrec hk ht hs =>
    have h := size_setPhase (s := { s with metrics := metrics }) (p := .raised) hp
    have hsame : size { s with metrics := metrics } = s.size := rfl
    rcases hq with rfl | rfl <;> simp only [phaseSize] at h <;> omega
  | @creates _ m k t p metrics he ho hp hq hrec hk ht hs =>
    have h := size_setPhase (s := { s with metrics := metrics }.subscribe m s.bps)
      (p := .returned) hp
    have hsub := size_subscribe { s with metrics := metrics } m s.bps
    have hsame : size { s with metrics := metrics } = s.size := rfl
    rcases hq with rfl | rfl <;> simp only [phaseSize] at h <;> omega
  | @waits m k t metrics ho hp hrec hk ht hs =>
    have h := size_setPhase (s := { s with metrics := metrics }.cancel k) (p := .waiting k) hp
    have hcancel : ({ s with metrics := metrics }.cancel k).size + taskSize t =
        size { s with metrics := metrics } + taskSize t.cancel :=
      size_modify (s := { s with metrics := metrics }) ht _
    have hsame : size { s with metrics := metrics } = s.size := rfl
    have hle : taskSize t.cancel ≤ taskSize t := by
      rcases hs with hs | hs <;> simp [SubscribeTask.cancel, taskSize, hs]
    simp only [phaseSize] at h
    omega
  | abort ho ha hf => simp [size, ha]
  | join ho hall _ => simp [size, ho]
  | taskEnds ht hs =>
    have h := size_modify ht (.finish .cancelled)
    simp only [taskSize, SubscribeTask.finish, hs] at h
    omega
  | taskFails ht hs =>
    have h := size_modify ht (.finish .failed)
    rcases hs with hs | hs <;> simp only [taskSize, SubscribeTask.finish, hs] at h <;> omega

theorem progress (hi : Inv s) (ho : s.outcome = none) : ∃ e s', s.step e = some s' := by
  by_cases hall : ∀ m ∈ s.updates.keys, s.Ended m
  · by_cases hf : (s.outcome = none ∧ s.group = true) ∧ s.aborting = false ∧ s.Failed
    · exact ⟨.abort, _, if_pos hf⟩
    · refine ⟨.join, _, if_pos ⟨ho, hall, fun hfail hgroup => ?_⟩⟩
      by_contra ha
      exact hf ⟨⟨ho, hgroup⟩, by simpa using ha, hfail⟩
  · push Not at hall
    obtain ⟨m, hm, hnot⟩ := hall
    obtain ⟨p, hp⟩ := Option.isSome_iff_exists.mp
      (AList.lookup_isSome.mpr (AList.mem_keys.mpr hm))
    cases p with
    | created =>
      have ha : s.aborting = false := by
        by_contra ha
        exact hnot (.inr (.inr ⟨hp, by simpa using ha⟩))
      exact ⟨.beginUpdate m, _, if_pos ⟨ho, ha, hp⟩⟩
    | waiting k =>
      obtain ⟨hk, _, hr⟩ := hi.waiting ho hp
      obtain ⟨t, ht, _⟩ := hi.stored hk
      have hresume (hd : s.status k = some .cancelled ∨ s.status k = some .failed) :
          ∃ e s', s.step e = some s' := by
        refine ⟨.resumeUpdate m, s.await m k, ?_⟩
        simp only [step, hp, if_pos (And.intro ho hd)]
      cases hs : t.status with
      | running => exact absurd hs (hr t ht)
      | cancelling => exact ⟨.taskEnds k, _, if_pos (by rw [status_eq ht, hs])⟩
      | cancelled => exact hresume (.inl (by rw [status_eq ht, hs]))
      | failed => exact hresume (.inr (by rw [status_eq ht, hs]))
    | returned => exact absurd (.inl hp) hnot
    | raised => exact absurd (.inr (.inl hp)) hnot

theorem exists_ended (hi : Inv s) : ∃ es t, Steps s es t ∧ t.outcome ≠ none := by
  have hsize : ∀ s e t, Inv s → Trace.ofFn step s e t → t.size < s.size :=
    fun _ _ _ hi hst => size_step hi hst
  have hnext : ∀ s, Inv s → ¬ s.outcome ≠ none → ∃ e t, Trace.ofFn step s e t :=
    fun _ hi hd => progress hi (not_not.mp hd)
  exact Trace.exists_done (fun _ _ _ hi hst => inv_step hi hst) hsize hnext hi

theorem outcome_step (hi : Inv s) {e : Event} {r : Result} (hr : s.outcome = some r)
    (hst : s.step e = some s') : s'.outcome = some r := by
  have hno : s.outcome ≠ none := by simp [hr]
  cases step_cases hi hst with
  | unknown ho _ _ => exact absurd ho hno
  | raises _ ho _ _ _ _ _ _ => exact absurd ho hno
  | creates _ ho _ _ _ _ _ _ => exact absurd ho hno
  | waits ho _ _ _ _ _ => exact absurd ho hno
  | abort ho _ _ => exact absurd ho hno
  | join ho _ _ => exact absurd ho hno
  | taskEnds _ _ => exact hr
  | taskFails _ _ => exact hr

/-! ## The two operations -/

/-- `update_bps` of a known metric, or `redistribute_bps_fairly`. -/
def Reallocates (s : Handler) : Call → Prop
  | .updateBps metric_id _ => metric_id ∈ s.metrics
  | .redistributeBpsFairly => True
  | _ => False

def addressed (s : Handler) : Call → List String
  | .updateBps metric_id _ => [metric_id]
  | _ => s.metrics.keys

def requested (s : Handler) : Call → Int
  | .updateBps _ bps => bps
  | _ => s.maxBps.fdiv s.metrics.keys.length

/-- The operation starts its updates, or there are no metrics to divide the maximum by. -/
theorem call_cases {c : Call} (hc : s.Reallocates c) (hcall : s.call c = some s') :
    s.outcome ≠ none ∧ (∀ m ∈ s.addressed c, m ∈ s.metrics) ∧
      ((∃ group, s' = s.start group (s.addressed c) (s.requested c)) ∧ s.addressed c ≠ [] ∨
      s'.outcome = some .raised ∧ s.addressed c = []) := by
  cases c with
  | addMetric m => exact hc.elim
  | setMaxBps bps => exact hc.elim
  | updateBps m bps =>
    simp only [call] at hcall
    split at hcall <;> cases hcall
    rename_i ho
    refine ⟨ho, fun m' hm' => ?_, .inl ⟨⟨false, rfl⟩, by simp [addressed]⟩⟩
    rw [List.mem_singleton.mp hm']
    exact hc
  | redistributeBpsFairly =>
    simp only [call] at hcall
    split at hcall <;> cases hcall
    rename_i ho
    refine ⟨ho, fun m hm => AList.mem_keys.mpr hm, ?_⟩
    cases hk : s.metrics.keys with
    | nil =>
      refine .inr ⟨?_, hk⟩
      simp only [redistributeBpsFairly, hk]
    | cons m ms =>
      refine .inl ⟨⟨true, ?_⟩, by simp [addressed, hk]⟩
      simp only [redistributeBpsFairly, addressed, requested, hk]

/-- The operation repairs what it addresses, in whatever order it goes on, exactly if there is
something to address, none of its stored tasks has failed before, and no stored task fails in the
meantime. And it ends. From every reachable state, by `inv_reachable`. -/
theorem repairs_iff {s₁ : Handler} {c : Call} (hi₀ : Inv s₀) (hc : s₀.Reallocates c)
    (hcall : s₀.call c = some s₁) {es : List Event} (hrun : Steps s₁ es s) :
    (∀ r, s.outcome = some r →
      (r = .returned ∧ Repaired s₀ s (s₀.addressed c) (s₀.requested c) ↔
        s₀.addressed c ≠ [] ∧ (∀ m ∈ s₀.addressed c, ¬ s₀.HasFailed m) ∧
          Trace.Run (Trace.Given Spares (Trace.ofFn step)) s₁ es s)) ∧
    ∃ es' t, Steps s es' t ∧ t.outcome ≠ none := by
  have hi₁ := inv_call hi₀ hcall
  have hi : Inv s := hrun.invariant hi₁ fun _ _ _ hi hst => inv_step hi hst
  refine ⟨fun r hr => ?_, exists_ended hi⟩
  obtain ⟨ho, hknown, ⟨⟨group, rfl⟩, hne⟩ | ⟨hraised, hnil⟩⟩ := call_cases hc hcall
  · have hop₁ := op_start hi₀ ho group (s₀.addressed c) (s₀.requested c)
    have hop := hrun.invariant hop₁ fun _ _ _ h hst => op_step h hst
    have hms : ∀ m, m ∈ s.updates ↔ m ∈ s₀.addressed c :=
      fun m => (hop.updates m).trans mem_createUpdates
    have hiff := repaired_iff_intact hop hr hms fun m hm => (hop.metrics m).mpr (hknown m hm)
    rw [hop.bps] at hiff
    have hintact := Trace.run_iff_given (fun _ _ _ h hst => op_step h hst)
      (fun _ _ _ h hst => intact_step h hst) hrun hop₁
    have hstart : Intact (s₀.start group (s₀.addressed c) (s₀.requested c))
        (s₀.start group (s₀.addressed c) (s₀.requested c)) ↔
          ∀ m ∈ s₀.addressed c, ¬ s₀.HasFailed m := by
      constructor
      · intro h m hm
        exact h.addressed m (mem_createUpdates.mpr hm)
      · intro h
        exact ⟨fun m hm => h m (mem_createUpdates.mp hm), fun _ _ => rfl⟩
    rw [and_iff_right hne, ← hstart, ← hintact, ← hiff]
    constructor
    · rintro ⟨hret, hrep⟩
      exact ⟨hret, hrep.fresh, hrep.others⟩
    · rintro ⟨hret, hrep⟩
      exact ⟨hret, hrep.fresh, hrep.others⟩
  · have hend : Inv s ∧ s.outcome = some .raised :=
      hrun.invariant (I := fun s => Inv s ∧ s.outcome = some .raised) ⟨hi₁, hraised⟩
        fun _ _ _ h hst => ⟨inv_step h.1 hst, outcome_step h.1 h.2 hst⟩
    refine iff_of_false (fun h => ?_) fun h => h.1 hnil
    rw [hend.2, h.1] at hr
    cases hr

/-- Two metrics are known, and the subscription of the second has failed. -/
def oneFailed : List (Event ⊕ Call) :=
  [.inr (.addMetric "temp"), .inr (.addMetric "volt"), .inl (.taskFails 1)]

def updateFirst : List Event := [.beginUpdate "temp", .taskEnds 0, .resumeUpdate "temp", .join]

theorem other_metric_repaired : ∃ s₀ s₁ s, Reachable "manual" 100 s₀ ∧
    s₀.call (.updateBps "temp" 5) = some s₁ ∧ Steps s₁ updateFirst s ∧ s₀.HasFailed "volt" ∧
    Repaired s₀ s ["temp"] 5 := by
  have hrun : ∃ s₀ s₁ s, Trace.exec anyStep (init "manual" 100) oneFailed = some s₀ ∧
      s₀.call (.updateBps "temp" 5) = some s₁ ∧ Trace.exec step s₁ updateFirst = some s ∧
      s.outcome = some .returned ∧ "temp" ∈ s₀.metrics ∧
      s₀.subscription "temp" = some ⟨"temp", 0, .running⟩ ∧
      s₀.subscription "volt" = some ⟨"volt", 0, .failed⟩ :=
    ⟨_, _, _, rfl, rfl, rfl, rfl, by decide, rfl, rfl⟩
  obtain ⟨s₀, s₁, s, hs₀, hcall, hs, hout, hm, htemp, hvolt⟩ := hrun
  have hreach : Reachable "manual" 100 s₀ := ⟨_, Trace.run_of_exec hs₀⟩
  have hsteps : Steps s₁ updateFirst s := Trace.run_of_exec hs
  refine ⟨s₀, s₁, s, hreach, hcall, hsteps, (hasFailed_iff hvolt).mpr rfl, ?_⟩
  have hiff := repairs_iff (c := .updateBps "temp" 5) (inv_reachable hreach) hm hcall hsteps
  refine ((hiff.1 _ hout).mpr
    ⟨by simp [addressed], fun m hmem hf => ?_, hsteps.given ?_⟩).2
  · rw [List.mem_singleton.mp hmem, hasFailed_iff htemp] at hf
    cases hf
  · simp [updateFirst, Spares]

/-- The second one is updated, and its exception is raised again. -/
theorem failed_subscription_raises : ¬ ∀ (bps_distribution_mode : String) (max_bps : Int)
    (s₀ s₁ s : Handler) (c : Call) (es : List Event) (r : Result),
    Reachable bps_distribution_mode max_bps s₀ → s₀.Reallocates c → s₀.call c = some s₁ →
      Steps s₁ es s → s.outcome = some r →
        r = .returned ∧ Repaired s₀ s (s₀.addressed c) (s₀.requested c) := by
  intro h
  have hrun : ∃ s₀ s₁ s, Trace.exec anyStep (init "manual" 100) oneFailed = some s₀ ∧
      s₀.call (.updateBps "volt" 5) = some s₁ ∧
      Trace.exec step s₁ [.beginUpdate "volt", .join] = some s ∧
      s.outcome = some .raised ∧ "volt" ∈ s₀.metrics :=
    ⟨_, _, _, rfl, rfl, rfl, rfl, by decide⟩
  obtain ⟨s₀, s₁, s, hs₀, hcall, hs, hout, hm⟩ := hrun
  have hret := (h "manual" 100 s₀ s₁ s (.updateBps "volt" 5) _ _ ⟨_, Trace.run_of_exec hs₀⟩ hm hcall
    (Trace.run_of_exec hs) hout).1
  cases hret

end Handler

end Reallocation
end Ground
end BvexLink
