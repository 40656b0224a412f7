import BvexLink.Ground.KeepsUp

/-!
# BvexLink.Ground.Found

What `sync_metric_ids` can ever learn: its one request has one scan, and a metric that the cache
does not hold when that scan is over is never known on the ground, whatever the loop reads later.

* `scan_cases`: what each event leaves of the scan and the cache.
* `foundIn_step`, `written_scan`: what it found was in the cache, and stays what it found.
* `known_was_there`: so what is known was in the cache then.
-/

namespace BvexLink
namespace Ground

open Wire Framing Codec RedisClient

namespace Discovery

section Found

variable {F : Type} [Primitives F] {s t u : Discovery}

/-- The keys that a scan gave are those of metrics in `cache`. -/
def FoundIn (cache : List String) (scan : Scan) : Prop :=
  ∀ keys, scan = .sent keys → ∀ key ∈ keys, ∃ m ∈ cache, key = cacheKey m

/-- What an event leaves of the scan and the cache. -/
inductive ScanCase (s t : Discovery) : Prop where
  | same : t.scan = s.scan → (∀ m ∈ s.cache, m ∈ t.cache) → ScanCase s t
  | begins (i : Nat) : s.Runs i → s.scan i = .idle →
      t.scan = (s.setScan i (.scanning s.cache)).scan → t.cache = s.cache → ScanCase s t
  | ends (i : Nat) (there : List String) (scan : Scan) : s.scan i = .scanning there →
      scan.written = true → FoundIn s.cache scan → t.scan = (s.setScan i scan).scan →
      t.cache = s.cache → ScanCase s t

theorem scan_onHandler {e : MetricSubscribeHandler.Event} (h : s.onHandler e = some t) :
    t.scan = s.scan ∧ t.cache = s.cache := by
  obtain ⟨handler, _, rfl⟩ := onHandler_eq_some.mp h
  exact ⟨rfl, rfl⟩

theorem scan_onRead {py : Pydantic} {data : Bytes} {new_metric_ids : List String}
    (h : s.onRead F py data new_metric_ids = some t) : t.scan = s.scan ∧ t.cache = s.cache := by
  rw [onRead] at h
  split at h
  · obtain ⟨hs, hc⟩ := scan_onHandler h
    exact ⟨hs, hc⟩
  · cases h
    exact ⟨rfl, rfl⟩
  · cases h
    exact ⟨rfl, rfl⟩
  · cases h
    exact ⟨rfl, rfl⟩

theorem scanEnd_found {py : Pydantic} {i : Nat} {keys metric_ids : List String}
    (h : step F py s (.scanEnd i keys metric_ids) = some t) :
    ∀ key ∈ keys, ∃ m ∈ s.cache, key = cacheKey m := by
  rw [step] at h
  split at h
  · split at h
    · rename_i hg
      exact hg.2.2.1
    · cases h
  · cases h

theorem scan_cases {py : Pydantic} {e : DiscoveryEvent} (h : step F py s e = some t) :
    ScanCase s t := by
  have hsame (hs : t.scan = s.scan) (hc : t.cache = s.cache) : ScanCase s t :=
    .same hs fun m hm => hc ▸ hm
  cases e with
  | appear metric_id =>
    cases h
    exact .same rfl fun m hm => List.mem_append_left _ hm
  | onboard e =>
    rw [step] at h
    split at h
    · obtain ⟨conn, _, rfl⟩ := Option.map_eq_some_iff.mp h
      exact hsame rfl rfl
    · cases h
  | scanBegin i =>
    rw [step] at h
    split at h
    · rename_i hg
      cases h
      exact .begins i hg.1 hg.2 rfl rfl
    · cases h
  | scanEnd i keys metric_ids =>
    have hfound := scanEnd_found h
    obtain ⟨there, scan, downlink, hs, _, hcases, rfl⟩ := scanEnd_cases h
    rcases hcases with ⟨rfl, _⟩ | ⟨rfl, _⟩
    · exact .ends i there .discarded hs rfl (fun keys hk => by cases hk) rfl rfl
    · exact .ends i there (.sent keys) hs rfl (fun keys' hk => by cases hk; exact hfound) rfl rfl
  | connected =>
    rw [step] at h
    split at h
    · split at h <;> cases h <;> exact hsame rfl rfl
    · cases h
  | drained =>
    rw [step] at h
    split at h <;> cases h
    exact hsame rfl rfl
  | read data new_metric_ids =>
    rw [step] at h
    split at h
    · obtain ⟨hs, hc⟩ := scan_onRead h
      exact hsame hs hc
    · cases h
  | updated =>
    rw [step] at h
    split at h <;> cases h
    exact hsame rfl rfl
  | timeout =>
    rw [step] at h
    split at h <;> cases h
    exact hsame rfl rfl
  | wake =>
    rw [step] at h
    split at h <;> cases h
    exact hsame rfl rfl
  | raised =>
    rw [step] at h
    split at h <;> cases h
    exact hsame rfl rfl
  | handler e =>
    rw [step] at h
    split at h
    · obtain ⟨hs, hc⟩ := scan_onHandler h
      exact hsame hs hc
    · cases h

theorem FoundIn.mono {cache cache' : List String} {scan : Scan} (h : FoundIn cache scan)
    (hc : ∀ m ∈ cache, m ∈ cache') : FoundIn cache' scan := by
  intro keys hk key hkey
  obtain ⟨m, hm, rfl⟩ := h keys hk key hkey
  exact ⟨m, hc m hm, rfl⟩

theorem foundIn_step {py : Pydantic} {e : DiscoveryEvent} (hi : Inv F s)
    (hf : FoundIn s.cache (s.scan 0)) (h : step F py s e = some t) :
    FoundIn t.cache (t.scan 0) := by
  cases scan_cases h with
  | same hs hc =>
    rw [hs]
    exact hf.mono hc
  | begins i hr _ hs hc =>
    rw [hi.runs hr] at hs
    rw [hs, setScan_scan, if_pos rfl]
    intro keys hk
    cases hk
  | ends i there scan hs _ hfound ht hc =>
    rw [hi.scan i (by rw [hs]; simp)] at ht
    rw [ht, hc, setScan_scan, if_pos rfl]
    exact hfound

/-- A scan that is over is left as it is. -/
theorem written_scan {py : Pydantic} {e : DiscoveryEvent} (hi : Inv F s)
    (hw : (s.scan 0).written = true) (h : step F py s e = some t) : t.scan 0 = s.scan 0 := by
  cases scan_cases h with
  | same hs _ => rw [hs]
  | begins i hr hidle _ _ =>
    rw [hi.runs hr] at hidle
    rw [hidle] at hw
    cases hw
  | ends i there scan hs _ _ _ _ =>
    rw [hi.scan i (by rw [hs]; simp)] at hs
    rw [hs] at hw
    cases hw

theorem Inv.known (hi : Inv F s) {m : String} (hm : m ∈ s.handler.metrics) :
    ∃ keys, s.scan 0 = .sent keys ∧ cacheKey m ∈ keys ∧ ':' ∉ m.toList := by
  have hlearned := hi.learned m (.inl hm)
  have hne : s.learned ≠ [] := List.ne_nil_of_mem hlearned
  cases hi.reply with
  | unsent _ _ hnil => exact absurd hnil hne
  | pending _ _ _ _ _ hnil => exact absurd hnil hne
  | cut _ hnil => exact absurd hnil hne
  | read keys hs hids _ =>
    obtain ⟨key, hkey, hk⟩ := hids.2.1 m hlearned
    obtain ⟨rfl, hcolon⟩ := metricIdOfKey_eq_some.mp hk
    exact ⟨keys, hs, hkey, hcolon⟩

theorem Inv.known_in (hi : Inv F s) {cache : List String} (hf : FoundIn cache (s.scan 0))
    {m : String} (hm : m ∈ s.handler.metrics) : m ∈ cache ∧ ':' ∉ m.toList := by
  obtain ⟨keys, hs, hkey, hcolon⟩ := hi.known hm
  obtain ⟨m', hm', he⟩ := hf keys hs _ hkey
  rw [← Redis.cacheKey_inj.mp he] at hm'
  exact ⟨hm', hcolon⟩

/-- Once the scan for the request is over, every metric that is ever known, and every task of
`subscribe`, is of a metric id that was in the cache then and has no colon. -/
theorem known_was_there (hF : FloatsRoundTrip F) {py : Pydantic} {cache : List String}
    {stopEvent : Bool} {bps_distribution_mode : String} {max_bps : Int}
    {es es' : List DiscoveryEvent}
    (h : Steps F py (init cache stopEvent bps_distribution_mode max_bps) es s)
    (hw : (s.scan 0).written = true) (h' : Steps F py s es' u) :
    (∀ m ∈ u.handler.metrics, m ∈ s.cache ∧ ':' ∉ m.toList) ∧
      ∀ (k : TaskId) (task : SubscribeTask), u.handler.subscribeTasks[k]? = some task →
        task.metricId ∈ s.cache := by
  obtain ⟨hi, hf⟩ := h.invariant (I := fun s => Inv F s ∧ FoundIn s.cache (s.scan 0))
    ⟨inv_init F cache stopEvent bps_distribution_mode max_bps, fun keys hk => by cases hk⟩
    fun _ _ _ hi hs => ⟨inv_step hF hi.1 hs, foundIn_step hi.1 hi.2 hs⟩
  obtain ⟨hi', hscan⟩ := h'.invariant (I := fun t => Inv F t ∧ t.scan 0 = s.scan 0) ⟨hi, rfl⟩
    fun _ _ _ ht hs =>
      ⟨inv_step hF ht.1 hs, (written_scan ht.1 (ht.2 ▸ hw) hs).trans ht.2⟩
  rw [← hscan] at hf
  refine ⟨fun m hm => hi'.known_in hf hm, fun k task ht => ?_⟩
  exact (hi'.known_in hf (hi'.handler.known ht)).1

end Found

/-- `volt` is set when the scan is over. -/
theorem late_metric_unknown : ∃ s u,
    @Steps Bool twoFloats Pydantic.strict (init ["temp"] false "fair" 10)
      (request ++ [.scanEnd 0 [cacheKey "temp"] ["temp"]]) s ∧
    @Steps Bool twoFloats Pydantic.strict s
      [.appear "volt", .read (@encodeMessage Bool twoFloats idsMessage) ["temp"]] u ∧
    "volt" ∈ u.cache ∧ "temp" ∈ u.handler.metrics ∧
    ∀ m ∈ u.handler.metrics, m ∈ ["temp"] ∧ ':' ∉ m.toList := by
  have hrequest := @request_run Bool twoFloats Pydantic.strict ["temp"] "fair" 10
  let asked := requested ["temp"] "fair" 10
  let sent := { asked.setScan 0 (.sent [cacheKey "temp"]) with
    downlink := @encodeMessage Bool twoFloats idsMessage }
  let later := { sent with cache := ["temp", "volt"] }
  have hids : IsIdList [cacheKey "temp"] ["temp"] := by decide +kernel
  have hsent := @step_scanEnd Bool twoFloats Pydantic.strict asked 0 ["temp"] [cacheKey "temp"]
    ["temp"] rfl ⟨_, rfl, rfl, rfl⟩ (by simp) (by simp [asked, requested, setScan, init]) hids rfl
    rfl
  have happear : @step Bool twoFloats Pydantic.strict sent (.appear "volt") = some later := rfl
  have hread := @step_read Bool twoFloats twoFloats_roundTrip Pydantic.strict later ["temp"]
    ["temp"] rfl rfl (by rw [show later.downlink = _ from rfl, idsMessage_length]; omega)
  have hlist : ∃ t, { listRead with cache := ["temp", "volt"] }.onHandler
      (.updateMetricIdList ["temp"] ["temp"]) = some t ∧ t.cache = ["temp", "volt"] ∧
        t.handler.metrics.keys = ["temp"] := ⟨_, rfl, rfl, rfl⟩
  obtain ⟨u, hu, hcache, hkeys⟩ := hlist
  have hbefore := hrequest.append (.single hsent)
  have hafter : @Steps Bool twoFloats Pydantic.strict sent
      [.appear "volt", .read later.downlink ["temp"]] u := .cons happear (.single (hread.trans hu))
  refine ⟨sent, u, hbefore, hafter, by rw [hcache]; simp, ?_, ?_⟩
  · exact AList.mem_keys.mpr (by rw [hkeys]; exact List.mem_singleton_self _)
  · exact (@known_was_there Bool twoFloats sent u twoFloats_roundTrip Pydantic.strict ["temp"] false
      "fair" 10 _ _ hbefore rfl hafter).1

end Discovery
end Ground
end BvexLink
