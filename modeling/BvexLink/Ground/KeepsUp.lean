import BvexLink.Ground.Discovery

/-!
# BvexLink.Ground.KeepsUp

Whether the handler has what the cache had when the iteration of `sync_metric_ids` began.

* `inv_step`: the invariant of the whole system.
* `keeps_up_iff`: in which runs discovery keeps up.
-/

namespace BvexLink
namespace Ground

open Wire Framing Codec RedisClient

namespace Discovery

section Steps

variable {F : Type} [Primitives F] {s t : Discovery}

/-! ## One step -/

/-- What the end of a scan leaves. -/
theorem scanEnd_cases {py : Pydantic} {i : Nat} {keys metric_ids : List String}
    (h : step F py s (.scanEnd i keys metric_ids) = some t) : ∃ there scan downlink,
      s.scan i = .scanning there ∧ IsIdList keys metric_ids ∧
      (scan = .discarded ∧ downlink = s.downlink ∨ scan = .sent keys ∧
        downlink = s.downlink ++ encodeMessage (F := F) (.metricIds ⟨metric_ids⟩)) ∧
      t = { s.setScan i scan with downlink := downlink } := by
  rw [step] at h
  split at h
  case h_2 => cases h
  rename_i there hs
  split at h
  case isFalse => cases h
  rename_i hg
  rw [handleGetMetricIds_eq] at h
  dsimp only at h
  split at h
  · exact ⟨there, .discarded, s.downlink, hs, hg.2.2.2, .inl ⟨rfl, rfl⟩, (Option.some.inj h).symm⟩
  · exact ⟨there, .sent keys, _, hs, hg.2.2.2, .inr ⟨rfl, rfl⟩, (Option.some.inj h).symm⟩

/-- Neither the handler nor the reply is touched. -/
theorem Inv.same (hi : Inv F s) (hconn : Onboard.Inv t.conn) (hh : t.handler = s.handler)
    (hs : t.scan = s.scan) (hd : t.downlink = s.downlink) (hl : t.learned = s.learned)
    (ha : t.added = s.added)
    (hidle : t.pc ≠ .updating → ∀ r ∈ s.handler.redistributions, r.sync = false)
    (hfresh : t.pc = .connecting ∨ t.pc = .draining ∨ t.pc = .reading → t.completed = false)
    (hended : s.pc = .ended → t.pc = .ended) : Inv F t where
  conn := hconn
  handler := hh ▸ hi.handler
  rests := hh ▸ hi.rests
  scan := hs ▸ hi.scan
  idle := hh ▸ hidle
  fresh := hfresh
  learned := by
    rw [hh, hl]
    exact hi.learned
  added := by
    rw [hh, ha]
    exact hi.added
  reply := by
    cases hi.reply with
    | unsent hn hdown hlearned => exact .unsent (hs ▸ hn) (hd ▸ hdown) (hl ▸ hlearned)
    | pending keys ids hk hids hdown hlearned =>
      exact .pending keys ids (hs ▸ hk) hids (hd ▸ hdown) (hl ▸ hlearned)
    | read keys hk hids hdown => exact .read keys (hs ▸ hk) (hl ▸ hids) (hd ▸ hdown)
    | cut he hlearned => exact .cut (hended he) (hl ▸ hlearned)

theorem scan_setScan (hi : Inv F s) (scan : Scan) (j : Nat)
    (hj : (s.setScan 0 scan).scan j ≠ .idle) : j = 0 := by
  by_contra hne
  rw [setScan_scan, if_neg hne] at hj
  exact hne (hi.scan j hj)

theorem setScan_unsent {scan : Scan} (h : ∀ i keys, s.scan i ≠ .sent keys)
    (hscan : ∀ keys, scan ≠ .sent keys) (i : Nat) (keys : List String) :
    (s.setScan 0 scan).scan i ≠ .sent keys := by
  rw [setScan_scan]
  split
  · exact hscan keys
  · exact h i keys

theorem inv_scanBegin {i : Nat} (hi : Inv F s) (hr : s.Runs i) (hidle : s.scan i = .idle) :
    Inv F (s.setScan i (.scanning s.cache)) := by
  have hzero := hi.runs hr
  subst hzero
  refine ⟨hi.conn, hi.handler, hi.rests, scan_setScan hi _, hi.idle, hi.fresh, hi.learned,
    hi.added, ?_⟩
  cases hi.reply with
  | unsent hn hdown hlearned => exact .unsent (setScan_unsent hn (by simp)) hdown hlearned
  | pending keys ids hk _ _ _ =>
    rw [hidle] at hk
    cases hk
  | read keys hk _ _ =>
    rw [hidle] at hk
    cases hk
  | cut he hlearned => exact .cut he hlearned

theorem inv_scanEnd {there keys metric_ids : List String} {scan : Scan} {downlink : Bytes}
    (hi : Inv F s) (hscan : s.scan 0 = .scanning there) (hids : IsIdList keys metric_ids)
    (hcases : scan = .discarded ∧ downlink = s.downlink ∨ scan = .sent keys ∧
      downlink = s.downlink ++ encodeMessage (F := F) (.metricIds ⟨metric_ids⟩)) :
    Inv F { s.setScan 0 scan with downlink := downlink } := by
  refine ⟨hi.conn, hi.handler, hi.rests, scan_setScan hi scan, hi.idle, hi.fresh, hi.learned,
    hi.added, ?_⟩
  cases hi.reply with
  | unsent hn hdown hlearned =>
    rcases hcases with ⟨hs, hd⟩ | ⟨hs, hd⟩
    · exact .unsent (setScan_unsent hn (by simp [hs])) (hd.trans hdown) hlearned
    · rw [hdown, List.nil_append] at hd
      have hthis : (s.setScan 0 scan).scan 0 = .sent keys := by rw [setScan_scan, if_pos rfl, hs]
      exact .pending keys metric_ids hthis hids hd hlearned
  | pending keys ids hk _ _ _ =>
    rw [hscan] at hk
    cases hk
  | read keys hk _ _ =>
    rw [hscan] at hk
    cases hk
  | cut he hlearned => exact .cut he hlearned

/-- `add_metric` is called for what is new only. -/
theorem Inv.added_step (hi : Inv F s) {e : MetricSubscribeHandler.Event}
    {handler : MetricSubscribeHandler} (h : s.handler.step e = some handler) :
    (s.added ++ s.handler.added e).Nodup ∧
      ∀ m, m ∈ s.added ++ s.handler.added e ↔ m ∈ handler.metrics := by
  obtain ⟨hn, hmem⟩ := hi.added
  obtain ⟨hn', hnew⟩ := MetricSubscribeHandler.added_new hi.rests h
  refine ⟨List.nodup_append.mpr ⟨hn, hn', ?_⟩, fun m => ?_⟩
  · rintro m hm _ hm' rfl
    exact hnew m hm' ((hmem m).mp hm)
  · rw [List.mem_append, hmem, MetricSubscribeHandler.mem_metrics_step hi.handler h]

theorem covered_handler (hi : Inv F s) {e : MetricSubscribeHandler.Event}
    {handler : MetricSubscribeHandler} (hc : s.Concurrent e) (h : s.handler.step e = some handler)
    {m : String} (hm : handler.Covered m) : s.handler.Covered m := by
  cases e with
  | updateMetricIdList latest new => exact hc.elim
  | timeout r =>
    exact .inl ((MetricSubscribeHandler.covered_timeout hi.rests h m).mp hm)
  | _ => exact (MetricSubscribeHandler.covered_step hi.handler h (by simp) (by simp) m).mp hm

theorem inv_handler (hi : Inv F s) {e : MetricSubscribeHandler.Event}
    {handler : MetricSubscribeHandler} (hc : s.Concurrent e) (h : s.handler.step e = some handler) :
    Inv F { s with handler := handler, added := s.added ++ s.handler.added e } := by
  have hlist (latest new : List String) : e ≠ .updateMetricIdList latest new := by
    rintro rfl
    exact hc
  refine ⟨hi.conn, MetricSubscribeHandler.inv_step hi.handler h, ?_, hi.scan, ?_, hi.fresh, ?_,
    hi.added_step h, ?_⟩
  · exact MetricSubscribeHandler.rests_step hi.handler hi.rests
      (fun latest new he => absurd he (hlist latest new)) h
  · exact fun hpc => MetricSubscribeHandler.sync_step hi.rests h hlist (hi.idle hpc)
  · exact fun m hm => hi.learned m (covered_handler hi hc h hm)
  · cases hi.reply with
    | unsent hn hdown hlearned => exact .unsent hn hdown hlearned
    | pending keys ids hk hids hdown hlearned => exact .pending keys ids hk hids hdown hlearned
    | read keys hk hids hdown => exact .read keys hk hids hdown
    | cut he hlearned => exact .cut he hlearned

theorem onHandler_eq_some {e : MetricSubscribeHandler.Event} : s.onHandler e = some t ↔
    ∃ handler, s.handler.step e = some handler ∧
      t = { s with handler := handler, added := s.added ++ s.handler.added e } := by
  rw [onHandler, Option.map_eq_some_iff]
  simp only [eq_comm]

theorem inv_read (hi : Inv F s) {data : Bytes} {new_metric_ids : List String}
    (hpc : s.pc = .reading) (h : ReadCase s data new_metric_ids t) : Inv F t := by
  have hsync := hi.idle (by simp [hpc])
  have hended : s.pc ≠ .ended := by simp [hpc]
  cases h with
  | eof _ _ ht =>
    subst ht
    exact hi.same hi.conn rfl rfl rfl rfl rfl (fun _ => hsync) (by simp) (absurd · hended)
  | reply keys ids hs hids hl hd ht =>
    obtain ⟨handler, hstep, rfl⟩ := onHandler_eq_some.mp ht
    refine ⟨hi.conn, MetricSubscribeHandler.inv_step hi.handler hstep, ?_, hi.scan, absurd rfl,
      by simp, ?_, hi.added_step hstep, .read keys hs hids rfl⟩
    · exact MetricSubscribeHandler.rests_step hi.handler hi.rests (fun _ _ _ => hsync) hstep
    · intro m hm
      rcases (MetricSubscribeHandler.covered_list hstep m).mp hm with hm | hm
      · have hlearned := hi.learned m hm
        rw [hl] at hlearned
        cases hlearned
      · exact (MetricSubscribeHandler.step_list hstep).1 m hm
  | cut keys ids rest hs hids hl _ ht =>
    subst ht
    exact ⟨hi.conn, hi.handler, hi.rests, hi.scan, fun _ => hsync, by simp, hi.learned, hi.added,
      .cut rfl hl⟩

theorem inv_step (hF : FloatsRoundTrip F) {py : Pydantic} {e : DiscoveryEvent} (hi : Inv F s)
    (h : step F py s e = some t) : Inv F t := by
  cases e with
  | appear metric_id =>
    cases h
    exact hi.same hi.conn rfl rfl rfl rfl rfl hi.idle hi.fresh id
  | onboard e =>
    rw [step] at h
    split at h
    · obtain ⟨conn, hconn, rfl⟩ := Option.map_eq_some_iff.mp h
      exact hi.same (Onboard.inv_step hi.conn hconn) rfl rfl rfl rfl rfl hi.idle hi.fresh id
    · cases h
  | scanBegin i =>
    rw [step] at h
    split at h
    · rename_i hg
      cases h
      exact inv_scanBegin hi hg.1 hg.2
    · cases h
  | scanEnd i keys metric_ids =>
    obtain ⟨there, scan, downlink, hs, hids, hcases, rfl⟩ := scanEnd_cases h
    have hzero := hi.scan i (by simp [hs])
    subst hzero
    exact inv_scanEnd hi hs hids hcases
  | connected =>
    rw [step] at h
    split at h
    · rename_i hpc
      split at h <;> cases h
      · exact hi.same hi.conn rfl rfl rfl rfl rfl (fun _ => hi.idle (by simp [hpc]))
          (fun _ => hi.fresh (.inl hpc)) (by simp [hpc])
      · exact hi.same hi.conn rfl rfl rfl rfl rfl (fun _ => hi.idle (by simp [hpc]))
          (fun _ => hi.fresh (.inl hpc)) (by simp [hpc])
    · cases h
  | drained =>
    rw [step] at h
    split at h
    · rename_i hpc
      cases h
      exact hi.same hi.conn rfl rfl rfl rfl rfl (fun _ => hi.idle (by simp [hpc]))
        (fun _ => rfl) (by simp [hpc])
    · cases h
  | read data new_metric_ids =>
    obtain ⟨hpc, hcase⟩ := read_cases hF hi h
    exact inv_read hi hpc hcase
  | updated =>
    rw [step] at h
    split at h
    · rename_i hg
      cases h
      exact hi.same hi.conn rfl rfl rfl rfl rfl (fun _ => hg.2) (by simp) (by simp [hg.1])
    · cases h
  | timeout =>
    rw [step] at h
    split at h
    · rename_i hpc
      cases h
      exact hi.same hi.conn rfl rfl rfl rfl rfl (fun _ => hi.idle (by simp [hpc])) (by simp)
        (by simp [hpc])
    · cases h
  | wake =>
    rw [step] at h
    split at h
    · rename_i hpc
      cases h
      exact hi.same hi.conn rfl rfl rfl rfl rfl (fun _ => hi.idle (by simp [hpc]))
        (fun _ => rfl) (by simp [hpc])
    · cases h
  | raised =>
    rw [step] at h
    split at h
    · rename_i hpc
      cases h
      refine hi.same hi.conn rfl rfl rfl rfl rfl (fun _ => hi.idle ?_) (by simp) fun _ => rfl
      rcases hpc with hpc | hpc | hpc <;> simp [hpc]
    · cases h
  | handler e =>
    rw [step] at h
    split at h
    · rename_i hc
      obtain ⟨handler, hstep, rfl⟩ := onHandler_eq_some.mp h
      exact inv_handler hi hc hstep
    · cases h

/-- Neither the handler nor what was learned is touched. -/
theorem KeepsUp.same (hk : s.KeepsUp) (hi : Inv F s) (ht : Inv F t) (hh : t.handler = s.handler)
    (hl : t.learned = s.learned)
    (hfound : t.completed = true → s.completed = true ∧ t.began = s.began) : t.KeepsUp := by
  obtain ⟨hfs, hks⟩ := hi.keepsUp_iff.mp hk
  refine ht.keepsUp_iff.mpr ⟨fun hc m hm => ?_, fun m hm => ?_⟩
  · obtain ⟨hc, hb⟩ := hfound hc
    rw [hh]
    exact hfs hc m (hb ▸ hm)
  · rw [hh]
    exact hks m (hl ▸ hm)

/-- Nothing was learned yet. -/
theorem covered_nil (hi : Inv F s) (hl : s.learned = []) (m : String) : ¬ s.handler.Covered m := by
  intro hm
  have hmem := hi.learned m hm
  rw [hl] at hmem
  cases hmem

theorem keepsUp_read (hi : Inv F s) (ht : Inv F t) (hk : s.KeepsUp) {data : Bytes}
    {new_metric_ids : List String} (hpc : s.pc = .reading)
    (h : ReadCase s data new_metric_ids t) :
    t.KeepsUp ↔ s.Meets (.read data new_metric_ids) := by
  obtain ⟨_, hkept⟩ := hi.keepsUp_iff.mp hk
  rw [ht.keepsUp_iff]
  cases h with
  | eof hd hdown ht' =>
    subst ht'
    have hfound (m : String) : s.handler.Covered m ↔ s.Found m := by
      cases hi.reply with
      | unsent hn _ hl =>
        refine iff_of_false (covered_nil hi hl m) ?_
        rintro ⟨i, keys, hs, _⟩
        exact hn i keys hs
      | pending keys ids _ _ hm _ =>
        rw [hdown] at hm
        exact absurd hm.symm ((frames_telemetry .syncMetricIds Pydantic.strict).ne_nil _)
      | read keys hs hids _ =>
        rw [hi.found_iff hs hids]
        exact ⟨hi.learned m, hkept m⟩
      | cut he _ =>
        rw [hpc] at he
        cases he
    simp only [Meets, hd, hdown, true_or, true_and, ← hfound, forall_const]
    exact and_iff_left hkept
  | reply keys ids hs hids hl hd ht' =>
    obtain ⟨handler, hstep, rfl⟩ := onHandler_eq_some.mp ht'
    have hcovered (m : String) : handler.Covered m ↔ m ∈ ids := by
      refine ⟨ht.learned m, fun hm => ?_⟩
      refine (MetricSubscribeHandler.covered_list hstep m).mpr ?_
      rcases (MetricSubscribeHandler.step_list hstep).2 m hm with hmem | hmem
      · exact .inl (.inl hmem)
      · exact .inr hmem
    simp only [Meets, hd, true_or, true_and, hi.found_iff hs hids, hcovered, forall_const]
    exact and_iff_left fun m hm => hm
  | cut keys ids rest hs hids hl hd ht' =>
    subst ht'
    simp only [Meets, hd, false_or, hl, covered_nil hi hl, forall_const]
    constructor
    · rintro ⟨hb, _⟩
      have hnil : s.began = [] := List.eq_nil_iff_forall_not_mem.mpr hb
      exact ⟨hnil, by simp [hnil]⟩
    · rintro ⟨hnil, _⟩
      exact ⟨by simp [hnil], by simp⟩

theorem keepsUp_handler (hi : Inv F s) {e : MetricSubscribeHandler.Event}
    {handler : MetricSubscribeHandler} (hc : s.Concurrent e) (h : s.handler.step e = some handler)
    (ht : Inv F { s with handler := handler, added := s.added ++ s.handler.added e })
    (hk : s.KeepsUp) :
    KeepsUp { s with handler := handler, added := s.added ++ s.handler.added e } ↔
      s.Meets (.handler e) := by
  obtain ⟨hfound, hkept⟩ := hi.keepsUp_iff.mp hk
  rw [ht.keepsUp_iff]
  have hsame (hcov : ∀ m, s.handler.Covered m → handler.Covered m) :
      (s.completed = true → ∀ m ∈ s.began, handler.Covered m) ∧
        ∀ m ∈ s.learned, handler.Covered m :=
    ⟨fun hc m hm => hcov m (hfound hc m hm), fun m hm => hcov m (hkept m hm)⟩
  cases e with
  | updateMetricIdList latest new => exact hc.elim
  | timeout r =>
    obtain ⟨hr, hs⟩ := MetricSubscribeHandler.step_timeout h
    have hcovered := MetricSubscribeHandler.covered_timeout hi.rests h
    constructor
    · rintro ⟨_, hkept'⟩
      -- a metric left to add is learned and not known
      by_contra hne
      obtain ⟨m, hm⟩ := List.exists_mem_of_ne_nil _ hne
      have hl := hi.learned m (.inr ⟨r, hr, hm⟩)
      exact (hi.rests.new r hr hne).2.2 m hm ((hcovered m).mp (hkept' m hl))
    · intro hrest
      have hrest : r.rest = [] := hrest
      refine hsame fun m hm => (hcovered m).mpr ?_
      rcases hm with hm | ⟨r', hr', hm⟩
      · exact hm
      · by_cases hrr : r' = r
        · rw [hrr, hrest] at hm
          cases hm
        · have hmem := (List.mem_erase_of_ne hrr).mpr hr'
          rw [(hi.rests.erase hr hs r' hmem).2] at hm
          cases hm
  | _ =>
    exact iff_of_true (hsame fun m hm =>
      (MetricSubscribeHandler.covered_step hi.handler h (by simp) (by simp) m).mpr hm) trivial

theorem keepsUp_step (hF : FloatsRoundTrip F) {py : Pydantic} {e : DiscoveryEvent} (hi : Inv F s)
    (hk : s.KeepsUp) (h : step F py s e = some t) : t.KeepsUp ↔ s.Meets e := by
  have ht := inv_step hF hi h
  cases e with
  | appear metric_id =>
    cases h
    exact iff_of_true (hk.same hi ht rfl rfl fun hc => ⟨hc, rfl⟩) trivial
  | onboard e =>
    rw [step] at h
    split at h
    · obtain ⟨conn, _, rfl⟩ := Option.map_eq_some_iff.mp h
      exact iff_of_true (hk.same hi ht rfl rfl fun hc => ⟨hc, rfl⟩) trivial
    · cases h
  | scanBegin i =>
    rw [step] at h
    split at h <;> cases h
    exact iff_of_true (hk.same hi ht rfl rfl fun hc => ⟨hc, rfl⟩) trivial
  | scanEnd i keys metric_ids =>
    obtain ⟨there, scan, downlink, _, _, _, rfl⟩ := scanEnd_cases h
    exact iff_of_true (hk.same hi ht rfl rfl fun hc => ⟨hc, rfl⟩) trivial
  | connected =>
    rw [step] at h
    split at h
    · split at h <;> cases h
      · exact iff_of_true (hk.same hi ht rfl rfl fun hc => ⟨hc, rfl⟩) trivial
      · exact iff_of_true (hk.same hi ht rfl rfl fun hc => ⟨hc, rfl⟩) trivial
    · cases h
  | drained =>
    rw [step] at h
    split at h <;> cases h
    exact iff_of_true (hk.same hi ht rfl rfl fun hc => absurd hc Bool.false_ne_true) trivial
  | read data new_metric_ids =>
    obtain ⟨hpc, hcase⟩ := read_cases hF hi h
    exact keepsUp_read hi ht hk hpc hcase
  | wake =>
    rw [step] at h
    split at h <;> cases h
    exact iff_of_true (hk.same hi ht rfl rfl fun hc => absurd hc Bool.false_ne_true) trivial
  | handler e =>
    rw [step] at h
    split at h
    · rename_i hc
      obtain ⟨handler, hstep, rfl⟩ := onHandler_eq_some.mp h
      exact keepsUp_handler hi hc hstep ht hk
    · cases h
  | _ =>
    rw [step] at h
    split at h <;> cases h
    exact iff_of_true (hk.same hi ht rfl rfl fun hc => ⟨hc, rfl⟩) trivial

/-- Discovery keeps up throughout a run if and only if each read and each timeout of the loop meets
the condition. -/
theorem keeps_up_iff (hF : FloatsRoundTrip F) {py : Pydantic} {cache : List String}
    {stopEvent : Bool} {bps_distribution_mode : String} {max_bps : Int}
    {es : List DiscoveryEvent} {s : Discovery}
    (h : Steps F py (init cache stopEvent bps_distribution_mode max_bps) es s) :
    (∀ es' u, es' <+: es →
        Steps F py (init cache stopEvent bps_distribution_mode max_bps) es' u → u.KeepsUp) ↔
      Trace.Run (Trace.Given Meets (Trace.ofFn (step F py)))
        (init cache stopEvent bps_distribution_mode max_bps) es s := by
  have hi := inv_init F cache stopEvent bps_distribution_mode max_bps
  exact Trace.run_given_iff (fun _ _ _ hi hs => inv_step hF hi hs)
    (fun _ _ _ hi hk hs => keepsUp_step hF hi hk hs) h hi (hi.keepsUp_iff.mpr ⟨nofun, nofun⟩)

/-! ## Two runs -/

/-- The request is sent and read, and the scan for it begins. -/
def request : List DiscoveryEvent :=
  [.connected, .drained, .onboard (.data (Onboard.encodeTelecommand Onboard.idsRequest)),
    .scanBegin 0]

def requested (cache : List String) (bps_distribution_mode : String) (max_bps : Int) : Discovery :=
  { init cache false bps_distribution_mode max_bps with
    conn := Onboard.onTelecommand (Onboard.Conn.start false) Onboard.idsRequest
    pc := .reading
    began := cache }.setScan 0 (.scanning cache)

theorem request_run (py : Pydantic) (cache : List String) (bps_distribution_mode : String)
    (max_bps : Int) : Steps F py (init cache false bps_distribution_mode max_bps) request
      (requested cache bps_distribution_mode max_bps) := by
  have hcommand : Telecommand.fromCommand py .getMetricIds = .ok Onboard.idsRequest :=
    fromCommand_eq_ok.mpr ⟨.inr rfl, rfl⟩
  have hdecode : Onboard.decodeTelecommand py (Onboard.encodeTelecommand Onboard.idsRequest) =
      .telecommand Onboard.idsRequest := Onboard.decode_idsRequest py
  have hlen : (Onboard.encodeTelecommand Onboard.idsRequest).length ≤ 4096 := by
    rw [Onboard.idsRequest_length]
    omega
  obtain ⟨b, hb⟩ : ∃ b, Onboard.encodeTelecommand Onboard.idsRequest = b := ⟨_, rfl⟩
  rw [hb] at hdecode hlen
  rw [request, hb]
  let s := init cache false bps_distribution_mode max_bps
  let sent := { s with uplink := b, pc := .draining }
  let received := { sent.loopTop with
    conn := Onboard.onTelecommand s.conn Onboard.idsRequest
    uplink := [] }
  have hsent : step F py s .connected = some sent := by
    simp [step, s, sent, init, hcommand, hb]
  have hread : step F py sent .drained = some sent.loopTop := by simp [step, sent]
  have hreceived : step F py sent.loopTop (.onboard (.data b)) = some received := by
    have hconn : Onboard.step py s.conn (.data b) =
        some (Onboard.onTelecommand s.conn Onboard.idsRequest) := by
      have hpc : s.conn.pc = .reading := rfl
      rw [Onboard.step, if_pos hpc, Onboard.onData, hdecode]
    have hallows : sent.loopTop.Allows (.data b) := ⟨List.prefix_refl b, hlen⟩
    rw [step, if_pos hallows]
    simp only [sent, loopTop, hconn, Option.map_some, readLength, List.drop_length, received]
  have hscan : step F py received (.scanBegin 0) =
      some (requested cache bps_distribution_mode max_bps) := by
    have hruns : received.Runs 0 ∧ received.scan 0 = .idle := ⟨⟨_, rfl, rfl, rfl⟩, rfl⟩
    rw [step, if_pos hruns]
    rfl
  exact .cons hsent (.cons hread (.cons hreceived (.single hscan)))

theorem step_scanEnd (py : Pydantic) {s : Discovery} {i : Nat} {there keys metric_ids : List String}
    (hs : s.scan i = .scanning there) (hr : s.Runs i) (hthere : ∀ m ∈ there, cacheKey m ∈ keys)
    (hcache : ∀ key ∈ keys, ∃ m ∈ s.cache, key = cacheKey m) (hids : IsIdList keys metric_ids)
    (hw : s.conn.writerClosing = false) (hd : s.downlink = []) :
    step F py s (.scanEnd i keys metric_ids) = some { s.setScan i (.sent keys) with
      downlink := encodeMessage (F := F) (.metricIds ⟨metric_ids⟩) } := by
  rw [step, hs]
  dsimp only
  rw [if_pos ⟨hr, hthere, hcache, hids⟩, handleGetMetricIds_eq]
  simp only [hw, hd, Bool.false_eq_true, if_false, List.nil_append]

theorem step_read (hF : FloatsRoundTrip F) (py : Pydantic) {s : Discovery}
    {metric_ids new_metric_ids : List String} (hpc : s.pc = .reading)
    (hd : s.downlink = encodeMessage (F := F) (.metricIds ⟨metric_ids⟩))
    (hlen : s.downlink.length ≤ 4096) : step F py s (.read s.downlink new_metric_ids) =
      { s with downlink := [], completed := true, pc := .updating,
               learned := s.learned ++ metric_ids }.onHandler
        (.updateMetricIdList metric_ids new_metric_ids) := by
  have hne : s.downlink ≠ [] := by
    rw [hd]
    exact (frames_telemetry .syncMetricIds py).ne_nil _
  rw [step, if_pos ⟨hpc, List.prefix_refl _, hlen, fun h => absurd h hne⟩, onRead]
  simp only [hd, onData_reply hF, List.drop_length]

end Steps

/-- The operations of the fair share of a new metric. -/
def shareTemp : List DiscoveryEvent :=
  [.handler (.beginUpdate ⟨some 0, "temp", 10, none⟩), .handler (.taskEnds 0),
    .handler (.resumeUpdate ⟨some 0, "temp", 10, some 0⟩), .handler (.endGroup ⟨0, true, []⟩),
    .updated]

/-- A list of one metric id has been read. -/
def listRead : Discovery :=
  { (requested ["temp"] "fair" 10).setScan 0 (.sent [cacheKey "temp"]) with
    completed := true, pc := .updating, learned := ["temp"] }

theorem shareTemp_run : ∃ t s,
    listRead.onHandler (.updateMetricIdList ["temp"] ["temp"]) = some t ∧
    @Steps Bool twoFloats Pydantic.strict t shareTemp s ∧ s.completed = true ∧
      s.began = ["temp"] := by
  have hexec : ∃ s, (listRead.onHandler (.updateMetricIdList ["temp"] ["temp"])).bind
      (fun t => Trace.exec (@step Bool twoFloats Pydantic.strict) t shareTemp) = some s ∧
        s.completed = true ∧ s.began = ["temp"] := ⟨_, rfl, rfl, rfl⟩
  obtain ⟨s, hs, hcompleted, hbegan⟩ := hexec
  obtain ⟨t, ht, hs⟩ := Option.bind_eq_some_iff.mp hs
  exact ⟨t, s, ht, Trace.run_of_exec hs, hcompleted, hbegan⟩

/-- A metric that is there before the scan is found. -/
def findTemp : List DiscoveryEvent :=
  request ++ .scanEnd 0 [cacheKey "temp"] ["temp"] ::
    .read (@encodeMessage Bool twoFloats idsMessage) ["temp"] :: shareTemp

theorem temp_keeps_up : ∃ s,
    @Steps Bool twoFloats Pydantic.strict (init ["temp"] false "fair" 10) findTemp s ∧
    s.completed = true ∧ s.began = ["temp"] ∧
    ∀ es' u, es' <+: findTemp →
      @Steps Bool twoFloats Pydantic.strict (init ["temp"] false "fair" 10) es' u → u.KeepsUp := by
  have hrequest := @request_run Bool twoFloats Pydantic.strict ["temp"] "fair" 10
  let asked := requested ["temp"] "fair" 10
  let sent := { asked.setScan 0 (.sent [cacheKey "temp"]) with
    downlink := @encodeMessage Bool twoFloats idsMessage }
  have hids : IsIdList [cacheKey "temp"] ["temp"] := by decide +kernel
  have hsent := @step_scanEnd Bool twoFloats Pydantic.strict asked 0 ["temp"] [cacheKey "temp"]
    ["temp"] rfl ⟨_, rfl, rfl, rfl⟩ (by simp) (by simp [asked, requested, setScan, init]) hids rfl rfl
  have hread := @step_read Bool twoFloats twoFloats_roundTrip Pydantic.strict sent ["temp"] ["temp"]
    rfl rfl (by rw [show sent.downlink = _ from rfl, idsMessage_length]; omega)
  obtain ⟨t, s, ht, hs, hcompleted, hbegan⟩ := shareTemp_run
  have hmeets : sent.Meets (.read sent.downlink ["temp"]) := by
    refine ⟨.inl rfl, fun m hm => ?_⟩
    rw [List.mem_singleton.mp hm]
    exact ⟨0, [cacheKey "temp"], rfl, by simp, by decide⟩
  have hgiven : Trace.Run (Trace.Given Meets (Trace.ofFn (@step Bool twoFloats Pydantic.strict)))
      (init ["temp"] false "fair" 10) findTemp s := by
    refine (hrequest.given ?_).append (.cons ⟨trivial, hsent⟩
      (.cons ⟨hmeets, hread.trans ht⟩ (hs.given ?_)))
    · simp [request, Meets]
    · simp [shareTemp, Meets]
  have hrun := hgiven.mono fun _ _ _ h => h.2
  exact ⟨s, hrun, hcompleted, hbegan,
    (@keeps_up_iff Bool twoFloats twoFloats_roundTrip Pydantic.strict ["temp"] false "fair" 10
      findTemp s hrun).mpr hgiven⟩

/-- The reply to the one request is late: the metric has appeared when the iteration that reads it
begins, but not when the scan took place. -/
theorem late_reply : ¬ ∀ (py : Pydantic) (cache : List String) (stopEvent : Bool)
    (bps_distribution_mode : String) (max_bps : Int) (es : List DiscoveryEvent) (s : Discovery),
    @Steps Bool twoFloats py (init cache stopEvent bps_distribution_mode max_bps) es s →
      s.KeepsUp := by
  intro h
  have hrequest := @request_run Bool twoFloats Pydantic.strict [] "fair" 10
  let asked := requested [] "fair" 10
  let waiting := { asked with pc := .sleeping }
  let reply := @encodeMessage Bool twoFloats (.metricIds ⟨[]⟩)
  let sent := { waiting.setScan 0 (.sent []) with downlink := reply }
  let again := { sent with cache := ["temp"], pc := .reading, began := ["temp"] }
  have htimeout : @step Bool twoFloats Pydantic.strict asked .timeout = some waiting := rfl
  have hsent := @step_scanEnd Bool twoFloats Pydantic.strict waiting 0 [] [] [] rfl
    ⟨_, rfl, rfl, rfl⟩ (by simp) (by simp) (by decide) rfl rfl
  have hagain : Trace.exec (@step Bool twoFloats Pydantic.strict) sent [.appear "temp", .wake] =
      some again := rfl
  have hlen : reply.length ≤ 4096 := by decide +kernel
  have hread := @step_read Bool twoFloats twoFloats_roundTrip Pydantic.strict again [] []
    rfl rfl hlen
  have hlist : ∃ t, { again with downlink := [], completed := true, pc := .updating,
                                 learned := again.learned ++ [] }.onHandler
      (.updateMetricIdList [] []) = some t ∧
      ∃ s, @step Bool twoFloats Pydantic.strict t .updated = some s ∧ s.pc = .sleeping ∧
        s.completed = true ∧ s.began = ["temp"] ∧ s.handler.metrics = ∅ :=
    ⟨_, rfl, _, rfl, rfl, rfl, rfl, rfl⟩
  obtain ⟨t, ht, s, hs, hpc, hcompleted, hbegan, hmetrics⟩ := hlist
  have hrun := hrequest.append (.cons htimeout (.cons hsent
    ((Trace.run_of_exec hagain).append (.cons (hread.trans ht) (.single hs)))))
  have hkeeps := h _ _ _ _ _ _ s hrun
  rcases hkeeps.found hcompleted "temp" (by rw [hbegan]; exact List.mem_singleton_self _) with
    hm | ⟨hm, _⟩
  · rw [hmetrics] at hm
    cases hm
  · rw [hpc] at hm
    cases hm

end Discovery
end Ground
end BvexLink
