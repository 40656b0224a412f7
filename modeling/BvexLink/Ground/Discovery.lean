import BvexLink.Ground.Additions
import BvexLink.Ground.Downlink
import BvexLink.Onboard.Uplink
import BvexLink.RedisClient.Sample
import BvexLink.Lists.Split

/-!
# BvexLink.Ground.Discovery

`sync_metric_ids` on the ground and the `handle_connection` on board that it is connected to, as
one system, with the cache that `get_all_metric_ids` scans.

The request is sent once, before the loop. On board the first telecommand of a connection has the
only task, so there is one scan and one reply, whatever the loop on the ground waits for.

* `metricIdOfKey_eq_some`: the metric ids that can be found.
* `KeepsUp`: what an iteration that has completed its read should leave.
* `Inv`: the reply is on its way, or read, or cut.
* `read_cases`: what a read gives.
-/

namespace BvexLink
namespace Ground

open Wire Framing Codec RedisClient

/-! ## The scan -/

/-- The metric id that `get_all_metric_ids` takes from a key. -/
def metricIdOfKey (key : String) : Option String :=
  match key.toList.splitOn ':' with
  | [namespace_, metric_id] =>
    if String.ofList namespace_ = "sample-cache" then some (String.ofList metric_id) else none
  | _ => none

/-- The set of the metric ids of `keys`, as a list in some order. -/
def IsIdList (keys metric_ids : List String) : Prop :=
  metric_ids.Nodup ∧ (∀ m ∈ metric_ids, ∃ key ∈ keys, metricIdOfKey key = some m) ∧
    ∀ key ∈ keys, ∀ m ∈ metricIdOfKey key, m ∈ metric_ids

instance (keys metric_ids : List String) : Decidable (IsIdList keys metric_ids) :=
  inferInstanceAs (Decidable (_ ∧ _ ∧ _))

/-- How far `handle_get_metric_ids` of a task has got. `there` is what the cache held when its scan
began, `keys` what the scan gave. What it writes to a connection that is closing is discarded. -/
inductive Scan where
  | idle
  | scanning (there : List String)
  | sent (keys : List String)
  | discarded
  deriving DecidableEq

theorem cacheKey_toList (m : String) :
    (cacheKey m).toList = "sample-cache".toList ++ ':' :: m.toList := by
  rw [cacheKey, String.toList_append]
  rfl

theorem splitOn_cacheKey (m : String) :
    (cacheKey m).toList.splitOn ':' = "sample-cache".toList :: m.toList.splitOn ':' := by
  rw [cacheKey_toList, List.splitOn_append_cons_self_of_not_mem (by decide)]

/-- A metric id with a colon is lost. -/
theorem metricIdOfKey_eq_some {key m : String} :
    metricIdOfKey key = some m ↔ key = cacheKey m ∧ ':' ∉ m.toList := by
  constructor
  · intro h
    unfold metricIdOfKey at h
    split at h
    · rename_i l r hlr
      split at h
      · rename_i hl
        cases h
        have hl : l = "sample-cache".toList := by rw [← hl, String.toList_ofList]
        have hkey : key = cacheKey (String.ofList r) := by
          rw [← String.toList_inj, cacheKey_toList, ← hl, String.toList_ofList,
            ← @List.intercalate_splitOn _ key.toList _ _ ':', hlr]
          simp [List.intercalate]
        rw [hkey, splitOn_cacheKey] at hlr
        exact ⟨hkey, ListSplit.not_mem_of_splitOn_eq_singleton (List.cons.inj hlr).2⟩
      · cases h
    · cases h
  · rintro ⟨rfl, hm⟩
    rw [metricIdOfKey, splitOn_cacheKey, List.splitOn_eq_singleton hm]
    simp

def Scan.written : Scan → Bool
  | .sent _ => true
  | .discarded => true
  | _ => false

/-! ## The system -/

inductive SyncPc where
  | connecting
  | draining
  | reading
  | updating
  | sleeping
  | ended
  deriving DecidableEq

/-- `cache` has the metric ids of the cached samples. `began` is what it held when the iteration of
the loop began, and `completed` says whether its read has completed. `learned` are the metric ids of
the lists read, `added` those of the calls of `add_metric`. -/
structure Discovery where
  cache : List String
  conn : Onboard.Conn
  scan : Nat → Scan
  uplink : Bytes
  downlink : Bytes
  pc : SyncPc
  began : List String
  completed : Bool
  handler : MetricSubscribeHandler
  learned : List String
  added : List String

/-- `scanBegin` and `scanEnd` are those of the task with this index. `new_metric_ids` is as in
`updateMetricIdList`, `raised` an exception of the connection at one of the ground's `await`s. -/
inductive DiscoveryEvent where
  | appear (metric_id : String)
  | onboard (e : Onboard.Event)
  | scanBegin (i : Nat)
  | scanEnd (i : Nat) (keys metric_ids : List String)
  | connected
  | drained
  | read (data : Bytes) (new_metric_ids : List String)
  | updated
  | timeout
  | wake
  | raised
  | handler (e : MetricSubscribeHandler.Event)

namespace Discovery

def init (cache : List String) (stopEvent : Bool) (bps_distribution_mode : String)
    (max_bps : Int) : Discovery where
  cache := cache
  conn := Onboard.Conn.start stopEvent
  scan := fun _ => .idle
  uplink := []
  downlink := []
  pc := .connecting
  began := []
  completed := false
  handler := .init bps_distribution_mode max_bps
  learned := []
  added := []

section State

variable (s : Discovery)

/-- A read gives what has been sent, and a task returns when it has written. -/
def Allows : Onboard.Event → Prop
  | .data b => b <+: s.uplink ∧ b.length ≤ 4096
  | .taskExit i x => x = .returned → (s.scan i).written = true
  | _ => True

instance (e : Onboard.Event) : Decidable (s.Allows e) := by
  unfold Allows
  cases e <;> infer_instance

def readLength : Onboard.Event → Nat
  | .data b => b.length
  | _ => 0

/-- Task `i` is in `handle_get_metric_ids`. -/
def Runs (i : Nat) : Prop :=
  ∃ t ∈ s.conn.tasks[i]?, t.status = .running ∧ t.cmd = .getMetricIds

instance (i : Nat) : Decidable (s.Runs i) :=
  inferInstanceAs (Decidable (∃ t ∈ s.conn.tasks[i]?, _))

/-- The onboard side of the connection is closed or lost. -/
def closed : Bool :=
  s.conn.writerClosing || match s.conn.pc with
    | .finished _ => true
    | _ => false

def setScan (i : Nat) (scan : Scan) : Discovery :=
  { s with scan := Function.update s.scan i scan }

theorem setScan_scan (i j : Nat) (scan : Scan) :
    (s.setScan i scan).scan j = if j = i then scan else s.scan j :=
  Function.update_apply s.scan i scan j

/-- The top of the loop, up to `await reader.read(4096)`. -/
def loopTop : Discovery := { s with pc := .reading, began := s.cache, completed := false }

/-- The events of the handler that are none of the loop's own. -/
def Concurrent : MetricSubscribeHandler.Event → Prop
  | .updateMetricIdList _ _ => False
  | .timeout _ => s.pc = .updating
  | _ => True

instance : (e : MetricSubscribeHandler.Event) → Decidable (s.Concurrent e)
  | .updateMetricIdList _ _ => instDecidableFalse
  | .timeout _ => inferInstanceAs (Decidable (s.pc = .updating))
  | .updateBps _ _ => instDecidableTrue
  | .setMaxBps _ => instDecidableTrue
  | .beginUpdate _ => instDecidableTrue
  | .resumeUpdate _ => instDecidableTrue
  | .endGroup _ => instDecidableTrue
  | .taskEnds _ => instDecidableTrue

def onHandler (e : MetricSubscribeHandler.Event) : Option Discovery :=
  (s.handler.step e).map fun handler =>
    { s with handler := handler, added := s.added ++ s.handler.added e }

end State

section Step

variable (F : Type) [Primitives F] (py : Pydantic) (s : Discovery)

def onRead (data : Bytes) (new_metric_ids : List String) : Option Discovery :=
  match Loop.syncMetricIds.onData (F := F) py data with
  | .deliver (.metricIds m) =>
    { s with pc := .updating, learned := s.learned ++ m.metric_ids }.onHandler
      (.updateMetricIdList m.metric_ids new_metric_ids)
  | .deliver (.sample _) => some { s with pc := .sleeping }
  | .skip => some { s with pc := .sleeping }
  | .abort _ => some { s with pc := .ended }

/-- One event; `none` where it cannot happen. A scan gives each key that is there throughout, and
none that is never there. -/
def step : DiscoveryEvent → Option Discovery
  | .appear metric_id => some { s with cache := s.cache ++ [metric_id] }
  | .onboard e =>
    if s.Allows e then
      (Onboard.step py s.conn e).map fun conn =>
        { s with conn := conn, uplink := s.uplink.drop (readLength e) }
    else none
  | .scanBegin i =>
    if s.Runs i ∧ s.scan i = .idle then some (s.setScan i (.scanning s.cache)) else none
  | .scanEnd i keys metric_ids =>
    match s.scan i with
    | .scanning there =>
      if s.Runs i ∧ (∀ m ∈ there, cacheKey m ∈ keys) ∧
          (∀ key ∈ keys, ∃ m ∈ s.cache, key = cacheKey m) ∧ IsIdList keys metric_ids then
        match handleGetMetricIds (F := F) py metric_ids with
        | .ok data =>
          if s.conn.writerClosing then some (s.setScan i .discarded)
          else some { s.setScan i (.sent keys) with downlink := s.downlink ++ data }
        | .error _ => none
      else none
    | _ => none
  | .connected =>
    if s.pc = .connecting then
      match Telecommand.fromCommand py .getMetricIds with
      | .ok tc =>
        some { s with uplink := s.uplink ++ Onboard.encodeTelecommand tc, pc := .draining }
      | .error _ => some { s with pc := .ended }
    else none
  | .drained => if s.pc = .draining then some s.loopTop else none
  | .read data new_metric_ids =>
    -- the end of the stream is read only once the other side has closed it
    if s.pc = .reading ∧ data <+: s.downlink ∧ data.length ≤ 4096 ∧
        (data = [] → s.downlink = [] ∧ s.closed = true) then
      { s with downlink := s.downlink.drop data.length, completed := true }.onRead F py data
        new_metric_ids
    else none
  | .updated =>
    if s.pc = .updating ∧ ∀ r ∈ s.handler.redistributions, r.sync = false then
      some { s with pc := .sleeping }
    else none
  | .timeout => if s.pc = .reading then some { s with pc := .sleeping } else none
  | .wake => if s.pc = .sleeping then some s.loopTop else none
  | .raised =>
    if s.pc = .connecting ∨ s.pc = .draining ∨ s.pc = .reading then some { s with pc := .ended }
    else none
  | .handler e => if s.Concurrent e then s.onHandler e else none

abbrev Steps : Discovery → List DiscoveryEvent → Discovery → Prop :=
  Trace.Run (Trace.ofFn (step F py))

end Step

/-! ## Keeping up -/

/-- The iteration under way will still call `add_metric` for it. -/
def Adding (s : Discovery) (m : String) : Prop := s.pc = .updating ∧ s.handler.Awaits m

/-- An iteration that has completed its read leaves the handler with all the metric ids there were
when it began. What was learned is kept, and `add_metric` was called once for each metric. -/
structure KeepsUp (s : Discovery) : Prop where
  found : s.completed = true → ∀ m ∈ s.began, m ∈ s.handler.metrics ∨ s.Adding m
  kept : ∀ m ∈ s.learned, m ∈ s.handler.metrics ∨ s.Adding m
  once : s.added.Nodup ∧ ∀ m, m ∈ s.added ↔ m ∈ s.handler.metrics
  subscribed : ∀ m ∈ s.handler.metrics, m ∈ s.handler.metricSubscriptions

/-- The scan for the reply found it. -/
def Found (s : Discovery) (m : String) : Prop :=
  ∃ i keys, s.scan i = .sent keys ∧ cacheKey m ∈ keys ∧ ':' ∉ m.toList

/-- A read gives the whole reply, or the end of the stream, and what the iteration has begun with
was found for that reply. No timeout cuts an update that has still to add metrics. -/
def Meets (s : Discovery) : DiscoveryEvent → Prop
  | .read data _ => (data = s.downlink ∨ s.began = []) ∧ ∀ m ∈ s.began, s.Found m
  | .handler (.timeout r) => r.rest = []
  | _ => True

/-! ## The reply -/

section Reply

variable (F : Type) [Primitives F]

inductive Reply (s : Discovery) : Prop where
  | unsent : (∀ i keys, s.scan i ≠ .sent keys) → s.downlink = [] → s.learned = [] → Reply s
  | pending (keys metric_ids : List String) : s.scan 0 = .sent keys → IsIdList keys metric_ids →
      s.downlink = encodeMessage (F := F) (.metricIds ⟨metric_ids⟩) → s.learned = [] → Reply s
  | read (keys : List String) : s.scan 0 = .sent keys → IsIdList keys s.learned →
      s.downlink = [] → Reply s
  | cut : s.pc = .ended → s.learned = [] → Reply s

structure Inv (s : Discovery) : Prop where
  conn : Onboard.Inv s.conn
  handler : s.handler.Inv
  rests : s.handler.Rests
  scan : ∀ i, s.scan i ≠ .idle → i = 0
  idle : s.pc ≠ .updating → ∀ r ∈ s.handler.redistributions, r.sync = false
  fresh : s.pc = .connecting ∨ s.pc = .draining ∨ s.pc = .reading → s.completed = false
  learned : ∀ m, s.handler.Covered m → m ∈ s.learned
  added : s.added.Nodup ∧ ∀ m, m ∈ s.added ↔ m ∈ s.handler.metrics
  reply : Reply F s

theorem inv_init (cache : List String) (stopEvent : Bool) (bps_distribution_mode : String)
    (max_bps : Int) : Inv F (init cache stopEvent bps_distribution_mode max_bps) where
  conn := Onboard.inv_start stopEvent
  handler := MetricSubscribeHandler.inv_init bps_distribution_mode max_bps
  rests := MetricSubscribeHandler.rests_init bps_distribution_mode max_bps
  scan _ h := absurd rfl h
  idle _ := nofun
  fresh _ := rfl
  learned := by
    rintro m (hm | ⟨r, hr, _⟩)
    · cases hm
    · cases hr
  added := ⟨List.nodup_nil, fun m => iff_of_false nofun nofun⟩
  reply := .unsent nofun rfl rfl

variable {F} {s t : Discovery}

theorem Inv.runs (hi : Inv F s) {i : Nat} (h : s.Runs i) : i = 0 := by
  obtain ⟨task, ht, _⟩ := h
  have hlt := (List.getElem?_eq_some_iff.mp ht).1
  have hone : s.conn.tasks.length ≤ 1 := by
    by_cases hr : s.conn.received = []
    · rw [hi.conn.tasks_nil hr]
      exact Nat.zero_le 1
    · obtain ⟨task, htask, _⟩ := hi.conn.tasks_single hr
      rw [htask]
      exact le_refl 1
  omega

theorem Inv.adding_iff (hi : Inv F s) (m : String) :
    m ∈ s.handler.metrics ∨ s.Adding m ↔ s.handler.Covered m := by
  refine or_congr_right ⟨And.right, fun h => ⟨?_, h⟩⟩
  by_contra hpc
  obtain ⟨r, hr, hm⟩ := h
  have hfalse := hi.idle hpc r hr
  rw [(hi.rests.new r hr (List.ne_nil_of_mem hm)).1] at hfalse
  cases hfalse

theorem Inv.keepsUp_iff (hi : Inv F s) : s.KeepsUp ↔
    (s.completed = true → ∀ m ∈ s.began, s.handler.Covered m) ∧
      ∀ m ∈ s.learned, s.handler.Covered m := by
  constructor
  · intro h
    exact ⟨fun hc m hm => (hi.adding_iff m).mp (h.found hc m hm),
      fun m hm => (hi.adding_iff m).mp (h.kept m hm)⟩
  · rintro ⟨hfound, hkept⟩
    exact ⟨fun hc m hm => (hi.adding_iff m).mpr (hfound hc m hm),
      fun m hm => (hi.adding_iff m).mpr (hkept m hm), hi.added,
      fun m hm => (hi.handler.keys m).mp hm⟩

theorem Inv.found_iff (hi : Inv F s) {keys metric_ids : List String} (hs : s.scan 0 = .sent keys)
    (hids : IsIdList keys metric_ids) (m : String) : s.Found m ↔ m ∈ metric_ids := by
  obtain ⟨_, hsound, hcomplete⟩ := hids
  constructor
  · rintro ⟨i, keys', hi', hkey, hm⟩
    have hzero := hi.scan i (by rw [hi']; nofun)
    rw [hzero, hs] at hi'
    cases hi'
    exact hcomplete _ hkey m (metricIdOfKey_eq_some.mpr ⟨rfl, hm⟩)
  · intro hm
    obtain ⟨key, hkey, hk⟩ := hsound m hm
    obtain ⟨rfl, hm⟩ := metricIdOfKey_eq_some.mp hk
    exact ⟨0, keys, hs, hkey, hm⟩

theorem onData_reply (hF : FloatsRoundTrip F) (py : Pydantic) (metric_ids : List String) :
    Loop.syncMetricIds.onData (F := F) py (encodeMessage (F := F) (.metricIds ⟨metric_ids⟩)) =
      .deliver (.metricIds ⟨metric_ids⟩) :=
  (onData_encodeMessage_iff hF _ py _).mpr ⟨rfl, trivial⟩

/-- A part of a message ends the loop. -/
theorem onData_part (py : Pydantic) {m : TMMessage F} {data rest : Bytes} (hne : data ≠ [])
    (he : data ++ rest = encodeMessage m) (hd : data ≠ encodeMessage m) :
    ∃ e, Loop.syncMetricIds.onData (F := F) py data = .abort e := by
  have hpart (l : Loop) (m' : TMMessage F) : l.onData py data ≠ .deliver m' := fun h =>
    hd ((frames_telemetry l py).first m [] data rest m' (by simpa using he) h)
  unfold Loop.onData
  rw [if_neg hne]
  cases hs : Utf8.decode data with
  | none => exact ⟨_, rfl⟩
  | some text =>
    cases hv : Telemetry.modelValidateJson (F := F) py text with
    | error e => exact ⟨.validationError e, by simp only [hv]⟩
    | ok telemetry =>
      -- one of the two loops would hand it on
      have hboth (l : Loop) (hl : l.handlesOn telemetry.data = true) : False :=
        hpart l _ (Loop.onData_eq_deliver.mpr ⟨hne, hl, text, telemetry, hs, hv, rfl⟩)
      cases hdata : telemetry.data with
      | metricIds ids => exact (hboth .syncMetricIds (by rw [hdata]; rfl)).elim
      | sample x => exact (hboth .subscribe (by rw [hdata]; rfl)).elim

/-- What a read gives, and what follows. -/
inductive ReadCase (s : Discovery) (data : Bytes) (new_metric_ids : List String) (t : Discovery) :
    Prop where
  | eof : data = [] → s.downlink = [] → t = { s with completed := true, pc := .sleeping } →
      ReadCase s data new_metric_ids t
  | reply (keys metric_ids : List String) : s.scan 0 = .sent keys → IsIdList keys metric_ids →
      s.learned = [] → data = s.downlink →
      { s with downlink := [], completed := true, pc := .updating, learned := metric_ids }.onHandler
        (.updateMetricIdList metric_ids new_metric_ids) = some t →
      ReadCase s data new_metric_ids t
  | cut (keys metric_ids : List String) (rest : Bytes) : s.scan 0 = .sent keys →
      IsIdList keys metric_ids → s.learned = [] → data ≠ s.downlink →
      t = { s with downlink := rest, completed := true, pc := .ended } →
      ReadCase s data new_metric_ids t

theorem read_cases (hF : FloatsRoundTrip F) {py : Pydantic} (hi : Inv F s) {data : Bytes}
    {new_metric_ids : List String} (h : step F py s (.read data new_metric_ids) = some t) :
    s.pc = .reading ∧ ReadCase s data new_metric_ids t := by
  rw [step] at h
  split at h
  case isFalse => cases h
  rename_i hg
  obtain ⟨hpc, ⟨rest, hrest⟩, _, hend⟩ := hg
  refine ⟨hpc, ?_⟩
  by_cases hd : data = []
  · subst hd
    have hdown := (hend rfl).1
    simp only [onRead, Loop.onData, if_true, List.length_nil, List.drop_zero] at h
    cases h
    exact .eof rfl hdown rfl
  · have hdown : s.downlink ≠ [] := by
      rw [← hrest]
      simp [hd]
    cases hi.reply with
    | unsent _ hnil _ => exact absurd hnil hdown
    | read _ _ _ hnil => exact absurd hnil hdown
    | cut hended _ =>
      rw [hpc] at hended
      cases hended
    | pending keys metric_ids hs hids hm hl =>
      by_cases hwhole : data = s.downlink
      · refine .reply keys metric_ids hs hids hl hwhole ?_
        rw [onRead, hwhole, hm, onData_reply hF, ← hm] at h
        simpa [hl] using h
      · obtain ⟨e, he⟩ := onData_part py hd (hrest.trans hm) (hm ▸ hwhole)
        rw [onRead, he] at h
        cases h
        exact .cut keys metric_ids _ hs hids hl hwhole rfl

end Reply

end Discovery
end Ground
end BvexLink
