import BvexLink.Onboard.Polls
import BvexLink.Onboard.PeerClose
import BvexLink.Onboard.Delivered
import BvexLink.Ground.Delivered

/-!
# BvexLink.EndToEnd.Link

One subscription from end to end: `subscribe` on the ground, its connection, `handle_connection` on
board and the `downlink_loop` that it starts. What one side has written the other side reads in
pieces of any size.

* `Sound`: what has been written on board, and that each side has read a part of what the other one
  has written.
* `sound_ground`, `sound_board`, `sound_loop`: what each kind of step keeps.
* `handled_sent`, `handled_step`: what `handle_sample` is called for.
-/

namespace BvexLink
namespace EndToEnd

open Wire Wire.Framing Codec Onboard Ground

/-! ## The two sides -/

/-- A `downlink_loop` on board and its arguments. -/
structure LoopTask (F : Type) where
  metricId : String
  bps : Int
  loop : DownlinkLoop F

/-- `up` and `down` are written and not yet read. -/
structure Link (F : Type) where
  metricId : String
  bps : Int
  sockBufSize : Nat
  ground : Subscriber F
  board : Conn
  task : Option (LoopTask F)
  up : Bytes
  down : Bytes

inductive LinkEvent where
  | ground (e : SubscribeEvent)
  | board (e : Event)
  | loop (e : LoopEvent)

/-- What `reader.read(4096)` returns where `rest` is on its way: some of it, or nothing once the
other side has closed. -/
def MayRead (rest b : Bytes) (closed : Bool) : Prop :=
  if b = [] then rest = [] ∧ closed = true else b <+: rest ∧ b.length ≤ 4096

instance (rest b : Bytes) (closed : Bool) : Decidable (MayRead rest b closed) := by
  unfold MayRead
  infer_instance

def loopRead : LoopEvent → Option (Option Bytes)
  | .got sample_json => some sample_json
  | _ => none

def LoopTask.ended {F : Type} (r : LoopTask F) : Bool :=
  match r.loop.pc with
  | .ended _ => true
  | _ => false

namespace Link

variable {F : Type}

def start (metric_id : String) (bps : Int) (sockBufSize : Nat) : Link F where
  metricId := metric_id
  bps := bps
  sockBufSize := sockBufSize
  ground := .start
  board := Conn.start false
  task := none
  up := []
  down := []

/-- `run_command` in the first task of the handler. -/
def runCommand (l : Link F) (c : Conn) : Option (LoopTask F) :=
  match l.task, c.tasks.head?.map Task.cmd with
  | some r, _ => some r
  | none, some (.subscribe metric_id bps) => some ⟨metric_id, bps, .start 0 l.sockBufSize⟩
  | none, _ => none

/-- A task does not end before its loop. -/
def mayExit (l : Link F) : Event → Bool
  | .taskExit _ _ => l.task.all LoopTask.ended
  | _ => true

/-- The handler's task is not done. -/
def taskRuns (l : Link F) : Bool := (l.board.tasks.head?).any fun t => !t.isDone

variable [Primitives F] (v : FloatValues F)

/-- One event; `cache` is what redis holds for a metric. -/
def step (py : Pydantic) (cache : String → Option Bytes) (l : Link F) :
    LinkEvent → Option (Link F)
  | .ground e =>
    if ∀ b ∈ subscribeRead e, MayRead l.down b l.board.writerClosing then
      (l.ground.step py l.metricId l.bps e).map fun s => { l with
        ground := s
        up := l.up ++ s.written.drop l.ground.written.length
        down := l.down.drop ((subscribeRead e).getD []).length }
    else none
  | .board e =>
    if (∀ b ∈ readResult e, MayRead l.up b l.ground.writerClosed) ∧ l.mayExit e = true then
      (Onboard.step py l.board e).map fun c => { l with
        board := c
        task := l.runCommand c
        up := l.up.drop ((readResult e).getD []).length }
    else none
  | .loop e =>
    match l.task with
    | none => none
    | some r =>
      if l.taskRuns = true ∧ ∀ sample_json ∈ loopRead e, sample_json = cache r.metricId then
        (r.loop.step py (Sample.pyEq v) r.bps e).map fun d => { l with
          task := some { r with loop := d }
          down := l.down ++ ((d.sends.drop r.loop.sends.length).map Send.data).flatten }
      else none

/-! ## What holds of a link -/

def messages (sent : List (Nat × Sample F)) : List (TMMessage F) := sent.map fun p => .sample p.2

/-- The samples `sent` have been written on board, each with its place in `timeline`, the samples
that have been in the cache. -/
structure Sound (py : Pydantic) (timeline : List (Sample F)) (l : Link F)
    (sent : List (Nat × Sample F)) : Prop where
  placed : ∀ p ∈ sent, timeline[p.1]? = some p.2 ∧ p.2.Finite
  ordered : sent.Pairwise fun p q => p.1 ≤ q.1
  task : ∀ r, l.task = some r → r.metricId = l.metricId ∧ r.bps = l.bps ∧
    r.loop.sends.map Send.data = (messages sent).map encodeMessage
  idle : l.task = none → sent = []
  up : ∃ es, Onboard.Steps py (Conn.start false) es l.board ∧
    (Onboard.reads es).flatten ++ l.up = l.ground.written
  down : ∃ es, Subscriber.Steps py l.metricId l.bps .start es l.ground ∧
    (Subscriber.reads es).flatten ++ l.down = stream encodeMessage (messages sent)

variable {py : Pydantic} {timeline : List (Sample F)} {l l' : Link F}
  {sent : List (Nat × Sample F)}

theorem sound_start (metric_id : String) (bps : Int) (sockBufSize : Nat) :
    Sound py timeline (start metric_id bps sockBufSize : Link F) [] where
  placed := by simp
  ordered := .nil
  task r hr := by cases hr
  idle _ := rfl
  up := ⟨[], .nil, rfl⟩
  down := ⟨[], .nil, by rw [messages, List.map_nil, stream_nil]; rfl⟩

theorem Sound.later (h : Sound py timeline l sent) {timeline' : List (Sample F)}
    (ht : timeline <+: timeline') : Sound py timeline' l sent := by
  refine ⟨fun p hp => ?_, h.ordered, h.task, h.idle, h.up, h.down⟩
  obtain ⟨hget, hfin⟩ := h.placed p hp
  obtain ⟨rest, rfl⟩ := ht
  exact ⟨by rw [List.getElem?_append_left (List.getElem?_eq_some_iff.mp hget).1, hget], hfin⟩

theorem mayRead_drop {rest b : Bytes} {closed : Bool} (h : MayRead rest b closed) :
    b ++ rest.drop b.length = rest := by
  unfold MayRead at h
  split at h
  · rename_i hb
    rw [hb]
    rfl
  · obtain ⟨t, rfl⟩ := h.1
    rw [List.drop_left]

omit [Primitives F] in
theorem onboard_reads_snoc (es : List Event) (e : Event) :
    (Onboard.reads (es ++ [e])).flatten =
      (Onboard.reads es).flatten ++ (readResult e).getD [] := by
  cases e with
  | data b =>
    by_cases hb : b = []
    · rw [Onboard.reads_snoc fun b' hb' => by cases hb'; exact hb]
      simp [readResult, hb]
    · rw [Onboard.reads_snoc_data hb]
      simp [readResult]
  | _ =>
    rw [Onboard.reads_snoc fun b hb => by cases hb]
    simp [readResult]

theorem ground_reads_snoc (es : List SubscribeEvent) (e : SubscribeEvent) :
    (Subscriber.reads (es ++ [e])).flatten =
      (Subscriber.reads es).flatten ++ (subscribeRead e).getD [] := by
  cases e with
  | data b =>
    by_cases hb : b = []
    · rw [Subscriber.reads_snoc fun b' hb' => by cases hb'; exact hb]
      simp [subscribeRead, hb]
    · rw [Subscriber.reads_snoc_data hb]
      simp [subscribeRead]
  | _ =>
    rw [Subscriber.reads_snoc fun b hb => by cases hb]
    simp [subscribeRead]

theorem read_on {read rest stream : Bytes} {o : Option Bytes} {closed : Bool}
    (h : read ++ rest = stream) (ho : ∀ b ∈ o, MayRead rest b closed) :
    read ++ o.getD [] ++ rest.drop (o.getD []).length = stream := by
  cases o with
  | none => simpa using h
  | some b =>
    have hdrop := mayRead_drop (ho b rfl)
    rw [Option.getD_some, List.append_assoc, hdrop, h]

/-! ## A step on the ground -/

def request (metric_id : String) (bps : Int) : Telecommand :=
  ⟨.subscribe, .subscribe metric_id bps⟩

omit [Primitives F] in
theorem onConnected_eq (py : Pydantic) (metric_id : String) (bps : Int) (s : Subscriber F) :
    s.onConnected py metric_id bps =
      { s with written := encodeTelecommand (request metric_id bps), pc := .draining } := by
  have hcommand : Telecommand.fromCommand py (.subscribe metric_id bps) =
      .ok (request metric_id bps) := fromCommand_eq_ok.mpr ⟨.inl rfl, rfl⟩
  rw [Subscriber.onConnected, hcommand]

theorem onData_written (py : Pydantic) (s : Subscriber F) (b : Bytes) :
    (s.onData py b).written = s.written ∧ (s.onData py b).pc ≠ .connecting := by
  rw [Subscriber.onData]
  split
  · exact ⟨rfl, by simp⟩
  · split
    · exact ⟨rfl, by simp⟩
    · exact ⟨rfl, by simp⟩
    · exact ⟨rfl, by simp [Subscriber.closeWriter]⟩

theorem written_step {metric_id : String} {bps : Int} {s t : Subscriber F} {e : SubscribeEvent}
    (h : s.step py metric_id bps e = some t) :
    t.written = s.written ∧ t.pc ≠ .connecting ∨
      s.pc = .connecting ∧ t.pc = .draining ∧
        t.written = encodeTelecommand (request metric_id bps) := by
  cases Subscriber.step_cases h with
  | connected hpc =>
    rw [onConnected_eq]
    refine .inr ⟨hpc, ?_, ?_⟩
    · simp only
    · simp only
  | data _ => exact .inl (onData_written py s _)
  | drained _ => exact .inl ⟨rfl, by simp⟩
  | handled _ => exact .inl ⟨rfl, by simp⟩
  | wake _ => exact .inl ⟨rfl, by simp⟩
  | leave _ => exact .inl ⟨rfl, by simp [Subscriber.closeWriter]⟩
  | finish _ => exact .inl ⟨rfl, by simp⟩

theorem written_steps {metric_id : String} {bps : Int} {es : List SubscribeEvent}
    {s : Subscriber F} (h : Subscriber.Steps py metric_id bps .start es s) :
    (s.pc = .connecting → s.written = []) ∧
      (s.written = [] ∨ s.written = encodeTelecommand (request metric_id bps)) := by
  refine h.invariant (I := fun s => (s.pc = .connecting → s.written = []) ∧
    (s.written = [] ∨ s.written = encodeTelecommand (request metric_id bps)))
    ⟨fun _ => rfl, .inl rfl⟩ ?_
  intro s e t hi hst
  rcases written_step hst with ⟨hsame, hpc⟩ | ⟨_, hpc, hnew⟩
  · exact ⟨fun h => absurd h hpc, by rw [hsame]; exact hi.2⟩
  · refine ⟨fun h => ?_, .inr hnew⟩
    rw [hpc] at h
    cases h

theorem sound_ground {cache : String → Option Bytes} {e : SubscribeEvent}
    (hs : Sound py timeline l sent) (h : l.step v py cache (.ground e) = some l') :
    Sound py timeline l' sent := by
  simp only [step] at h
  split at h
  · rename_i hread
    obtain ⟨s, hst, rfl⟩ := Option.map_eq_some_iff.mp h
    obtain ⟨es, hes, hup⟩ := hs.up
    obtain ⟨fs, hfs, hdown⟩ := hs.down
    have hgrows : l.ground.written ++ s.written.drop l.ground.written.length = s.written := by
      rcases written_step hst with ⟨hsame, _⟩ | ⟨hpc, _, _⟩
      · rw [hsame, List.drop_length, List.append_nil]
      · rw [(written_steps hfs).1 hpc]
        rfl
    refine ⟨hs.placed, hs.ordered, hs.task, hs.idle, ⟨es, hes, ?_⟩,
      ⟨fs ++ [e], hfs.append (.single hst), ?_⟩⟩
    · show _ ++ (l.up ++ _) = s.written
      rw [← List.append_assoc, hup, hgrows]
    · rw [ground_reads_snoc]
      exact read_on hdown hread
  · cases h

/-! ## A step on board -/

theorem task_of_request {es : List Event} {c : Conn} {metric_id : String} {bps : Int}
    {written rest : Bytes} (h : Onboard.Steps py (Conn.start false) es c)
    (hread : (Onboard.reads es).flatten ++ rest = written)
    (hw : written = [] ∨ written = encodeTelecommand (request metric_id bps)) :
    ∀ t ∈ c.tasks.head?, t.cmd = .subscribe metric_id bps := by
  have hcut : (Onboard.reads es).flatten <+: stream encodeTelecommand [request metric_id bps] := by
    rw [stream_cons, stream_nil, List.append_nil]
    rcases hw with hw | hw
    · rw [hw] at hread
      rw [(List.append_eq_nil_iff.mp hread).1]
      exact List.nil_prefix
    · exact ⟨rest, hread.trans hw⟩
  have htag : ∀ tc ∈ [request metric_id bps], tc.Tagged := by
    intro tc htc
    rw [List.mem_singleton.mp htc]
    rfl
  have hsub := received_sublist h htag hcut
  intro t ht
  have hmem : t.cmd ∈ c.started := List.mem_map_of_mem (List.mem_of_mem_head? ht)
  rw [(inv_steps h).started] at hmem
  obtain ⟨tc, htc, hcmd⟩ := List.mem_map.mp hmem
  have hrec : tc ∈ c.received := List.mem_of_mem_take htc
  rw [← hcmd, List.mem_singleton.mp (hsub.subset hrec)]
  rfl

theorem sound_board {cache : String → Option Bytes} {e : Event} (hs : Sound py timeline l sent)
    (h : l.step v py cache (.board e) = some l') : Sound py timeline l' sent := by
  simp only [step] at h
  split at h
  · rename_i hread
    obtain ⟨c, hst, rfl⟩ := Option.map_eq_some_iff.mp h
    obtain ⟨es, hes, hup⟩ := hs.up
    obtain ⟨fs, hfs, _⟩ := hs.down
    have hes' := hes.append (.single hst)
    have hup' : (Onboard.reads (es ++ [e])).flatten ++ l.up.drop ((readResult e).getD []).length =
        l.ground.written := by
      rw [onboard_reads_snoc]
      exact read_on hup hread.1
    have hcmd := task_of_request hes' hup' (written_steps hfs).2
    refine ⟨hs.placed, hs.ordered, ?_, ?_, ⟨es ++ [e], hes', hup'⟩, hs.down⟩
    · intro r hr
      simp only [runCommand] at hr
      split at hr
      · rename_i r' _ hr'
        cases hr
        exact hs.task r hr'
      · rename_i metric_id bps hidle hhead
        obtain ⟨t, ht, hsub⟩ := Option.map_eq_some_iff.mp hhead
        rw [hcmd t ht] at hsub
        cases hsub
        cases hr
        rw [hs.idle hidle]
        exact ⟨rfl, rfl, rfl⟩
      · cases hr
    · intro hnone
      refine hs.idle ?_
      cases ht : l.task with
      | none => rfl
      | some r =>
        simp only [runCommand, ht] at hnone
        cases hnone
  · cases h

/-! ## A step of the loop -/

theorem loop_sends {bps : Int} {s t : DownlinkLoop F} {e : LoopEvent}
    (h : s.step py (Sample.pyEq v) bps e = some t) :
    t.sends.map Send.data = s.sends.map Send.data ∨
      ∃ sample_json, ∃ x : Sample F, e = .got sample_json ∧
      getSampleAsync py sample_json = .ok x ∧
      t.sends.map Send.data = s.sends.map Send.data ++ [encodeMessage (.sample x)] := by
  cases DownlinkLoop.step_cases h with
  | got _ hget =>
    rw [DownlinkLoop.onSample_eq]
    split
    · exact .inl rfl
    · exact .inr ⟨_, _, rfl, hget, by simp only [List.map_append, List.map_cons, List.map_nil]⟩
  | drained _ =>
    refine .inl ?_
    simp only [DownlinkLoop.onDrained]
    split <;> split <;> rfl
  | _ => exact .inl rfl

theorem getSampleAsync_cache (hF : FloatsRoundTrip F) {x : Sample F}
    (h : getSampleAsync py (timeline.getLast?.map cacheText) = .ok x) :
    timeline.getLast? = some x ∧ x.Finite := by
  cases ht : timeline.getLast? with
  | none =>
    rw [ht] at h
    cases h
  | some y =>
    rw [ht] at h
    obtain ⟨rfl, hr⟩ := (getSampleAsync_encode hF).mp h
    exact ⟨rfl, hr.finite⟩

theorem sound_loop (hF : FloatsRoundTrip F) {cache : String → Option Bytes}
    (hcache : cache l.metricId = timeline.getLast?.map cacheText) {e : LoopEvent}
    (hs : Sound py timeline l sent) (h : l.step v py cache (.loop e) = some l') :
    l'.ground = l.ground ∧ (Sound py timeline l' sent ∧ l'.down = l.down ∨
      ∃ x, Sound py timeline l' (sent ++ [(timeline.length - 1, x)]) ∧
        l'.down = l.down ++ encodeMessage (.sample x)) := by
  simp only [step] at h
  split at h
  · cases h
  · rename_i r hr
    obtain ⟨hmetric, hbps, hsends⟩ := hs.task r hr
    split at h
    · rename_i hread
      obtain ⟨d, hst, rfl⟩ := Option.map_eq_some_iff.mp h
      refine ⟨rfl, ?_⟩
      have hnew : ((d.sends.drop r.loop.sends.length).map Send.data) =
          (d.sends.map Send.data).drop (r.loop.sends.map Send.data).length := by
        rw [List.map_drop, List.length_map]
      rcases loop_sends v hst with hsame | ⟨sample_json, x, rfl, hget, hadd⟩
      · rw [hnew, hsame, List.drop_length, List.flatten_nil, List.append_nil]
        refine .inl ⟨⟨hs.placed, hs.ordered, ?_, nofun, hs.up, hs.down⟩, rfl⟩
        intro r' hr'
        cases hr'
        exact ⟨hmetric, hbps, hsame.trans hsends⟩
      · have hjson : sample_json = cache r.metricId := hread.2 sample_json rfl
        rw [hjson, hmetric, hcache] at hget
        obtain ⟨hlast, hfin⟩ := getSampleAsync_cache hF hget
        have hplace : timeline[timeline.length - 1]? = some x := by
          rw [← List.getLast?_eq_getElem?, hlast]
        rw [hnew, hadd, List.drop_left, List.flatten_singleton]
        refine .inr ⟨x, ⟨?_, ?_, ?_, nofun, hs.up, ?_⟩, rfl⟩
        · intro p hp
          rcases List.mem_append.mp hp with hp | hp
          · exact hs.placed p hp
          · rw [List.mem_singleton.mp hp]
            exact ⟨hplace, hfin⟩
        · refine List.pairwise_append.mpr ⟨hs.ordered, List.pairwise_singleton _ _, ?_⟩
          intro p hp q hq
          rw [List.mem_singleton.mp hq]
          have hlt := (List.getElem?_eq_some_iff.mp (hs.placed p hp).1).1
          show p.1 ≤ timeline.length - 1
          omega
        · intro r' hr'
          cases hr'
          refine ⟨hmetric, hbps, ?_⟩
          rw [messages, List.map_append, List.map_append, ← messages, ← hsends]
          exact hadd
        · obtain ⟨fs, hfs, hdown⟩ := hs.down
          refine ⟨fs, hfs, ?_⟩
          rw [← List.append_assoc, hdown, messages, messages, List.map_append, stream_append,
            List.map_singleton, stream_cons, stream_nil, List.append_nil]
    · cases h

/-! ## What is handled -/

theorem handled_sent (hF : FloatsRoundTrip F) (hs : Sound py timeline l sent) :
    List.Sublist l.ground.handled (messages sent) := by
  obtain ⟨fs, hfs, hdown⟩ := hs.down
  exact Subscriber.handled_sublist hF hfs ⟨l.down, hdown⟩

omit [Primitives F] in
theorem messages_getElem? (i : Nat) :
    (messages sent)[i]? = sent[i]?.map fun p => TMMessage.sample p.2 := List.getElem?_map ..

omit [Primitives F] in
theorem messages_drop (i : Nat) : (messages sent).drop i = messages (sent.drop i) :=
  List.map_drop.symm

/-- The bytes on their way down are those of the samples that have not been read, or begin inside
one. -/
theorem down_drop {i : Nat} {read down : Bytes}
    (h : read ++ down = stream encodeMessage (messages sent))
    (hi : read = stream encodeMessage ((messages sent).take i)) :
    down = stream encodeMessage (messages (sent.drop i)) := by
  rw [← List.take_append_drop i (messages sent), stream_append, ← hi, messages_drop] at h
  exact List.append_cancel_left h

theorem subscriber_handled {metric_id : String} {bps : Int} {s t : Subscriber F}
    {e : SubscribeEvent} (h : s.step py metric_id bps e = some t) :
    t.handled = s.handled ∨ ∃ b m, e = .data b ∧ b ≠ [] ∧ s.pc = .reading ∧
      Loop.subscribe.onData py b = .deliver m ∧ t.handled = s.handled ++ [m] := by
  cases Subscriber.step_cases h with
  | connected _ =>
    rw [onConnected_eq]
    exact .inl rfl
  | @data b hpc =>
    rw [Subscriber.onData]
    split
    · exact .inl rfl
    · rename_i hb
      split
      · rename_i m hd
        exact .inr ⟨b, m, rfl, hb, hpc, hd, rfl⟩
      · exact .inl rfl
      · exact .inl rfl
  | drained _ => exact .inl rfl
  | handled _ => exact .inl rfl
  | wake _ => exact .inl rfl
  | leave _ => exact .inl rfl
  | finish _ => exact .inl rfl

theorem handled_step (hF : FloatsRoundTrip F) {cache : String → Option Bytes} {e : SubscribeEvent}
    (hs : Sound py timeline l sent) (h : l.step v py cache (.ground e) = some l') :
    l'.ground.handled = l.ground.handled ∨ ∃ i p, sent[i]? = some p ∧ l.ground.pc = .reading ∧
      l.down = stream encodeMessage (messages (sent.drop i)) ∧
      l'.down = stream encodeMessage (messages (sent.drop (i + 1))) ∧
      l'.ground.handled = l.ground.handled ++ [.sample p.2] := by
  simp only [step] at h
  split at h
  · rename_i hread
    obtain ⟨s, hst, rfl⟩ := Option.map_eq_some_iff.mp h
    obtain ⟨fs, hfs, hdown⟩ := hs.down
    rcases subscriber_handled hst with hsame | ⟨b, m, rfl, hb, hpc, hd, hadd⟩
    · exact .inl hsame
    · have hon := read_on hdown hread
      simp only [subscribeRead, Option.getD_some] at hon
      obtain ⟨i, hget, hpos, hbm⟩ := deliver_place (aligned_telemetry .subscribe py)
        (own_message hF .subscribe py (messages sent)) hb ⟨_, hon⟩ hd
      rw [hbm] at hon ⊢
      rw [messages_getElem?] at hget
      obtain ⟨p, hp, rfl⟩ := Option.map_eq_some_iff.mp hget
      refine .inr ⟨i, p, hp, hpc, down_drop hdown hpos, ?_, hadd⟩
      simp only [subscribeRead, Option.getD_some]
      refine down_drop hon ?_
      have hnext : (messages sent)[i]? = some (.sample p.2) := by rw [messages_getElem?, hp]; rfl
      rw [hpos, stream_take_succ hnext]
  · cases h

end Link

end EndToEnd
end BvexLink
