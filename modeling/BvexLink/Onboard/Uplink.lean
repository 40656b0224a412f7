import BvexLink.Onboard.Server

/-!
# BvexLink.Onboard.Uplink

The uplink as a byte stream: a client writes telecommands one after the other, the handler decodes
every read result on its own.

* `frames_telecommand`: how the JSON of a telecommand delimits itself for the handler.
* `received_eq`: what the handler has received is what a reader that decodes the read results one
  by one delivers.
* `Inv.actedOn`: each telecommand received is started or queued.
* `Inv.starts_iff`: only the first one is ever started.
* `uplink_acted_iff`: the telecommands come through exactly when each read result is one of them.
-/

namespace BvexLink
namespace Onboard

open Wire Json Framing Codec

/-- `tc.model_dump_json().encode()`, as a client writes it. -/
def encodeTelecommand (tc : Telecommand) : Bytes := Utf8.encode tc.modelDumpJson

def rx (py : Pydantic) (data : Bytes) : Rx Telecommand Unit :=
  match decodeTelecommand py data with
  | .telecommand tc => .deliver tc
  | .none => .skip
  | .unicodeDecodeError => .abort ()

theorem rx_eq_deliver {py : Pydantic} {data : Bytes} {tc : Telecommand} :
    rx py data = .deliver tc ↔ decodeTelecommand py data = .telecommand tc := by
  unfold rx
  cases decodeTelecommand py data <;> simp

theorem decodeTelecommand_eq {py : Pydantic} {data : Bytes} {tc : Telecommand} :
    decodeTelecommand py data = .telecommand tc ↔ data ≠ [] ∧
      ∃ s, Utf8.decode data = some s ∧ Telecommand.modelValidateJson py s = .ok tc := by
  unfold decodeTelecommand
  by_cases hd : data = []
  · simp [hd]
  · rw [if_neg hd]
    cases hs : Utf8.decode data with
    | none => simp
    | some s =>
      cases hv : Telecommand.modelValidateJson py s with
      | ok tc' => simp [hv, hd]
      | error e => simp [hv]

theorem takesObjects_rx (py : Pydantic) : TakesObjects "which_command" (rx py) := by
  intro r tc h
  obtain ⟨_, s, hs, hv⟩ := decodeTelecommand_eq.mp (rx_eq_deliver.mp h)
  obtain ⟨ms, hp, _, hm⟩ := modelValidateJson_eq_ok.mp hv
  obtain ⟨hw, _⟩ := validate_eq_ok.mp hm
  obtain ⟨j, hj, _⟩ := requiredField_eq_ok.mp hw
  exact ⟨s, ms, hs, hp, _, field_mem hj, rfl⟩

theorem members_lacksKey (tc : Telecommand) :
    ∀ x ∈ tc.members, lacksKey "which_command" x.2 = true := by
  intro x hx
  simp only [Telecommand.members, List.mem_cons, List.not_mem_nil, or_false] at hx
  rcases hx with rfl | rfl
  · rfl
  · cases tc.data with
    | subscribe metric_id bps => simp [CommandTypes.members, lacksKey, lacksKeyMembers]
    | _ => rfl

theorem frames_telecommand (py : Pydantic) : Frames encodeTelecommand (rx py) :=
  frames_of_key (takesObjects_rx py) ⟨'w', by decide, by decide⟩ members_lacksKey

theorem decodeTelecommand_encode_iff (py : Pydantic) (tc : Telecommand) :
    decodeTelecommand py (encodeTelecommand tc) = .telecommand tc ↔ tc.Tagged ∧ tc.data.Short := by
  rw [decodeTelecommand_eq, ← modelValidateJson_dump_iff py]
  have hne := (frames_telecommand py).ne_nil tc
  simp only [encodeTelecommand, Utf8.decode_encode] at hne ⊢
  simp [hne]

theorem short_of_length {tc : Telecommand} (h : (encodeTelecommand tc).length ≤ 4096) :
    tc.data.Short := by
  obtain ⟨hdepth, hshort⟩ := tc.data.leaves_members
  have hlimits : withinLimits (.obj tc.members) = true := by
    refine withinLimits_of_encodeObj ?_ (Nat.le_trans h (by omega))
    simp only [Telecommand.members, depthMembers, depth]
    omega
  rwa [Telecommand.members, withinLimits_tagged (by omega), hshort] at hlimits

/-! ## Runs -/

/-- The read results of a run, without the empty ones that `read` gives at the end. -/
def reads (es : List Event) : List Bytes :=
  es.filterMap fun
    | .data b => if b = [] then none else some b
    | _ => none

/-- The client disconnects, the server stops, or the handler is cancelled. -/
def Event.disturbs : Event → Bool
  | .readError _ => true
  | .stop => true
  | .cancel => true
  | _ => false

theorem reads_snoc_data {b : Bytes} (hb : b ≠ []) (es : List Event) :
    reads (es ++ [.data b]) = reads es ++ [b] := by
  simp [reads, hb]

theorem reads_snoc {e : Event} (he : ∀ b, e = .data b → b = []) (es : List Event) :
    reads (es ++ [e]) = reads es := by
  cases e with
  | data b => simp [reads, he b rfl]
  | _ => simp [reads]

/-- What an event that is no read result leaves as it was, if nothing disturbs the handler. -/
theorem step_quiet {py : Pydantic} {c c' : Conn} {e : Event} (h : step py c e = some c')
    (hpc : c.pc ≠ .cancelling) (hs : c.stopEvent = false) (hd : e.disturbs = false)
    (hb : ∀ b, e ≠ .data b) :
    c'.stopEvent = false ∧ c'.pc.inLoop = c.pc.inLoop := by
  cases step_cases h hpc with
  | data _ => exact absurd rfl (hb _)
  | readError _ => cases hd
  | stop => cases hd
  | cancel _ => cases hd
  | cancelTask _ _ => cases hd
  | cancelAwait _ _ => cases hd
  | wake hp =>
    rw [loopTop, if_neg (by simp [hs])]
    exact ⟨hs, by rw [hp]; rfl⟩
  | taskExit _ _ => exact ⟨hs, rfl⟩
  | resume hp _ =>
    refine ⟨by simpa using hs, ?_⟩
    rw [afterCleanup_inLoop, hp]
    rfl
  | connectionLost => exact ⟨hs, rfl⟩
  | finish hp _ => exact ⟨hs, by rw [hp]; rfl⟩

/-- The handler has received what the reader delivers. In its loop the reader has not failed;
undisturbed, it is out of its loop only if the reader has. -/
structure Reader (py : Pydantic) (es : List Event) (c : Conn) : Prop where
  received : c.received = (receive (rx py) (reads es)).1
  inLoop : c.pc.inLoop = true → (receive (rx py) (reads es)).2 = none
  left : (∀ e ∈ es, e.disturbs = false) → c.stopEvent = false ∧
    ((receive (rx py) (reads es)).2 = none → c.pc.inLoop = true)

theorem reader_data {py : Pydantic} {es : List Event} {c : Conn} {b : Bytes}
    (hr : Reader py es c) (hpc : c.pc = .reading) :
    Reader py (es ++ [.data b]) (onData py c b) := by
  have hnone := hr.inLoop (by rw [hpc]; rfl)
  have hstop (hd : ∀ e ∈ es ++ [.data b], e.disturbs = false) :
      (onData py c b).stopEvent = false := by
    rw [onData_stopEvent]
    exact (hr.left fun x hx => hd x (by simp [hx])).1
  by_cases hb : b = []
  · have hreads := reads_snoc (e := .data b) (fun b' he => by cases he; exact hb) es
    have hc : onData py c b = { c with pc := .sleeping } := by rw [onData, hb]; rfl
    refine ⟨?_, ?_, fun hd => ⟨hstop hd, ?_⟩⟩
    · rw [hreads, hc]; exact hr.received
    · rw [hreads]; intro _; exact hnone
    · rw [hc]; intro _; rfl
  · have happ := @receive_append _ _ _ (rx py) _ [b] hnone
    rw [← reads_snoc_data hb es] at happ
    cases hd : decodeTelecommand py b with
    | telecommand tc =>
      have hc : onData py c b = onTelecommand c tc := by rw [onData, hd]
      simp only [receive, rx, hd] at happ
      refine ⟨?_, ?_, fun hq => ⟨hstop hq, ?_⟩⟩
      · rw [happ, hc, onTelecommand_received, hr.received]
      · rw [happ]; intro _; rfl
      · rw [hc, onTelecommand_pc]; intro _; rfl
    | none =>
      have hc : onData py c b = { c with pc := .sleeping } := by rw [onData, hd]
      simp only [receive, rx, hd, List.append_nil] at happ
      refine ⟨?_, ?_, fun hq => ⟨hstop hq, ?_⟩⟩
      · rw [happ, hc]; exact hr.received
      · rw [happ]; intro _; rfl
      · rw [hc]; intro _; rfl
    | unicodeDecodeError =>
      have hc : onData py c b = finallyBlock .unicodeDecodeError c := by rw [onData, hd]
      simp only [receive, rx, hd, List.append_nil] at happ
      refine ⟨?_, ?_, fun hq => ⟨hstop hq, ?_⟩⟩
      · rw [happ, hc, (same_finallyBlock _ c).received]; exact hr.received
      · rw [hc, finallyBlock_inLoop]; intro h; cases h
      · rw [happ]; intro h; cases h

theorem reader_other {py : Pydantic} {es : List Event} {c c' : Conn} {e : Event}
    (hr : Reader py es c) (hpc : c.pc ≠ .cancelling) (h : step py c e = some c')
    (hb : ∀ b, e ≠ .data b) : Reader py (es ++ [e]) c' := by
  have hreads := reads_snoc (fun b he => absurd he (hb b)) es
  have hkeep : c'.received = c.received ∧ (c'.pc.inLoop = true → c.pc.inLoop = true) := by
    cases step_effect h hpc with
    | telecommand b tc _ _ => exact absurd rfl (hb b)
    | taskExit i x t _ _ => exact ⟨rfl, id⟩
    | inLoop _ _ hs _ _ _ _ hl => exact ⟨hs.received, hl⟩
  refine ⟨?_, ?_, ?_⟩
  · rw [hreads, hkeep.1]; exact hr.received
  · rw [hreads]; intro hl; exact hr.inLoop (hkeep.2 hl)
  · intro hd
    obtain ⟨hs, hl⟩ := hr.left fun x hx => hd x (by simp [hx])
    obtain ⟨hs', hl'⟩ := step_quiet h hpc hs (hd e (by simp)) hb
    rw [hreads, hl']
    exact ⟨hs', hl⟩

theorem reader_steps {py : Pydantic} {es : List Event} {c : Conn}
    (h : Steps py (Conn.start false) es c) : Reader py es c := by
  have key : Inv c ∧ Reader py es c := by
    refine h.history (I := fun es c => Inv c ∧ Reader py es c)
      ⟨inv_start false, rfl, fun _ => rfl, fun _ => ⟨rfl, fun _ => rfl⟩⟩ ?_
    rintro es c e c' ⟨hi, hr⟩ hst
    refine ⟨inv_step hi hst, ?_⟩
    by_cases hb : ∃ b, e = .data b
    · obtain ⟨b, rfl⟩ := hb
      obtain ⟨hpc, rfl⟩ := step_data_eq_some.mp hst
      exact reader_data hr hpc
    · exact reader_other hr hi.pc hst fun b he => hb ⟨b, he⟩
  exact key.2

/-- The handler got as far as it gets with the read results `rs`: it has taken them all, or, with
nothing to disturb it, left its loop before. -/
def ReadsAll (es : List Event) (c : Conn) (rs : List Bytes) : Prop :=
  reads es = rs ∨ reads es <+: rs ∧ c.pc.inLoop = false ∧ ∀ e ∈ es, e.disturbs = false

theorem received_eq {py : Pydantic} {es : List Event} {c : Conn} {rs : List Bytes}
    (h : Steps py (Conn.start false) es c) (hr : ReadsAll es c rs) :
    c.received = (receive (rx py) rs).1 := by
  have hread := reader_steps h
  rcases hr with rfl | ⟨⟨ts, rfl⟩, hl, hd⟩
  · exact hread.received
  · have hab : (receive (rx py) (reads es)).2 ≠ none := by
      intro hn
      rw [(hread.left hd).2 hn] at hl
      cases hl
    rw [hread.received, receive_append_abort hab]

theorem received_iff {py : Pydantic} {es : List Event} {c : Conn} {rs : List Bytes}
    {tcs : List Telecommand} (h : Steps py (Conn.start false) es c)
    (hc : Cut 4096 rs (stream encodeTelecommand tcs)) (hr : ReadsAll es c rs) :
    c.received = tcs ↔ rs = tcs.map encodeTelecommand ∧ ∀ tc ∈ tcs, tc.Tagged := by
  rw [received_eq h hr, receive_iff (frames_telecommand py) hc.ne_nil hc.flatten]
  simp only [rx_eq_deliver, decodeTelecommand_encode_iff]
  refine and_congr_right fun hrs => forall₂_congr fun tc htc => and_iff_left ?_
  exact short_of_length (hc.length _ (by rw [hrs]; exact List.mem_map_of_mem htc))

/-! ## What is acted on -/

/-- The commands that `run_command` has been started for. -/
def Conn.started (c : Conn) : List CommandTypes := c.tasks.map Task.cmd

/-- The commands started, and those queued behind them. -/
def Conn.actedOn (c : Conn) : List CommandTypes :=
  c.started ++ c.commandQueue.map fun q => q.1.data

theorem Inv.started {c : Conn} (hi : Inv c) :
    c.started = (c.received.take 1).map Telecommand.data := by
  have htasks := congrArg (List.map Prod.snd) hi.tasks
  have hfirst : c.received.take 1 = (c.received.zipIdx.take 1).map Prod.fst := by
    rw [List.map_take, List.zipIdx_map_fst]
  rw [hfirst, List.map_map]
  rw [List.map_map, List.map_map] at htasks
  exact htasks

theorem Inv.queued {c : Conn} (hi : Inv c) : c.commandQueue.map Prod.fst = c.received.drop 1 := by
  rw [hi.commandQueue, List.map_drop, List.zipIdx_map_fst]

/-- Each telecommand received is started or queued, in their order. -/
theorem Inv.actedOn {c : Conn} (hi : Inv c) : c.actedOn = c.received.map Telecommand.data := by
  have hqueue := congrArg (List.map Telecommand.data) hi.queued
  rw [List.map_map] at hqueue
  calc c.actedOn
      = (c.received.take 1).map Telecommand.data ++ (c.received.drop 1).map Telecommand.data := by
        rw [Conn.actedOn, hi.started, ← hqueue]
        rfl
    _ = c.received.map Telecommand.data := by rw [← List.map_append, List.take_append_drop]

/-- What the handler decodes are exactly the telecommands written, and it starts each of them or puts
it in the queue, in their order and nothing else. -/
structure ActsOn (c : Conn) (tcs : List Telecommand) : Prop where
  received : c.received = tcs
  actedOn : c.actedOn = tcs.map Telecommand.data

structure Starts (c : Conn) (tcs : List Telecommand) : Prop where
  received : c.received = tcs
  started : c.started = tcs.map Telecommand.data

theorem Inv.actsOn_iff {c : Conn} (hi : Inv c) (tcs : List Telecommand) :
    ActsOn c tcs ↔ c.received = tcs := by
  constructor
  · exact ActsOn.received
  · rintro rfl
    exact ⟨rfl, hi.actedOn⟩

/-- Only the first telecommand is ever started. -/
theorem Inv.starts_iff {c : Conn} (hi : Inv c) (tcs : List Telecommand) :
    Starts c tcs ↔ c.received = tcs ∧ tcs.length ≤ 1 := by
  constructor
  · rintro ⟨rfl, hs⟩
    refine ⟨rfl, ?_⟩
    have hlen := congrArg List.length (hi.started.symm.trans hs)
    simp only [List.length_map, List.length_take] at hlen
    omega
  · rintro ⟨rfl, hl⟩
    exact ⟨rfl, by rw [hi.started, List.take_of_length_le hl]⟩

/-- The handler decodes and acts on exactly the telecommands written if and only if every read
result is one of them, and the tags fit the payloads. It starts all of them if and only if moreover
there is only one. -/
theorem uplink_acted_iff {py : Pydantic} {es : List Event} {c : Conn} {rs : List Bytes}
    {tcs : List Telecommand} (h : Steps py (Conn.start false) es c)
    (hc : Cut 4096 rs (stream encodeTelecommand tcs)) (hr : ReadsAll es c rs) :
    (ActsOn c tcs ↔ rs = tcs.map encodeTelecommand ∧ ∀ tc ∈ tcs, tc.Tagged) ∧
    (Starts c tcs ↔ (rs = tcs.map encodeTelecommand ∧ ∀ tc ∈ tcs, tc.Tagged) ∧
      tcs.length ≤ 1) := by
  have hi := inv_steps h
  constructor
  · rw [hi.actsOn_iff, received_iff h hc hr]
  · rw [hi.starts_iff, received_iff h hc hr]

def idsRequest : Telecommand := ⟨.getMetricIds, .getMetricIds⟩

theorem idsRequest_length : (encodeTelecommand idsRequest).length = 44 := by decide +kernel

theorem decode_idsRequest (py : Pydantic) :
    decodeTelecommand py (encodeTelecommand idsRequest) = .telecommand idsRequest :=
  (decodeTelecommand_encode_iff py idsRequest).mpr ⟨rfl, trivial⟩

theorem steps_data {py : Pydantic} {c : Conn} (hc : c.pc = .reading) (b : Bytes) :
    Steps py c [.data b] (onData py c b) :=
  .single (by rw [Trace.ofFn, step, if_pos hc])

/-- A request for the metric ids in a read result of its own is acted on. -/
theorem uplink_acted_single :
    (ActsOn (onData Pydantic.strict (Conn.start false) (encodeTelecommand idsRequest))
        [idsRequest] ↔
      [encodeTelecommand idsRequest] = [idsRequest].map encodeTelecommand ∧
        ∀ tc ∈ [idsRequest], tc.Tagged) ∧
    (Starts (onData Pydantic.strict (Conn.start false) (encodeTelecommand idsRequest))
        [idsRequest] ↔
      ([encodeTelecommand idsRequest] = [idsRequest].map encodeTelecommand ∧
        ∀ tc ∈ [idsRequest], tc.Tagged) ∧ [idsRequest].length ≤ 1) := by
  have hne := (frames_telecommand Pydantic.strict).ne_nil idsRequest
  refine uplink_acted_iff (steps_data rfl _) ⟨?_, ?_, ?_⟩ (.inl ?_)
  · simp
  · simpa using hne
  · simp [idsRequest_length]
  · simp [reads, hne]

/-- Two telecommands that arrive in one read result are not received. -/
theorem uplink_loses_coalesced : ¬ ∀ (py : Pydantic) (es : List Event) (c : Conn)
    (rs : List Bytes) (tcs : List Telecommand), Steps py (Conn.start false) es c →
    Cut 4096 rs (stream encodeTelecommand tcs) → ReadsAll es c rs → (∀ tc ∈ tcs, tc.Tagged) →
    ActsOn c tcs := by
  intro h
  have hne := (frames_telecommand Pydantic.strict).ne_nil idsRequest
  have hrun := @steps_data Pydantic.strict (Conn.start false) rfl
    (encodeTelecommand idsRequest ++ encodeTelecommand idsRequest)
  have hcut : Cut 4096 [encodeTelecommand idsRequest ++ encodeTelecommand idsRequest]
      (stream encodeTelecommand [idsRequest, idsRequest]) :=
    ⟨by simp, by simp [hne], by simp [idsRequest_length]⟩
  have hread : reads [.data (encodeTelecommand idsRequest ++ encodeTelecommand idsRequest)] =
      [encodeTelecommand idsRequest ++ encodeTelecommand idsRequest] := by
    simp [reads, hne]
  have hrec := (h _ _ _ _ [idsRequest, idsRequest] hrun hcut (.inl hread) (by decide)).received
  have := congrArg List.length ((received_iff hrun hcut (.inl hread)).mp hrec).1
  cases this

end Onboard
end BvexLink
