import BvexLink.Ground.Downlink
import BvexLink.Onboard.PeerClose

/-!
# BvexLink.Ground.Subscribe

`subscribe` of `subscriber.py` as a state machine: one step from one suspension to the next. It does
not return; what ends it is an exception or a cancellation.

* `subscribe_noFurtherRead_iff`: what `subscribe` does when the peer has closed.
* `peer_close_iff`: the same of `handle_connection` and `subscribe`.
-/

namespace BvexLink
namespace Ground

open Wire Codec Onboard

inductive SubscribeExit where
  | raised
  | cancelled
  deriving DecidableEq

/-- Where `subscribe` is suspended; `closing` is `writer.wait_closed()` in the `finally` block. -/
inductive SubscribePc where
  | connecting
  | draining
  | reading
  | handling
  | sleeping
  | closing (how : SubscribeExit)
  | finished (how : SubscribeExit)
  deriving DecidableEq

/-- `handled` are the samples passed to `handle_sample`. -/
structure Subscriber (F : Type) where
  pc : SubscribePc
  written : Bytes
  handled : List (TMMessage F)
  writerClosed : Bool

/-- `raised` is an exception at one of the `await`s. -/
inductive SubscribeEvent where
  | connected
  | drained
  | data (b : Bytes)
  | handled
  | wake
  | raised
  | cancel
  | closed
  deriving DecidableEq

namespace Subscriber

variable {F : Type}

def start : Subscriber F := ⟨.connecting, [], [], false⟩

/-- The `finally` block up to `await writer.wait_closed()`. -/
def closeWriter (how : SubscribeExit) (s : Subscriber F) : Subscriber F :=
  { s with pc := .closing how, writerClosed := true }

def onConnected (py : Pydantic) (metric_id : String) (bps : Int) (s : Subscriber F) :
    Subscriber F :=
  match Telecommand.fromCommand py (.subscribe metric_id bps) with
  | .ok tc => { s with written := encodeTelecommand tc, pc := .draining }
  | .error _ => closeWriter .raised s

variable [Primitives F]

def onData (py : Pydantic) (s : Subscriber F) (data : Bytes) : Subscriber F :=
  if data = [] then { s with pc := .sleeping }
  else
    match Loop.subscribe.onData py data with
    | .deliver m => { s with handled := s.handled ++ [m], pc := .handling }
    | .skip => { s with pc := .reading }
    | .abort _ => closeWriter .raised s

def step (py : Pydantic) (metric_id : String) (bps : Int) (s : Subscriber F) :
    SubscribeEvent → Option (Subscriber F)
  | .connected => if s.pc = .connecting then some (s.onConnected py metric_id bps) else none
  | .drained => if s.pc = .draining then some { s with pc := .reading } else none
  | .data b => if s.pc = .reading then some (s.onData py b) else none
  | .handled => if s.pc = .handling then some { s with pc := .reading } else none
  | .wake => if s.pc = .sleeping then some { s with pc := .reading } else none
  | .raised =>
    match s.pc with
    -- there is no writer yet
    | .connecting => some { s with pc := .finished .raised }
    | .draining | .reading | .handling => some (closeWriter .raised s)
    | .closing _ => some { s with pc := .finished .raised }
    | .sleeping | .finished _ => none
  | .cancel =>
    match s.pc with
    | .connecting => some { s with pc := .finished .cancelled }
    | .draining | .reading | .handling | .sleeping => some (closeWriter .cancelled s)
    | .closing _ => some { s with pc := .finished .cancelled }
    | .finished _ => none
  | .closed =>
    match s.pc with
    | .closing how => some { s with pc := .finished how }
    | _ => none

abbrev Steps (py : Pydantic) (metric_id : String) (bps : Int) :
    Subscriber F → List SubscribeEvent → Subscriber F → Prop :=
  Trace.Run (Trace.ofFn (step py metric_id bps))

inductive StepCase (py : Pydantic) (metric_id : String) (bps : Int) (s : Subscriber F) :
    SubscribeEvent → Subscriber F → Prop where
  | connected : s.pc = .connecting →
      StepCase py metric_id bps s .connected (s.onConnected py metric_id bps)
  | drained : s.pc = .draining → StepCase py metric_id bps s .drained { s with pc := .reading }
  | data {b : Bytes} : s.pc = .reading → StepCase py metric_id bps s (.data b) (s.onData py b)
  | handled : s.pc = .handling → StepCase py metric_id bps s .handled { s with pc := .reading }
  | wake : s.pc = .sleeping → StepCase py metric_id bps s .wake { s with pc := .reading }
  | leave {e : SubscribeEvent} {how : SubscribeExit} : e = .raised ∨ e = .cancel →
      StepCase py metric_id bps s e (closeWriter how s)
  | finish {e : SubscribeEvent} {how : SubscribeExit} : e = .raised ∨ e = .cancel ∨ e = .closed →
      StepCase py metric_id bps s e { s with pc := .finished how }

theorem step_cases {py : Pydantic} {metric_id : String} {bps : Int} {s t : Subscriber F}
    {e : SubscribeEvent} (h : s.step py metric_id bps e = some t) :
    StepCase py metric_id bps s e t := by
  cases e with
  | connected =>
    simp only [step] at h
    split at h <;> cases h
    rename_i hpc
    exact .connected hpc
  | drained =>
    simp only [step] at h
    split at h <;> cases h
    rename_i hpc
    exact .drained hpc
  | data b =>
    simp only [step] at h
    split at h <;> cases h
    rename_i hpc
    exact .data hpc
  | handled =>
    simp only [step] at h
    split at h <;> cases h
    rename_i hpc
    exact .handled hpc
  | wake =>
    simp only [step] at h
    split at h <;> cases h
    rename_i hpc
    exact .wake hpc
  | raised =>
    simp only [step] at h
    split at h <;> cases h
    · exact .finish (.inl rfl)
    · exact .leave (.inl rfl)
    · exact .leave (.inl rfl)
    · exact .leave (.inl rfl)
    · exact .finish (.inl rfl)
  | cancel =>
    simp only [step] at h
    split at h <;> cases h
    · exact .finish (.inr (.inl rfl))
    · exact .leave (.inr rfl)
    · exact .leave (.inr rfl)
    · exact .leave (.inr rfl)
    · exact .leave (.inr rfl)
    · exact .finish (.inr (.inl rfl))
  | closed =>
    simp only [step] at h
    split at h <;> cases h
    exact .finish (.inr (.inr rfl))

end Subscriber

section EndOfStream

variable {F : Type} [Primitives F] {py : Pydantic} {metric_id : String} {bps : Int}

def subscribeRead : SubscribeEvent → Option Bytes
  | .data b => some b
  | _ => none

/-- `subscribe` as a reader of its stream. -/
def subscribeReader (py : Pydantic) (metric_id : String) (bps : Int) :
    Trace.StreamReader (Subscriber F) SubscribeEvent UInt8 where
  step := Subscriber.step py metric_id bps
  data := subscribeRead
  reading s := s.pc = .reading

theorem step_read {s t : Subscriber F} {e : SubscribeEvent} {b : Bytes}
    (hst : s.step py metric_id bps e = some t) (hd : subscribeRead e = some b) :
    s.pc = .reading ∧ t = s.onData py b := by
  cases e with
  | data b' =>
    cases hd
    cases Subscriber.step_cases hst with
    | data hpc => exact ⟨hpc, rfl⟩
    | leave he => simp at he
    | finish he => simp at he
  | _ => cases hd

theorem subscribeReader_lawful : (subscribeReader (F := F) py metric_id bps).Lawful where
  reads := by
    intro s t e b hst hd
    simpa [subscribeReader] using (step_read hst hd).1
  stops := by
    intro s t e hst hd
    obtain ⟨_, rfl⟩ := step_read hst hd
    rfl

def SubscribePc.afterEnd : SubscribePc → Bool
  | .reading | .sleeping | .closing _ | .finished _ => true
  | .connecting | .draining | .handling => false

/-- Between reads after the end of the stream: only the pause leads back to a read. -/
theorem afterEnd_cases {s t : Subscriber F} {e : SubscribeEvent} (ha : s.pc.afterEnd = true)
    (hst : s.step py metric_id bps e = some t) (hd : subscribeRead e = none) :
    t.pc.afterEnd = true ∧ (t.pc = .reading ↔ e = .wake) := by
  cases Subscriber.step_cases hst with
  | connected hpc => simp [hpc, SubscribePc.afterEnd] at ha
  | drained hpc => simp [hpc, SubscribePc.afterEnd] at ha
  | data _ => cases hd
  | handled hpc => simp [hpc, SubscribePc.afterEnd] at ha
  | wake _ => simp [SubscribePc.afterEnd]
  | leave he =>
    rcases he with rfl | rfl <;> simp [SubscribePc.afterEnd, Subscriber.closeWriter]
  | finish he => rcases he with rfl | rfl | rfl <;> simp [SubscribePc.afterEnd]

theorem afterEnd_step {s t : Subscriber F × Bool} {e : SubscribeEvent}
    (ha : s.2 = true → s.1.pc.afterEnd = true)
    (h : (subscribeReader py metric_id bps).stepEof s e = some t) :
    t.2 = true → t.1.pc.afterEnd = true := by
  intro hf
  unfold Trace.StreamReader.stepEof at h
  split at h
  · rename_i hd
    obtain ⟨u, hu, rfl⟩ := Option.map_eq_some_iff.mp h
    obtain ⟨_, rfl⟩ := step_read hu hd
    rfl
  · split at h
    · cases h
    · obtain ⟨u, hu, rfl⟩ := Option.map_eq_some_iff.mp h
      cases hf
  · rename_i hd
    obtain ⟨u, hu, rfl⟩ := Option.map_eq_some_iff.mp h
    exact (afterEnd_cases (ha hf) hu hd).1

theorem subscribe_noFurtherRead_iff {es : List SubscribeEvent} {s : Subscriber F × Bool}
    (h : Trace.Run (Trace.ofFn (subscribeReader py metric_id bps).stepEof) (.start, false) es s) :
    (∀ es' u, es' <+: es →
      Trace.Run (Trace.ofFn (subscribeReader py metric_id bps).stepEof) (.start, false) es' u →
      (subscribeReader (F := F) py metric_id bps).NoFurtherRead u) ↔
    Trace.Run (Trace.Given (fun s e => s.2 = true → subscribeRead e = none → ¬ e = .wake)
      (Trace.ofFn (subscribeReader py metric_id bps).stepEof)) (.start, false) es s := by
  refine Trace.StreamReader.noFurtherRead_iff subscribeReader_lawful
    (fun s => s.2 = true → s.1.pc.afterEnd = true) (fun _ e => e = .wake)
    (fun s e t => afterEnd_step) (fun s e t ha hf hst hd _ => ?_) h
    (fun hf => absurd hf Bool.false_ne_true)
  simpa [subscribeReader] using (afterEnd_cases (ha hf) hst hd).2

theorem writerClosed_step {s t : Subscriber F} {e : SubscribeEvent}
    (hst : s.step py metric_id bps e = some t) :
    ∀ how, t.pc = .closing how → t.writerClosed = true := by
  intro how hpc
  cases Subscriber.step_cases hst with
  | connected _ =>
    unfold Subscriber.onConnected at hpc ⊢
    split at hpc
    · cases hpc
    · simp [Subscriber.closeWriter]
  | data _ =>
    unfold Subscriber.onData at hpc ⊢
    split at hpc
    · cases hpc
    · rename_i hb
      rw [if_neg hb]
      split at hpc <;> cases hpc
      simp [Subscriber.closeWriter]
  | leave _ => rfl
  | _ => cases hpc

theorem writerClosed_steps {es : List SubscribeEvent} {s : Subscriber F}
    (h : Subscriber.Steps py metric_id bps .start es s) :
    ∀ how, s.pc = .closing how → s.writerClosed = true :=
  h.invariant (I := fun s => ∀ how, s.pc = .closing how → s.writerClosed = true)
    (by simp [Subscriber.start]) fun _ _ _ _ hst => writerClosed_step hst

theorem subscribe_finishes {es : List SubscribeEvent} {s : Subscriber F} {how : SubscribeExit}
    (h : Subscriber.Steps py metric_id bps .start es s) (hpc : s.pc = .closing how) :
    ∃ t, s.step py metric_id bps .closed = some t ∧ t.pc = .finished how ∧
      t.writerClosed = true :=
  have hw := writerClosed_steps h how hpc
  ⟨{ s with pc := .finished how }, by simp [Subscriber.step, hpc], rfl, hw⟩

/-! ## Both loops -/

/-- When the peer has closed, either loop reads no more exactly if it does not come back from its
pause, or on board finds the stop event set; in its `finally` block it cleans up and ends. -/
theorem peer_close_iff (py : Pydantic) (metric_id : String) (bps : Int) :
    (∀ stop es s,
      Trace.Run (Trace.ofFn (connectionReader py).stepEof) (Conn.start stop, false) es s →
      ((∀ es' u, es' <+: es →
        Trace.Run (Trace.ofFn (connectionReader py).stepEof) (Conn.start stop, false) es' u →
        (connectionReader py).NoFurtherRead u) ↔
      Trace.Run (Trace.Given (fun s e => s.2 = true → readResult e = none → ¬ GoesBack s.1 e)
        (Trace.ofFn (connectionReader py).stepEof)) (Conn.start stop, false) es s)) ∧
    (∀ es s,
      Trace.Run (Trace.ofFn (subscribeReader (F := F) py metric_id bps).stepEof)
        (.start, false) es s →
      ((∀ es' u, es' <+: es →
        Trace.Run (Trace.ofFn (subscribeReader py metric_id bps).stepEof) (.start, false) es' u →
        (subscribeReader (F := F) py metric_id bps).NoFurtherRead u) ↔
      Trace.Run (Trace.Given (fun s e => s.2 = true → subscribeRead e = none → ¬ e = .wake)
        (Trace.ofFn (subscribeReader py metric_id bps).stepEof)) (.start, false) es s)) ∧
    (∀ stop es c how, Steps py (Conn.start stop) es c →
      c.pc = .cleanup how ∨ c.pc = .closing how →
      ∃ es' d, Steps py c es' d ∧ CleanedUp d) ∧
    (∀ es (s : Subscriber F) how, Subscriber.Steps py metric_id bps .start es s →
      s.pc = .closing how →
      ∃ t, s.step py metric_id bps .closed = some t ∧ t.pc = .finished how ∧
        t.writerClosed = true) :=
  ⟨fun _ _ _ h => connection_noFurtherRead_iff h, fun _ _ h => subscribe_noFurtherRead_iff h,
    fun _ _ _ _ h hpc => finishes_of_finally (ending_steps h) hpc,
    fun _ _ _ h hpc => subscribe_finishes h hpc⟩

/-! ## Two runs of each loop -/

def Subscriber.requested (request : Bytes) (pc : SubscribePc) (closed : Bool) : Subscriber F :=
  ⟨pc, request, [], closed⟩

theorem connected_step : Subscriber.step (F := F) py metric_id bps .start .connected =
    some (.requested (encodeTelecommand ⟨.subscribe, .subscribe metric_id bps⟩) .draining false) := by
  have hcommand : Telecommand.fromCommand py (.subscribe metric_id bps) =
      .ok ⟨.subscribe, .subscribe metric_id bps⟩ := fromCommand_eq_ok.mpr ⟨.inl rfl, rfl⟩
  have hconn : Subscriber.onConnected (F := F) py metric_id bps .start =
      .requested (encodeTelecommand ⟨.subscribe, .subscribe metric_id bps⟩) .draining false := by
    rw [Subscriber.onConnected, hcommand]
    rfl
  rw [← hconn]
  rfl

/-- The peer has closed, and `subscribe` is in the pause after its read. -/
theorem subscribe_eof {request : Bytes}
    (h : Subscriber.step (F := F) py metric_id bps .start .connected =
      some (.requested request .draining false)) : Trace.Run
    (Trace.ofFn (subscribeReader (F := F) py metric_id bps).stepEof) (.start, false)
    [.connected, .drained, .data []] (.requested request .sleeping false, true) := by
  refine .cons (Trace.StreamReader.stepEof_of_none rfl h) ?_
  refine .cons
    (Trace.StreamReader.stepEof_of_none (t := .requested request .reading false) rfl rfl) ?_
  exact .single (Trace.StreamReader.stepEof_of_nil rfl rfl)

end EndOfStream

theorem connection_eof (py : Pydantic) : Trace.Run (Trace.ofFn (connectionReader py).stepEof)
    (Conn.start false, false) [.data []] ({ Conn.start false with pc := .sleeping }, true) :=
  .single (Trace.StreamReader.stepEof_of_nil rfl rfl)

theorem cancelled_reads_no_more :
    (connectionReader Pydantic.strict).NoFurtherRead
      ({ Conn.start false with pc := .closing .cancelled, writerClosing := true }, true) ∧
    (@subscribeReader Bool twoFloats Pydantic.strict "temp" 8).NoFurtherRead
      (Subscriber.closeWriter .cancelled (.requested
        (encodeTelecommand ⟨.subscribe, .subscribe "temp" 8⟩) .sleeping false), true) := by
  have h := @peer_close_iff Bool twoFloats Pydantic.strict "temp" 8
  constructor
  · have hrun := (connection_eof Pydantic.strict).append
      (.single (Trace.StreamReader.stepEof_of_none (e := .cancel) rfl rfl))
    refine (h.1 false _ _ hrun).mpr ?_ _ _ List.prefix_rfl hrun
    exact hrun.given (by simp [GoesBack])
  · have hrun := (@subscribe_eof Bool twoFloats Pydantic.strict "temp" 8 _
      (@connected_step Bool twoFloats Pydantic.strict "temp" 8)).append
      (.single (Trace.StreamReader.stepEof_of_none (e := .cancel) rfl rfl))
    refine (h.2.1 _ _ hrun).mpr ?_ _ _ List.prefix_rfl hrun
    exact hrun.given (by simp)

/-- The peer has closed, and both loops come back to read. -/
theorem reads_after_peer_close :
    (¬ ∀ (py : Pydantic) (stop : Bool) (es : List Event) (s : Conn × Bool),
      Trace.Run (Trace.ofFn (connectionReader py).stepEof) (Conn.start stop, false) es s →
      (connectionReader py).NoFurtherRead s) ∧
    ¬ ∀ (py : Pydantic) (metric_id : String) (bps : Int) (es : List SubscribeEvent)
      (s : Subscriber Bool × Bool),
      Trace.Run (Trace.ofFn (@subscribeReader Bool twoFloats py metric_id bps).stepEof)
        (.start, false) es s →
      (@subscribeReader Bool twoFloats py metric_id bps).NoFurtherRead s := by
  constructor
  · intro h
    have hread := h _ _ _ _ ((connection_eof Pydantic.strict).append
      (.single (Trace.StreamReader.stepEof_of_none (e := .wake) rfl rfl))) rfl
    cases hread
  · intro h
    have hread := h _ _ _ _ _ ((@subscribe_eof Bool twoFloats Pydantic.strict "temp" 8 _
      (@connected_step Bool twoFloats Pydantic.strict "temp" 8)).append
      (.single (Trace.StreamReader.stepEof_of_none (e := .wake) rfl rfl))) rfl
    cases hread

end Ground
end BvexLink
