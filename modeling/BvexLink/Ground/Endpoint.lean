import BvexLink.Ground.Realtime

/-!
# BvexLink.Ground.Endpoint

`websocket_endpoint` and its entry in `active_connections`: any texts a client sends, and any way
the endpoint ends.

* `understood_iff`: the texts that do what they should.
* `lifetime_iff`: when the entries match the lifetimes of the endpoints.
-/

namespace BvexLink
namespace Ground

open RealtimeTelemetryConnectionManager

/-- The events of the manager, and the end of an endpoint by anything but a `WebSocketDisconnect` or
an `IndexError`: another exception of `receive_text`, or a cancellation. -/
inductive EndpointEvent (F : Type) where
  | manager (e : RealtimeEvent F)
  | raised (w : Websocket)

/-- `running` are the websockets whose endpoint has connected and has not ended. -/
structure Endpoints where
  manager : RealtimeTelemetryConnectionManager
  running : Finset Websocket

/-- A text that asks for one metric id. -/
def WellFormed (r : Request) (metric_id text : String) : Prop :=
  metric_id ≠ "" ∧ ' ' ∉ metric_id.toList ∧ text = r.text metric_id

/-- A text that is no request, a well-formed request, or a malformed one that changes nothing. -/
def Understood (subscribed : Finset String) (text : String) : Prop :=
  (¬Request.subscribe.word.toList <+: text.toList ∧
      ¬Request.unsubscribe.word.toList <+: text.toList) ∨
    (∃ r metric_id, WellFormed r metric_id text) ∨
    (Request.subscribe.word.toList <+: text.toList ∧ ∃ m ∈ secondWord text, m ∈ subscribed) ∨
    (Request.unsubscribe.word.toList <+: text.toList ∧ ∃ m ∈ secondWord text, m ∉ subscribed)

theorem understood_iff (subscribed : Finset String) (text : String) :
    Understood subscribed text ↔ ∃ subscribed', onMessage subscribed text = some subscribed' ∧
      (subscribed' = subscribed ∨ ∃ r m, WellFormed r m text ∧ subscribed' = r.apply m subscribed) := by
  by_cases hwell : ∃ r m, WellFormed r m text
  · obtain ⟨r, m, hr⟩ := hwell
    refine iff_of_true (.inr (.inl ⟨r, m, hr⟩)) ⟨r.apply m subscribed, ?_, .inr ⟨r, m, hr, rfl⟩⟩
    obtain ⟨_, hm, rfl⟩ := hr
    rw [onMessage_text, firstWord_eq hm]
  · have hnone : ∀ subscribed' : Finset String,
        ¬∃ r m, WellFormed r m text ∧ subscribed' = r.apply m subscribed :=
      fun _ ⟨r, m, hr, _⟩ => hwell ⟨r, m, hr⟩
    simp only [Understood, hwell, false_or, hnone, or_false, exists_eq_right]
    by_cases hs : Request.subscribe.word.toList <+: text.toList
    · have hu : ¬Request.unsubscribe.word.toList <+: text.toList := by
        intro hu
        obtain ⟨rest, hrest⟩ := hs
        rw [← hrest] at hu
        exact absurd (List.cons_prefix_cons.mp hu).1 (by decide)
      simp [onMessage, hs, hu]
    · by_cases hu : Request.unsubscribe.word.toList <+: text.toList
      · simp [onMessage, hs, hu]
      · simp [onMessage, hs, hu]

namespace Endpoints

def init : Endpoints := ⟨RealtimeTelemetryConnectionManager.init, ∅⟩

section Endpoint

variable {F : Type}

def step (s : Endpoints) : EndpointEvent F → Option Endpoints
  | .manager e => (s.manager.step e).map fun manager =>
    ⟨manager,
      match e with
      | .connect w => insert w s.running
      -- an `IndexError` leaves the loop
      | .message w _ => if w ∈ manager.failed then s.running.erase w else s.running
      | .disconnect w => s.running.erase w
      | .sample _ => s.running⟩
  | .raised w =>
    if w ∈ s.running then
      some ⟨{ s.manager with failed := insert w s.manager.failed }, s.running.erase w⟩
    else none

def Registered (s : Endpoints) : Prop := ∀ w, w ∈ s.manager.activeConnections ↔ w ∈ s.running

/-- What a message may do: its endpoint goes on, and no subscription changes but by a well-formed
request. -/
def OnlyAsks (s t : Endpoints) (w : Websocket) (text : String) : Prop :=
  w ∈ t.running ∧ ∀ w', t.manager.activeConnections.lookup w' = s.manager.activeConnections.lookup w' ∨
    w' = w ∧ ∃ r m, WellFormed r m text ∧
      t.manager.activeConnections.lookup w = (s.manager.activeConnections.lookup w).map (r.apply m)

def Kept (s : Endpoints) (e : EndpointEvent F) (t : Endpoints) : Prop :=
  t.Registered ∧ ∀ w text, e = .manager (.message w text) → OnlyAsks s t w text

/-- The text of a message is understood, and an endpoint ends with `WebSocketDisconnect` only. -/
def Lawful (s : Endpoints) : EndpointEvent F → Prop
  | .manager (.message w text) =>
    ∀ subscribed ∈ s.manager.activeConnections.lookup w, Understood subscribed text
  | .manager _ => True
  | .raised _ => False

structure Inv (s : Endpoints) : Prop where
  registered : s.Registered
  failed : s.manager.failed = ∅

theorem inv_init : Inv init := ⟨fun _ => by simp [init, RealtimeTelemetryConnectionManager.init], rfl⟩

theorem connect_eq {s t : Endpoints} {w : Websocket}
    (h : s.step (.manager (.connect w) : EndpointEvent F) = some t) :
    t = ⟨{ s.manager with activeConnections := s.manager.activeConnections.insert w ∅ },
      insert w s.running⟩ := by
  obtain ⟨manager, hm, rfl⟩ := Option.map_eq_some_iff.mp h
  simp only [RealtimeTelemetryConnectionManager.step] at hm
  split at hm
  · cases hm
  · rw [← Option.some.inj hm]

theorem disconnect_eq {s t : Endpoints} {w : Websocket}
    (h : s.step (.manager (.disconnect w) : EndpointEvent F) = some t) :
    t = ⟨{ s.manager with activeConnections := s.manager.activeConnections.erase w },
      s.running.erase w⟩ := by
  obtain ⟨manager, hm, rfl⟩ := Option.map_eq_some_iff.mp h
  simp only [RealtimeTelemetryConnectionManager.step] at hm
  split at hm
  · rw [← Option.some.inj hm]
  · cases hm

theorem message_cases {s t : Endpoints} (hi : Inv s) {w : Websocket} {text : String}
    (h : s.step (.manager (.message w text) : EndpointEvent F) = some t) :
    ∃ subscribed, s.manager.activeConnections.lookup w = some subscribed ∧ w ∈ s.running ∧
      ((∃ subscribed', onMessage subscribed text = some subscribed' ∧
          t = ⟨⟨s.manager.activeConnections.insert w subscribed', ∅⟩, s.running⟩) ∨
        onMessage subscribed text = none ∧
          t = ⟨⟨s.manager.activeConnections, {w}⟩, s.running.erase w⟩) := by
  obtain ⟨manager, hm, rfl⟩ := Option.map_eq_some_iff.mp h
  simp only [RealtimeTelemetryConnectionManager.step, hi.failed, Finset.notMem_empty, if_false] at hm
  obtain ⟨subscribed, hl, rfl⟩ := Option.map_eq_some_iff.mp hm
  have hw : w ∈ s.running := (hi.registered w).mp (AList.lookup_isSome.mp (by rw [hl]; rfl))
  refine ⟨subscribed, hl, hw, ?_⟩
  cases ho : onMessage subscribed text with
  | some subscribed' => exact .inl ⟨subscribed', rfl, by simp⟩
  | none => exact .inr ⟨rfl, by simp⟩

theorem registered_insert {s : Endpoints} (hr : s.Registered) {w : Websocket} (hw : w ∈ s.running)
    (subscribed : Finset String) (failed : Finset Websocket) :
    Registered ⟨⟨s.manager.activeConnections.insert w subscribed, failed⟩, s.running⟩ := by
  intro w'
  rw [AList.mem_insert, hr w']
  constructor
  · rintro (rfl | h)
    · exact hw
    · exact h
  · exact .inr

theorem kept_message {s t : Endpoints} (hi : Inv s) {w : Websocket} {text : String}
    (h : s.step (.manager (.message w text) : EndpointEvent F) = some t) :
    Kept s (.manager (.message w text) : EndpointEvent F) t ↔
      Lawful s (.manager (.message w text) : EndpointEvent F) := by
  obtain ⟨subscribed, hl, hw, hcase⟩ := message_cases hi h
  have hlaw : Lawful s (.manager (.message w text) : EndpointEvent F) ↔
      Understood subscribed text := by simp [Lawful, hl]
  rw [hlaw, understood_iff]
  rcases hcase with ⟨subscribed', ho, rfl⟩ | ⟨ho, rfl⟩
  · rw [ho]
    constructor
    · rintro ⟨_, hasks⟩
      refine ⟨subscribed', rfl, ?_⟩
      rcases (hasks w text rfl).2 w with hsame | ⟨_, r, m, hwell, happly⟩
      · rw [AList.lookup_insert, hl] at hsame
        exact .inl (Option.some.inj hsame)
      · rw [AList.lookup_insert, hl] at happly
        exact .inr ⟨r, m, hwell, Option.some.inj happly⟩
    · rintro ⟨_, he, hkeep⟩
      cases he
      refine ⟨registered_insert hi.registered hw _ _, fun w' text' he => ?_⟩
      cases he
      refine ⟨hw, fun w' => ?_⟩
      by_cases hne : w' = w
      · subst hne
        rw [AList.lookup_insert, hl]
        rcases hkeep with rfl | ⟨r, m, hwell, rfl⟩
        · exact .inl rfl
        · exact .inr ⟨rfl, r, m, hwell, rfl⟩
      · exact .inl (AList.lookup_insert_ne hne)
  · -- the endpoint has ended
    refine iff_of_false (fun hk => ?_) fun ⟨_, hs, _⟩ => by rw [ho] at hs; cases hs
    exact absurd (hk.2 w text rfl).1 (Finset.notMem_erase w _)

theorem kept_step {s t : Endpoints} {e : EndpointEvent F} (hi : Inv s) (h : s.step e = some t) :
    Kept s e t ↔ Lawful s e := by
  cases e with
  | raised w =>
    simp only [step] at h
    split at h <;> cases h
    rename_i hw
    refine iff_of_false (fun hk => ?_) id
    exact Finset.notMem_erase w _ ((hk.1 w).mp ((hi.registered w).mpr hw))
  | manager e =>
    cases e with
    | message w text => exact kept_message hi h
    | connect w =>
      cases connect_eq h
      refine iff_of_true ⟨fun w' => ?_, by simp⟩ trivial
      simp [AList.mem_insert, hi.registered w']
    | disconnect w =>
      cases disconnect_eq h
      refine iff_of_true ⟨fun w' => ?_, by simp⟩ trivial
      simp [AList.mem_erase, hi.registered w']
    | sample x =>
      cases h
      exact iff_of_true ⟨hi.registered, by simp⟩ trivial

theorem inv_step {s t : Endpoints} {e : EndpointEvent F} (hi : Inv s) (h : s.step e = some t)
    (hl : Lawful s e) : Inv t := by
  refine ⟨((kept_step hi h).mpr hl).1, ?_⟩
  cases e with
  | raised w => cases hl
  | manager e =>
    cases e with
    | message w text =>
      obtain ⟨subscribed, hs, _, ⟨_, _, rfl⟩ | ⟨ho, _⟩⟩ := message_cases hi h
      · rfl
      · obtain ⟨_, hsome, _⟩ := (understood_iff subscribed text).mp (hl subscribed hs)
        rw [ho] at hsome
        cases hsome
    | connect w =>
      cases connect_eq h
      exact hi.failed
    | disconnect w =>
      cases disconnect_eq h
      exact hi.failed
    | sample x =>
      cases h
      exact hi.failed

/-- In a run, every event leaves each websocket registered exactly as long as its endpoint is
running, and no message ends an endpoint or changes more than it asks for, if and only if every text
is understood and endpoints end with `WebSocketDisconnect` only. -/
theorem lifetime_iff {es : List (EndpointEvent F)} {s : Endpoints} :
    Trace.Run (Trace.Keeping Kept (Trace.ofFn step)) init es s ↔
      Trace.Run (Trace.Given Lawful (Trace.ofFn step)) init es s :=
  Trace.keeping_iff_given (fun _ _ _ => kept_step) (fun _ _ _ => inv_step) inv_init

end Endpoint

/-- The text `"subscribe"` has no second word: its endpoint ends, and it stays registered. -/
theorem bare_subscribe_stays : ¬∀ (es : List (EndpointEvent Bool)) (s : Endpoints),
    Trace.Run (Trace.ofFn step) init es s →
      Trace.Run (Trace.Keeping Kept (Trace.ofFn step)) init es s := by
  intro h
  have hrun : Trace.Run (Trace.ofFn (step : Endpoints → EndpointEvent Bool → Option Endpoints)) init
      [.manager (.connect 0), .manager (.message 0 "subscribe")] ⟨⟨AList.insert 0 ∅ ∅, {0}⟩, ∅⟩ :=
    Trace.run_of_exec (by rfl)
  cases h _ _ hrun with
  | cons hst hrest =>
    cases hrest with
    | cons hst' hnil =>
      cases hnil
      exact absurd (hst'.1.2 0 "subscribe" rfl).1 (by simp)

end Endpoints

end Ground
end BvexLink
