import BvexLink.Codec.Telemetry
import BvexLink.Trace.Run
import BvexLink.Lists.Split

/-!
# BvexLink.Ground.Realtime

`RealtimeTelemetryConnectionManager` of `telemetry_realtime_manager.py`: the websockets that are
connected, each with the metric ids it has subscribed to.

* `secondWord_text`: a request names the first word of what follows it.
* `Wants`: what a websocket has asked for, by the events so far.
* `subscribed_iff`: the sets kept are those.
* `routing_correct`: where a sample is sent, and that only the websocket's own events decide.
-/

namespace BvexLink
namespace Ground

open Codec

/-- The identity of a `WebSocket`. -/
abbrev Websocket := Nat

/-! ## Messages -/

inductive Request where
  | subscribe
  | unsubscribe
  deriving DecidableEq

def Request.word : Request → String
  | .subscribe => "subscribe"
  | .unsubscribe => "unsubscribe"

/-- The message a client sends. -/
def Request.text (r : Request) (metric_id : String) : String := r.word ++ " " ++ metric_id

/-- `message.split(" ")[1]`; `none` is an `IndexError`. -/
def secondWord (message : String) : Option String :=
  ((message.toList.splitOn ' ')[1]?).map String.ofList

/-- What a message makes of the set of its websocket; `none` is an `IndexError`. -/
def onMessage (subscribed : Finset String) (message : String) : Option (Finset String) :=
  if Request.subscribe.word.toList <+: message.toList then
    (secondWord message).map fun metric_id => insert metric_id subscribed
  else if Request.unsubscribe.word.toList <+: message.toList then
    (secondWord message).map fun metric_id => subscribed.erase metric_id
  else some subscribed

def Request.apply (r : Request) (metric_id : String) (subscribed : Finset String) :
    Finset String :=
  match r with
  | .subscribe => insert metric_id subscribed
  | .unsubscribe => subscribed.erase metric_id

/-- A text up to its first space. -/
def firstWord (s : String) : String := String.ofList (s.toList.takeWhile (· != ' '))

theorem text_toList (r : Request) (metric_id : String) :
    (r.text metric_id).toList = r.word.toList ++ ' ' :: metric_id.toList := by
  simp [Request.text]

theorem secondWord_text (r : Request) (metric_id : String) :
    secondWord (r.text metric_id) = some (firstWord metric_id) := by
  have hr : ' ' ∉ r.word.toList := by cases r <;> decide
  rw [secondWord, text_toList, List.splitOn_append_cons_self_of_not_mem hr, List.getElem?_cons_succ,
    ← List.head?_eq_getElem?, ListSplit.head?_splitOn]
  rfl

theorem onMessage_text (r : Request) (metric_id : String) (subscribed : Finset String) :
    onMessage subscribed (r.text metric_id) = some (r.apply (firstWord metric_id) subscribed) := by
  rw [onMessage, secondWord_text, text_toList]
  cases r with
  | subscribe => rw [if_pos (List.prefix_append _ _)]; rfl
  | unsubscribe =>
    rw [if_neg, if_pos (List.prefix_append _ _)]
    · rfl
    · intro h
      exact absurd (List.cons_prefix_cons.mp h).1 (by decide)

theorem firstWord_eq {s : String} (h : ' ' ∉ s.toList) : firstWord s = s := by
  rw [firstWord, List.takeWhile_eq_self_iff.mpr, String.ofList_toList]
  intro c hc
  simp only [bne_iff_ne, ne_eq]
  rintro rfl
  exact h hc

theorem space_notMem_firstWord (s : String) : ' ' ∉ (firstWord s).toList := by
  rw [firstWord, String.toList_ofList]
  intro h
  simpa using List.mem_takeWhile_imp h

/-! ## The manager -/

/-- `failed` are the websockets whose endpoint has raised an `IndexError`: they stay registered. -/
structure RealtimeTelemetryConnectionManager where
  activeConnections : AList fun _ : Websocket => Finset String
  failed : Finset Websocket

inductive RealtimeEvent (F : Type) where
  | connect (w : Websocket)
  | message (w : Websocket) (text : String)
  | disconnect (w : Websocket)
  | sample (s : Sample F)

namespace RealtimeTelemetryConnectionManager

def init : RealtimeTelemetryConnectionManager := ⟨∅, ∅⟩

section Manager

variable {F : Type}

def step (s : RealtimeTelemetryConnectionManager) :
    RealtimeEvent F → Option RealtimeTelemetryConnectionManager
  | .connect w =>
    if w ∈ s.activeConnections then none
    else some { s with activeConnections := s.activeConnections.insert w ∅ }
  | .message w text =>
    if w ∈ s.failed then none
    else
      (s.activeConnections.lookup w).map fun subscribed =>
        match onMessage subscribed text with
        | some subscribed => { s with activeConnections := s.activeConnections.insert w subscribed }
        | none => { s with failed := insert w s.failed }
  | .disconnect w =>
    if w ∈ s.activeConnections ∧ w ∉ s.failed then
      some { s with activeConnections := s.activeConnections.erase w }
    else none
  | .sample _ => some s

abbrev Steps : RealtimeTelemetryConnectionManager → List (RealtimeEvent F) →
    RealtimeTelemetryConnectionManager → Prop := Trace.Run (Trace.ofFn step)

/-- `notify_all_subscribers`: the websockets a sample is sent to, each with the text. -/
def notifyAllSubscribers [Primitives F] (s : RealtimeTelemetryConnectionManager)
    (sample : Sample F) : List (Websocket × String) :=
  (s.activeConnections.entries.filter fun c => sample.metadata.metric_id ∈ c.2).map fun c =>
    (c.1, sample.modelDumpJson)

def Subscribed (s : RealtimeTelemetryConnectionManager) (w : Websocket) (metric_id : String) :
    Prop := ∃ subscribed ∈ s.activeConnections.lookup w, metric_id ∈ subscribed

/-! ## What a websocket has asked for -/

/-- The messages are requests for one metric id. -/
def IsRequest : RealtimeEvent F → Prop
  | .message _ text => ∃ (r : Request) (metric_id : String), metric_id ≠ "" ∧
      ' ' ∉ metric_id.toList ∧ text = r.text metric_id
  | _ => True

/-- The latest request of the websocket for the metric id since it has connected is to
subscribe, and it is still connected. -/
def Wants (es : List (RealtimeEvent F)) (w : Websocket) (metric_id : String) : Prop :=
  ∃ pre post, es = pre ++ .message w (Request.subscribe.text metric_id) :: post ∧
    ∀ e ∈ post, e ≠ .message w (Request.unsubscribe.text metric_id) ∧ e ≠ .disconnect w

theorem wants_nil (w : Websocket) (m : String) : ¬ Wants ([] : List (RealtimeEvent F)) w m := by
  rintro ⟨pre, post, h, _⟩
  exact absurd h (by simp)

theorem wants_snoc (es : List (RealtimeEvent F)) (e : RealtimeEvent F) (w : Websocket)
    (m : String) : Wants (es ++ [e]) w m ↔ e = .message w (Request.subscribe.text m) ∨
      Wants es w m ∧ e ≠ .message w (Request.unsubscribe.text m) ∧ e ≠ .disconnect w := by
  constructor
  · rintro ⟨pre, post, h, hpost⟩
    rcases List.eq_nil_or_concat post with rfl | ⟨post, e', rfl⟩
    · exact .inl (List.append_inj' h rfl |>.2 |> List.cons.inj |>.1)
    · rw [List.concat_eq_append, ← List.cons_append, ← List.append_assoc] at h
      obtain ⟨hes, he⟩ := List.append_inj' h rfl
      cases he
      rw [List.concat_eq_append] at hpost
      refine .inr ⟨⟨pre, post, hes, fun e he => hpost e (List.mem_append_left _ he)⟩, ?_⟩
      exact hpost e (List.mem_append_right _ (List.mem_singleton_self e))
  · rintro (rfl | ⟨⟨pre, post, rfl, hpost⟩, he⟩)
    · exact ⟨es, [], rfl, nofun⟩
    · refine ⟨pre, post ++ [e], by simp, fun e' he' => ?_⟩
      rcases List.mem_append.mp he' with he' | he'
      · exact hpost e' he'
      · rw [List.mem_singleton.mp he']
        exact he

def Concerns (w : Websocket) : RealtimeEvent F → Bool
  | .connect w' => w' == w
  | .message w' _ => w' == w
  | .disconnect w' => w' == w
  | .sample _ => false

theorem wants_filter (es : List (RealtimeEvent F)) (w : Websocket) (m : String) :
    Wants (es.filter (Concerns w)) w m ↔ Wants es w m := by
  induction es using List.reverseRecOn with
  | nil => rfl
  | append_singleton es e ih =>
    rw [List.filter_append, wants_snoc, ← ih]
    by_cases he : Concerns w e = true
    · rw [List.filter_cons_of_pos he, List.filter_nil, wants_snoc]
    · rw [List.filter_cons_of_neg he, List.filter_nil, List.append_nil]
      constructor
      · intro h
        refine .inr ⟨h, ?_, ?_⟩
        · rintro rfl
          exact he (beq_self_eq_true w)
        · rintro rfl
          exact he (beq_self_eq_true w)
      · rintro (rfl | h)
        · exact absurd (beq_self_eq_true w) he
        · exact h.1

/-! ## The sets kept -/

theorem text_inj {r r' : Request} {m m' : String} :
    r.text m = r'.text m' ↔ r = r' ∧ m = m' := by
  constructor
  · intro h
    have hl := congrArg String.toList h
    rw [text_toList, text_toList] at hl
    cases r <;> cases r' <;> simp_all [Request.word, String.toList_inj]
  · rintro ⟨rfl, rfl⟩
    rfl

theorem subscribed_insert (s : RealtimeTelemetryConnectionManager) (w w' : Websocket)
    (subscribed : Finset String) (m : String) :
    Subscribed { s with activeConnections := s.activeConnections.insert w subscribed } w' m ↔
      w' = w ∧ m ∈ subscribed ∨ w' ≠ w ∧ s.Subscribed w' m := by
  by_cases hw : w' = w
  · subst hw
    simp [Subscribed, AList.lookup_insert]
  · simp [Subscribed, AList.lookup_insert_ne hw, hw]

theorem subscribed_step {s t : RealtimeTelemetryConnectionManager} {e : RealtimeEvent F}
    (he : IsRequest e) (h : s.step e = some t) (w : Websocket) (m : String) :
    t.Subscribed w m ↔ e = .message w (Request.subscribe.text m) ∨
      s.Subscribed w m ∧ e ≠ .message w (Request.unsubscribe.text m) ∧ e ≠ .disconnect w := by
  cases e with
  | connect w' =>
    simp only [step] at h
    split at h
    · cases h
    · rename_i hw
      cases h
      rw [subscribed_insert]
      have hno (hs : s.Subscribed w m) : w ≠ w' := by
        rintro rfl
        obtain ⟨subscribed, hl, _⟩ := hs
        exact hw (AList.lookup_isSome.mp (by rw [Option.mem_def.mp hl]; rfl))
      simp only [Finset.notMem_empty, and_false, false_or, reduceCtorEq, ne_eq, not_false_eq_true,
        and_true]
      exact ⟨fun hs => hs.2, fun hs => ⟨hno hs, hs⟩⟩
  | message w' text =>
    obtain ⟨r, m', _, hm', rfl⟩ := he
    simp only [step] at h
    split at h
    · cases h
    · obtain ⟨subscribed, hl, rfl⟩ := Option.map_eq_some_iff.mp h
      simp only [onMessage_text, firstWord_eq hm', subscribed_insert, RealtimeEvent.message.injEq,
        reduceCtorEq, ne_eq, not_false_eq_true, and_true]
      by_cases hw : w = w'
      · subst hw
        have hs : s.Subscribed w m ↔ m ∈ subscribed := by simp [Subscribed, hl]
        rw [hs]
        cases r with
        | subscribe => simp [Request.apply, text_inj, or_comm, eq_comm]
        | unsubscribe => simp [Request.apply, text_inj, and_comm, eq_comm]
      · simp [hw, Ne.symm hw]
  | disconnect w' =>
    simp only [step] at h
    split at h
    · cases h
      by_cases hw : w = w'
      · subst hw
        simp [Subscribed, AList.lookup_erase]
      · simp [Subscribed, AList.lookup_erase_ne hw, Ne.symm hw]
    · cases h
  | sample x =>
    cases h
    simp

/-- The sets kept hold what the websockets have asked for. -/
theorem subscribed_iff {es : List (RealtimeEvent F)} {s : RealtimeTelemetryConnectionManager}
    (h : Steps init es s) (hr : ∀ e ∈ es, IsRequest e) (w : Websocket) (m : String) :
    s.Subscribed w m ↔ Wants es w m := by
  refine h.history (I := fun es s => (∀ e ∈ es, IsRequest e) → (s.Subscribed w m ↔ Wants es w m))
    (fun _ => ?_) ?_ hr
  · refine iff_of_false ?_ (wants_nil w m)
    rintro ⟨_, hl, _⟩
    cases hl
  · intro es t e t' ih hst hr
    rw [subscribed_step (hr e (by simp)) hst, wants_snoc,
      ih fun e' he' => hr e' (List.mem_append_left _ he')]

theorem step_other {s t : RealtimeTelemetryConnectionManager} {e : RealtimeEvent F}
    {w : Websocket} (he : Concerns w e ≠ true) (h : s.step e = some t) :
    t.activeConnections.lookup w = s.activeConnections.lookup w ∧
      (w ∈ t.failed ↔ w ∈ s.failed) := by
  cases e with
  | connect w' =>
    have hw : w ≠ w' := by rintro rfl; exact he (beq_self_eq_true w)
    simp only [step] at h
    split at h
    · cases h
    · cases h
      exact ⟨AList.lookup_insert_ne hw, Iff.rfl⟩
  | message w' text =>
    have hw : w ≠ w' := by rintro rfl; exact he (beq_self_eq_true w)
    simp only [step] at h
    split at h
    · cases h
    · obtain ⟨subscribed, _, rfl⟩ := Option.map_eq_some_iff.mp h
      cases onMessage subscribed text with
      | some subscribed => exact ⟨AList.lookup_insert_ne hw, Iff.rfl⟩
      | none => exact ⟨rfl, by simp [hw]⟩
  | disconnect w' =>
    have hw : w ≠ w' := by rintro rfl; exact he (beq_self_eq_true w)
    simp only [step] at h
    split at h
    · cases h
      exact ⟨AList.lookup_erase_ne hw, Iff.rfl⟩
    · cases h
  | sample x =>
    cases h
    exact ⟨rfl, Iff.rfl⟩

theorem step_message {s : RealtimeTelemetryConnectionManager} {w : Websocket} {text : String}
    {subscribed subscribed' : Finset String} (hw : s.activeConnections.lookup w = some subscribed)
    (hf : w ∉ s.failed) (h : onMessage subscribed text = some subscribed') :
    s.step (.message w text : RealtimeEvent F) =
      some { s with activeConnections := s.activeConnections.insert w subscribed' } := by
  simp only [step, if_neg hf, hw, Option.map_some, h]

/-! ## Where a sample is sent -/

section Notify

variable [Primitives F]

def sentTo (s : RealtimeTelemetryConnectionManager) (sample : Sample F) (w : Websocket) :
    List (Websocket × String) := (s.notifyAllSubscribers sample).filter fun x => x.1 = w

omit [Primitives F] in
theorem filter_key (l : List (Sigma fun _ : Websocket => Finset String)) (w : Websocket) :
    l.filter (fun c => c.1 = w) = (l.lookupAll w).map (Sigma.mk w) := by
  induction l with
  | nil => rfl
  | cons c l ih =>
    obtain ⟨w', subscribed⟩ := c
    by_cases hw : w' = w
    · subst hw
      rw [List.filter_cons_of_pos (by simp), ih, List.lookupAll_cons_eq, List.map_cons]
    · rw [List.filter_cons_of_neg (by simpa using hw), ih, List.lookupAll_cons_ne]
      exact Ne.symm hw

theorem sentTo_eq (s : RealtimeTelemetryConnectionManager) (sample : Sample F) (w : Websocket) :
    s.sentTo sample w = ((s.activeConnections.lookup w).toList.filter fun subscribed =>
      sample.metadata.metric_id ∈ subscribed).map fun _ => (w, sample.modelDumpJson) := by
  have hall : s.activeConnections.entries.lookupAll w = (s.activeConnections.lookup w).toList :=
    List.lookupAll_eq_dlookup w s.activeConnections.nodupKeys
  simp only [sentTo, notifyAllSubscribers, List.filter_map]
  rw [List.filter_filter]
  have hcomm : (s.activeConnections.entries.filter fun c =>
      ((fun x : Websocket × String => decide (x.1 = w)) ∘
        fun c : Sigma fun _ : Websocket => Finset String => (c.1, sample.modelDumpJson)) c &&
        decide (sample.metadata.metric_id ∈ c.2)) =
      (s.activeConnections.entries.filter fun c => c.1 = w).filter fun c =>
        sample.metadata.metric_id ∈ c.2 := by
    rw [List.filter_filter]
    simp [Bool.and_comm]
  rw [hcomm, filter_key, hall, List.filter_map, List.map_map]
  rfl

theorem sentTo_of_subscribed {s : RealtimeTelemetryConnectionManager} {sample : Sample F}
    {w : Websocket} (h : s.Subscribed w sample.metadata.metric_id) :
    s.sentTo sample w = [(w, sample.modelDumpJson)] := by
  obtain ⟨subscribed, hl, hm⟩ := h
  rw [sentTo_eq, Option.mem_def.mp hl]
  simp [hm]

theorem sentTo_of_not_subscribed {s : RealtimeTelemetryConnectionManager} {sample : Sample F}
    {w : Websocket} (h : ¬ s.Subscribed w sample.metadata.metric_id) :
    s.sentTo sample w = [] := by
  rw [sentTo_eq]
  cases hl : s.activeConnections.lookup w with
  | none => rfl
  | some subscribed =>
    have hm : sample.metadata.metric_id ∉ subscribed := fun hm => h ⟨subscribed, hl, hm⟩
    simp [hm]

/-- After any events, a sample is sent once to each websocket that wants it and to no other; two
histories with the same events of a websocket send it the same. -/
theorem routing_correct {es : List (RealtimeEvent F)} {s : RealtimeTelemetryConnectionManager}
    (h : Steps init es s) (hr : ∀ e ∈ es, IsRequest e) (sample : Sample F) (w : Websocket) :
    (Wants es w sample.metadata.metric_id → s.sentTo sample w = [(w, sample.modelDumpJson)]) ∧
      (¬ Wants es w sample.metadata.metric_id → s.sentTo sample w = []) ∧
        ∀ (es' : List (RealtimeEvent F)) (s' : RealtimeTelemetryConnectionManager),
          Steps init es' s' → (∀ e ∈ es', IsRequest e) →
            es'.filter (Concerns w) = es.filter (Concerns w) →
              s'.sentTo sample w = s.sentTo sample w := by
  have hs := subscribed_iff h hr w sample.metadata.metric_id
  refine ⟨fun hw => sentTo_of_subscribed (hs.mpr hw),
    fun hw => sentTo_of_not_subscribed fun hsub => hw (hs.mp hsub), ?_⟩
  intro es' s' h' hr' hsame
  have hs' := subscribed_iff h' hr' w sample.metadata.metric_id
  rw [← wants_filter, hsame, wants_filter, ← hs] at hs'
  by_cases hsub : s.Subscribed w sample.metadata.metric_id
  · rw [sentTo_of_subscribed hsub, sentTo_of_subscribed (hs'.mpr hsub)]
  · rw [sentTo_of_not_subscribed hsub, sentTo_of_not_subscribed fun hc => hsub (hs'.mp hc)]

end Notify

end Manager

/-- Two websockets subscribe, the second one unsubscribes and the first one once more subscribes. -/
def twoClients : List (RealtimeEvent Bool) :=
  [.connect 0, .connect 1, .message 0 "subscribe temp", .message 1 "subscribe temp",
    .message 1 "unsubscribe temp", .message 0 "subscribe temp"]

theorem twoClients_sent : ∃ s, Steps init twoClients s ∧
    @sentTo Bool twoFloats s (flagSample true) 0 =
      [(0, @Sample.modelDumpJson Bool twoFloats (flagSample true))] := by
  have hrun : ∃ s, Trace.exec step init twoClients = some s := ⟨_, rfl⟩
  obtain ⟨s, hs⟩ := hrun
  have hr : ∀ e ∈ twoClients, IsRequest e := by
    simp only [twoClients, List.forall_mem_cons, List.not_mem_nil, false_implies, implies_true]
    exact ⟨trivial, trivial, ⟨.subscribe, "temp", by decide⟩, ⟨.subscribe, "temp", by decide⟩,
      ⟨.unsubscribe, "temp", by decide⟩, ⟨.subscribe, "temp", by decide⟩, trivial⟩
  refine ⟨s, Trace.run_of_exec hs, ?_⟩
  exact (@routing_correct Bool twoFloats _ s (Trace.run_of_exec hs) hr (flagSample true) 0).1
    ⟨twoClients.dropLast, [], rfl, nofun⟩

end RealtimeTelemetryConnectionManager

end Ground
end BvexLink
