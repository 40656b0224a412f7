import BvexLink.EndToEnd.Relay
import BvexLink.Openmct.RealtimeTelemetry

/-!
# BvexLink.EndToEnd.Realtime

What a viewer is shown while samples arrive: `add_sample` hands each of them to
`notify_all_subscribers`, that to the websockets that have subscribed, and `onmessage` in the
browser to the listeners. All of these run beside the subscriptions and each other.

* `Showing`: what has been shown, what is on its way, and the sample that each subscription is busy
  with.
* `showing_relay`, `showing_job`, `showing_message`: what each kind of step keeps.
* `shown_in_order`: what is shown of a metric, and in which order.
-/

namespace BvexLink
namespace EndToEnd

open Wire Codec Onboard Ground Openmct Link

/-- A task of an `add_sample`: that of `notify_all_subscribers`, or one `send_text` of it. -/
inductive Job (F : Type) where
  | notify (sample : Sample F)
  | sendText (w : Websocket) (text : String)

/-- A point and the listeners that are called with it. -/
structure Shown where
  key : Key
  callbacks : List Callback
  point : TelemetryPoint ℚ

/-- `jobs` are not done, each with the subscription that awaits it; `inbox` are the texts on their
way to the browser. -/
structure Viewer (F : Type) where
  relay : Relay F
  jobs : List (Nat × Job F)
  inbox : List String
  plugin : RealtimeTelemetryPlugin
  shown : List Shown

/-- A job that is dropped was cancelled, or it has failed. -/
inductive ViewerEvent (F : Type) where
  | relay (e : RelayEvent F)
  | job (i : Nat)
  | dropJob (i : Nat)
  | plugin (e : Openmct.Event F)
  | message

def RelayEvent.link? {F : Type} : RelayEvent F → Nat
  | .link k _ => k
  | _ => 0

namespace Viewer

variable {F : Type}

def start (w : Websocket) : Viewer F := ⟨Relay.start, [], [], .start w, []⟩

/-- `subscribe` goes on when the tasks of its `add_sample` are done. -/
def mayStep (s : Viewer F) : RelayEvent F → Bool
  | .link k (.ground _) => s.jobs.all fun j => j.1 != k
  | _ => true

/-- `socket.onmessage` -/
def onmessage (n : Numbers ℚ) (s : Viewer F) (text : String) : Option Shown :=
  match SampleInterface.parse n text with
  | none => none
  | some sample =>
    match sampleToTelemetryPoint n sample with
    | .error _ => none
    | .ok point =>
      let key := Utf16.encode sample.metric_id
      some ⟨key, s.plugin.listeners key, point⟩

variable [Primitives F] (v : FloatValues F) (n : Numbers ℚ)

def step (py : Pydantic) (s : Viewer F) : ViewerEvent F → Option (Viewer F)
  | .relay e =>
    if s.mayStep e = true then
      (s.relay.step v py e).map fun relay => { s with
        relay := relay
        jobs := s.jobs ++
          (relay.handled.drop s.relay.handled.length).map fun x => (e.link?, .notify x) }
    else none
  | .job i =>
    match s.jobs[i]? with
    | none => none
    | some (k, .notify sample) => some { s with
        jobs := s.jobs.eraseIdx i ++
          (s.plugin.manager.notifyAllSubscribers sample).map fun x => (k, .sendText x.1 x.2) }
    | some (_, .sendText w text) => some { s with
        jobs := s.jobs.eraseIdx i
        inbox := if w = s.plugin.websocket then s.inbox ++ [text] else s.inbox }
  | .dropJob i =>
    if i < s.jobs.length then some { s with jobs := s.jobs.eraseIdx i } else none
  | .plugin e => (s.plugin.step e).map fun plugin => { s with plugin := plugin }
  | .message =>
    match s.inbox with
    | [] => none
    | text :: rest => some { s with inbox := rest, shown := s.shown ++ (s.onmessage n text).toList }

abbrev Steps (py : Pydantic) : Viewer F → List (ViewerEvent F) → Viewer F → Prop :=
  Trace.Run (Trace.ofFn (step v n py))

/-- A metric is subscribed to when the last subscription of it has ended. -/
def OneAtATime (s : Viewer F) : ViewerEvent F → Prop
  | .relay e => s.relay.OneAtATime e
  | _ => True

/-! ## What a step of a link leaves -/

variable {v} {py : Pydantic} {cache : String → Option Bytes} {l l' : Link F}

theorem handling_of_step {e : SubscribeEvent} (h : l.step v py cache (.ground e) = some l')
    (hnew : l'.ground.handled ≠ l.ground.handled) : l'.ground.pc = .handling := by
  simp only [Link.step] at h
  split at h
  · obtain ⟨t, hst, rfl⟩ := Option.map_eq_some_iff.mp h
    cases Subscriber.step_cases hst with
    | @data b hpc =>
      change (Subscriber.onData py _ b).handled ≠ _ at hnew
      show (Subscriber.onData py _ b).pc = _
      rw [Subscriber.onData] at hnew ⊢
      split
      · rename_i hb
        simp [hb] at hnew
      · rename_i hb
        rw [if_neg hb] at hnew
        split
        · rfl
        · rename_i hd
          simp [hd] at hnew
        · rename_i hd
          simp [hd, Subscriber.closeWriter] at hnew
    | connected _ =>
      rw [onConnected_eq] at hnew
      exact absurd rfl hnew
    | drained _ => exact absurd rfl hnew
    | handled _ => exact absurd rfl hnew
    | wake _ => exact absurd rfl hnew
    | leave _ => exact absurd rfl hnew
    | finish _ => exact absurd rfl hnew
  · cases h

theorem ground_of_board {e : Onboard.Event} (h : l.step v py cache (.board e) = some l') :
    l'.ground = l.ground := by
  simp only [Link.step] at h
  split at h
  · obtain ⟨c, _, rfl⟩ := Option.map_eq_some_iff.mp h
    rfl
  · cases h

theorem ground_of_loop {e : LoopEvent} (h : l.step v py cache (.loop e) = some l') :
    l'.ground = l.ground := by
  simp only [Link.step] at h
  split at h
  · cases h
  · split at h
    · obtain ⟨d, _, rfl⟩ := Option.map_eq_some_iff.mp h
      rfl
    · cases h

theorem link_of_step {k : Nat} {e : LinkEvent} {s t : Relay F} (hl : s.links[k]? = some l)
    (hlinks : t.links = s.links.set k l') (h : s.step v py (.link k e) = some t) :
    l.step v py s.cache e = some l' := by
  simp only [Relay.step, hl] at h
  obtain ⟨l'', hst, rfl⟩ := Option.map_eq_some_iff.mp h
  have hlt := (List.getElem?_eq_some_iff.mp hl).1
  have heq := congrArg (·[k]?) hlinks
  simp only [List.getElem?_set_self hlt, Option.some.injEq] at heq
  rw [hst, heq]

theorem not_handled {timeline : List (Sample F)} {sent sent' : List (Nat × Sample F)}
    {o : Option (Nat × Sample F)} (hground : l'.ground = l.ground)
    (h : LinkCase py timeline l l' sent sent' o) : o = none := by
  cases h with
  | handles i p _ _ _ _ _ hadd => simp [hground] at hadd
  | quiet _ _ _ => rfl
  | sends x _ _ _ => rfl

/-! ## What is on its way -/

section Showing

variable {n} {s t : Viewer F} {sent sent' : Nat → List (Nat × Sample F)}
  {log log' : String → List (Nat × Sample F)} {waiting delivered : List (Nat × Sample F)}
  {current current' : Nat → Option (Nat × Sample F)} {w : Websocket} {k : Nat}

def textOf (p : Nat × Sample F) : String := p.2.modelDumpJson

omit [Primitives F] in
def ofMetric (m : String) (l : List (Nat × Sample F)) : List (Nat × Sample F) :=
  l.filter fun p => p.2.metadata.metric_id = m

/-- What the job of a subscription will send to the websocket. -/
def jobText (w : Websocket) : Job F → Option String
  | .notify sample => some sample.modelDumpJson
  | .sendText w' text => if w' = w then some text else none

def toSend (w : Websocket) (k : Nat) (jobs : List (Nat × Job F)) : List String :=
  jobs.filterMap fun j => if j.1 = k then jobText w j.2 else none

/-- A sample shown, and what the listeners are called with. -/
def IsShown (n : Numbers ℚ) (p : Nat × Sample F) (c : Shown) : Prop :=
  c.key = Utf16.encode p.2.metadata.metric_id ∧ toPoint n p.2 = .ok c.point

/-- `delivered` have been shown and `waiting` are on their way, all with their places among the
samples set; `current k` is the one that subscription `k` is busy with, until it is sent. -/
structure Showing (py : Pydantic) (n : Numbers ℚ) (s : Viewer F)
    (sent : Nat → List (Nat × Sample F)) (log : String → List (Nat × Sample F))
    (waiting delivered : List (Nat × Sample F)) (current : Nat → Option (Nat × Sample F)) :
    Prop where
  tracked : Relay.Tracked py s.relay sent log
  order : Relay.InOrder s.relay sent log
  busy : ∀ {k p}, current k = some p → ∃ l, s.relay.links[k]? = some l ∧ l.ground.pc = .handling ∧
    p.2.metadata.metric_id = l.metricId
  jobs : ∀ k, List.Sublist (toSend s.plugin.websocket k s.jobs) ((current k).toList.map textOf)
  inbox : s.inbox = waiting.map textOf
  shown : List.Forall₂ (IsShown n) delivered s.shown
  logged : ∀ m, List.Sublist (ofMetric m (delivered ++ waiting)) (log m)
  next : ∀ {k p}, current k = some p →
    List.Sublist (ofMetric p.2.metadata.metric_id (delivered ++ waiting) ++ [p])
      (log p.2.metadata.metric_id)

theorem showing_start (w : Websocket) :
    Showing py n (start w : Viewer F) (fun _ => []) (fun _ => []) [] [] fun _ => none where
  tracked := Relay.tracked_start
  order := Relay.inOrder_start
  busy := by simp
  jobs _ := .slnil
  inbox := rfl
  shown := .nil
  logged _ := .slnil
  next := by simp

theorem Showing.busy_one (hi : Showing py n s sent log waiting delivered current) {k k' : Nat}
    {p q : Nat × Sample F} (hp : current k = some p) (hq : current k' = some q)
    (hm : p.2.metadata.metric_id = q.2.metadata.metric_id) : k = k' := by
  obtain ⟨l, hl, hpc, hml⟩ := hi.busy hp
  obtain ⟨l', hl', hpc', hml'⟩ := hi.busy hq
  refine hi.order.one hl hl' ?_ ?_ (hml.symm.trans (hm.trans hml'))
  · simp [Link.done, hpc]
  · simp [Link.done, hpc']

/-! ## A step of the relay -/

theorem toSend_append (js js' : List (Nat × Job F)) :
    toSend w k (js ++ js') = toSend w k js ++ toSend w k js' := List.filterMap_append ..

theorem toSend_of_ne {l : List (Nat × Job F)} (h : ∀ j ∈ l, j.1 ≠ k) : toSend w k l = [] :=
  List.filterMap_eq_nil_iff.mpr fun j hj => if_neg (h j hj)

theorem toSend_sublist {js js' : List (Nat × Job F)} (h : List.Sublist js js') :
    List.Sublist (toSend w k js) (toSend w k js') := h.filterMap _

omit [Primitives F] in
theorem ofMetric_snoc (m : String) (l : List (Nat × Sample F)) (p : Nat × Sample F) :
    ofMetric m (l ++ [p]) =
      if p.2.metadata.metric_id = m then ofMetric m l ++ [p] else ofMetric m l := by
  rw [ofMetric, List.filter_append]
  split
  · rename_i h
    rw [List.filter_cons_of_pos (by simpa using h), List.filter_nil]
    rfl
  · rename_i h
    rw [List.filter_cons_of_neg (by simpa using h), List.filter_nil, List.append_nil]
    rfl

theorem showing_quiet (hi : Showing py n s sent log waiting delivered current) {relay : Relay F}
    (ht : Relay.Tracked py relay sent' log) (ho : Relay.InOrder relay sent' log)
    (hbusy : ∀ {k p l}, current k = some p → s.relay.links[k]? = some l →
      ∃ l', relay.links[k]? = some l' ∧ l'.ground.pc = l.ground.pc ∧ l'.metricId = l.metricId) :
    Showing py n { s with relay := relay } sent' log waiting delivered current := by
  refine ⟨ht, ho, fun hp => ?_, hi.jobs, hi.inbox, hi.shown, hi.logged, hi.next⟩
  obtain ⟨l, hl, hpc, hm⟩ := hi.busy hp
  obtain ⟨l', hl', hpc', hm'⟩ := hbusy hp hl
  exact ⟨l', hl', hpc'.trans hpc, hm.trans hm'.symm⟩

theorem showing_ground (hi : Showing py n s sent log waiting delivered current) {l l' : Link F}
    {sentk : List (Nat × Sample F)} {o : Option (Nat × Sample F)}
    (hl : s.relay.links[k]? = some l) (hm : l'.metricId = l.metricId)
    (hjobs : ∀ j ∈ s.jobs, j.1 ≠ k) (hpc : ∀ p ∈ o, l'.ground.pc = .handling)
    (hown : ∀ p ∈ o, p.2.metadata.metric_id = l.metricId) {relay : Relay F}
    (hlinks : relay.links = s.relay.links.set k l')
    (ht : Relay.Tracked py relay (Function.update sent k sentk)
      (Function.update log l.metricId (log l.metricId ++ o.toList)))
    (ho : Relay.InOrder relay (Function.update sent k sentk)
      (Function.update log l.metricId (log l.metricId ++ o.toList))) :
    Showing py n { s with
        relay := relay
        jobs := s.jobs ++ o.toList.map fun p => (k, .notify p.2) }
      (Function.update sent k sentk) (Function.update log l.metricId (log l.metricId ++ o.toList))
      waiting delivered (Function.update current k o) := by
  have hself : relay.links[k]? = some l' := by
    rw [hlinks, List.getElem?_set_self (List.getElem?_eq_some_iff.mp hl).1]
  have hother {k' : Nat} (hk : k' ≠ k) : relay.links[k']? = s.relay.links[k']? := by
    rw [hlinks, List.getElem?_set_ne (Ne.symm hk)]
  refine ⟨ht, ho, fun {k' p} hp => ?_, fun k' => ?_, hi.inbox, hi.shown, fun m => ?_,
    fun {k' p} hp => ?_⟩
  · by_cases hk : k' = k
    · subst hk
      rw [Function.update_self] at hp
      exact ⟨l', hself, hpc p hp, (hown p hp).trans hm.symm⟩
    · rw [Function.update_of_ne hk] at hp
      obtain ⟨l'', hl'', hrest⟩ := hi.busy hp
      exact ⟨l'', (hother hk).trans hl'', hrest⟩
  · rw [toSend_append]
    by_cases hk : k' = k
    · subst hk
      rw [Function.update_self, toSend_of_ne hjobs, List.nil_append]
      cases o with
      | none => exact .slnil
      | some p => simp [toSend, jobText, textOf]
    · rw [Function.update_of_ne hk, toSend_of_ne (l := o.toList.map _), List.append_nil]
      · exact hi.jobs k'
      · intro j hj
        obtain ⟨p, _, rfl⟩ := List.mem_map.mp hj
        exact Ne.symm hk
  · by_cases hml : m = l.metricId
    · subst hml
      rw [Function.update_self]
      exact (hi.logged _).trans (List.sublist_append_left _ _)
    · rw [Function.update_of_ne hml]
      exact hi.logged m
  · by_cases hk : k' = k
    · subst hk
      rw [Function.update_self] at hp
      rw [hown p hp, Function.update_self, hp, Option.toList_some]
      exact (hi.logged _).append (.refl _)
    · rw [Function.update_of_ne hk] at hp
      have hnext := hi.next hp
      by_cases hml : p.2.metadata.metric_id = l.metricId
      · rw [hml] at hnext
        rw [hml, Function.update_self]
        cases o with
        | none => simpa using hnext
        | some q =>
          -- two subscriptions of the metric would be busy
          obtain ⟨l'', hl'', hpc'', hm''⟩ := hi.busy hp
          refine absurd (ho.one ((hother hk).trans hl'') hself ?_ ?_ ?_) hk
          · simp [Link.done, hpc'']
          · simp [Link.done, hpc q rfl]
          · exact hm''.symm.trans (hml.trans hm.symm)
      · rw [Function.update_of_ne hml]
        exact hnext

theorem showing_board (hi : Showing py n s sent log waiting delivered current) {l l' : Link F}
    {sentk : List (Nat × Sample F)} {o : Option (Nat × Sample F)}
    (hl : s.relay.links[k]? = some l) (hm : l'.metricId = l.metricId)
    (hground : l'.ground = l.ground)
    (hcase : LinkCase py (s.relay.sets l.metricId) l l' (sent k) sentk o) {relay : Relay F}
    (hlinks : relay.links = s.relay.links.set k l')
    (ht : Relay.Tracked py relay sent'
      (Function.update log l.metricId (log l.metricId ++ o.toList)))
    (ho : Relay.InOrder relay sent'
      (Function.update log l.metricId (log l.metricId ++ o.toList))) :
    Showing py n { s with
        relay := relay
        jobs := s.jobs ++ o.toList.map fun p => (k, .notify p.2) }
      sent' log waiting delivered current := by
  obtain rfl := not_handled hground hcase
  simp only [Option.toList_none, List.append_nil, Function.update_eq_self, List.map_nil] at ht ho ⊢
  refine showing_quiet hi ht ho fun {k' p l''} _ hl'' => ?_
  rw [hlinks]
  by_cases hk : k' = k
  · subst hk
    rw [hl] at hl''
    cases hl''
    exact ⟨l', List.getElem?_set_self (List.getElem?_eq_some_iff.mp hl).1, by rw [hground], hm⟩
  · exact ⟨l'', (List.getElem?_set_ne (Ne.symm hk)).trans hl'', rfl, rfl⟩

omit [Primitives F] in
theorem drop_self_map {α β : Type} (l : List α) (f : α → β) : (l.drop l.length).map f = [] := by
  rw [List.drop_length, List.map_nil]

theorem showing_relay (hF : FloatsRoundTrip F)
    (hi : Showing py n s sent log waiting delivered current) {e : RelayEvent F}
    (hone : s.relay.OneAtATime e) (h : s.step v n py (.relay e) = some t) :
    ∃ sent' log' current', Showing py n t sent' log' waiting delivered current' := by
  simp only [step] at h
  split at h
  case isFalse => cases h
  rename_i hmay
  obtain ⟨relay, hst, rfl⟩ := Option.map_eq_some_iff.mp h
  obtain ⟨sent', log', hcase⟩ := Relay.step_cases v hF hi.tracked hst
  have ht := Relay.tracked_step hi.tracked hcase
  have ho := Relay.inOrder_step hi.tracked hi.order hone hcase
  cases hcase with
  | setSample x =>
    refine ⟨sent, log, current, ?_⟩
    rw [drop_self_map, List.append_nil]
    exact showing_quiet hi ht ho fun {k p l} _ hl => ⟨_, hl, rfl, rfl⟩
  | subscribe metric_id bps sockBufSize =>
    refine ⟨Function.update sent s.relay.links.length [], log, current, ?_⟩
    rw [drop_self_map, List.append_nil]
    refine showing_quiet hi ht ho fun {k p l} _ hl => ⟨l, ?_, rfl, rfl⟩
    rw [List.getElem?_append_left (List.getElem?_eq_some_iff.mp hl).1, hl]
  | @link k e l l' sentk o hl hm hdone hcase =>
    have hown : ∀ p ∈ o, p.2.metadata.metric_id = l.metricId := fun p hp =>
      hi.tracked.own _ p.2 (List.mem_of_getElem? (hcase.sound.placed p (hcase.mem p hp)).1)
    have hlink := link_of_step hl rfl hst
    have hnew : (s.relay.handled ++ (o.map Prod.snd).toList).drop s.relay.handled.length =
        o.toList.map Prod.snd := by
      rw [List.drop_left]
      cases o <;> rfl
    rw [hnew, List.map_map]
    cases e with
    | ground e =>
      refine ⟨_, _, _, showing_ground hi hl hm ?_ (fun p hp => ?_) hown rfl ht ho⟩
      · simpa [mayStep] using hmay
      · refine handling_of_step hlink ?_
        cases hcase with
        | handles i r _ _ _ _ _ hadd => simp [hadd]
        | quiet _ _ _ => cases hp
        | sends x _ _ _ => cases hp
    | board e =>
      exact ⟨_, log, current, showing_board hi hl hm (ground_of_board hlink) hcase rfl ht ho⟩
    | loop e =>
      exact ⟨_, log, current, showing_board hi hl hm (ground_of_loop hlink) hcase rfl ht ho⟩

/-! ## A step of a job -/

theorem toSend_erase {js : List (Nat × Job F)} {i : Nat} {j : Nat × Job F} (h : js[i]? = some j) :
    List.Perm (toSend w k js) (toSend w k [j] ++ toSend w k (js.eraseIdx i)) := by
  obtain ⟨hi, rfl⟩ := List.getElem?_eq_some_iff.mp h
  rw [← toSend_append]
  exact (List.getElem_cons_eraseIdx_perm hi).symm.filterMap _

/-- The texts that a sample is sent to the websocket with. -/
theorem toSend_notify (m : RealtimeTelemetryConnectionManager) (x : Sample F) :
    List.Sublist (toSend w k
        ((m.notifyAllSubscribers x).map fun y => ((k, .sendText y.1 y.2) : Nat × Job F)))
      [x.modelDumpJson] := by
  have hsent : toSend w k
      ((m.notifyAllSubscribers x).map fun y => ((k, .sendText y.1 y.2) : Nat × Job F)) =
        (m.sentTo x w).map Prod.snd := by
    rw [toSend, List.filterMap_map, RealtimeTelemetryConnectionManager.sentTo,
      ← List.filterMap_eq_map, List.filterMap_filter]
    refine List.filterMap_congr fun y _ => ?_
    simp [jobText]
  rw [hsent, RealtimeTelemetryConnectionManager.sentTo_eq]
  cases m.activeConnections.lookup w with
  | none => exact List.nil_sublist _
  | some subscribed =>
    by_cases hx : x.metadata.metric_id ∈ subscribed <;> simp [hx]

theorem Showing.job (hi : Showing py n s sent log waiting delivered current) {i : Nat}
    {j : Nat × Job F} (hj : s.jobs[i]? = some j) {text : String}
    (htext : jobText s.plugin.websocket j.2 = some text) :
    ∃ p, current j.1 = some p ∧ text = textOf p ∧
      toSend s.plugin.websocket j.1 (s.jobs.eraseIdx i) = [] := by
  have hone : toSend s.plugin.websocket j.1 [j] = [text] := by simp [toSend, htext]
  have hperm := toSend_erase (w := s.plugin.websocket) (k := j.1) hj
  rw [hone] at hperm
  have hsub := hi.jobs j.1
  cases hc : current j.1 with
  | none =>
    rw [hc] at hsub
    rw [List.sublist_nil.mp hsub] at hperm
    exact absurd hperm.symm.eq_nil (by simp)
  | some p =>
    rw [hc] at hsub
    have hlen := hperm.length_eq
    have hle := hsub.length_le
    simp only [List.length_append, List.length_singleton, Option.toList_some, List.map_cons,
      List.map_nil] at hlen hle
    have hnil : toSend s.plugin.websocket j.1 (s.jobs.eraseIdx i) = [] :=
      List.eq_nil_of_length_eq_zero (by omega)
    rw [hnil, List.append_nil] at hperm
    rw [List.perm_singleton.mp hperm] at hsub
    exact ⟨p, rfl, by simpa using hsub, hnil⟩

theorem showing_jobs (hi : Showing py n s sent log waiting delivered current)
    {jobs : List (Nat × Job F)} (h : ∀ k, List.Sublist (toSend s.plugin.websocket k jobs)
      ((current k).toList.map textOf)) :
    Showing py n { s with jobs := jobs } sent log waiting delivered current :=
  ⟨hi.tracked, hi.order, hi.busy, h, hi.inbox, hi.shown, hi.logged, hi.next⟩

theorem jobs_erase (hi : Showing py n s sent log waiting delivered current) (i k : Nat) :
    List.Sublist (toSend s.plugin.websocket k (s.jobs.eraseIdx i))
      ((current k).toList.map textOf) :=
  (toSend_sublist (List.eraseIdx_sublist s.jobs i)).trans (hi.jobs k)

theorem showing_send (hi : Showing py n s sent log waiting delivered current) {i : Nat}
    {p : Nat × Sample F} (hp : current k = some p)
    (hnil : toSend s.plugin.websocket k (s.jobs.eraseIdx i) = []) :
    Showing py n { s with
        jobs := s.jobs.eraseIdx i
        inbox := s.inbox ++ [textOf p] }
      sent log (waiting ++ [p]) delivered (Function.update current k none) := by
  refine ⟨hi.tracked, hi.order, fun {k' q} hq => ?_, fun k' => ?_, ?_, hi.shown, fun m => ?_,
    fun {k' q} hq => ?_⟩
  · by_cases hk : k' = k
    · rw [hk, Function.update_self] at hq
      cases hq
    · rw [Function.update_of_ne hk] at hq
      exact hi.busy hq
  · by_cases hk : k' = k
    · subst hk
      show List.Sublist (toSend s.plugin.websocket k' (s.jobs.eraseIdx i)) _
      rw [hnil]
      exact List.nil_sublist _
    · rw [Function.update_of_ne hk]
      exact jobs_erase hi i k'
  · rw [hi.inbox, List.map_append]
    rfl
  · rw [← List.append_assoc, ofMetric_snoc]
    split
    · rename_i hm
      rw [← hm]
      exact hi.next hp
    · exact hi.logged m
  · by_cases hk : k' = k
    · rw [hk, Function.update_self] at hq
      cases hq
    · rw [Function.update_of_ne hk] at hq
      rw [← List.append_assoc, ofMetric_snoc, if_neg fun hm => hk (hi.busy_one hq hp hm.symm)]
      exact hi.next hq

theorem showing_job (hi : Showing py n s sent log waiting delivered current) {i : Nat}
    (h : s.step v n py (.job i) = some t) :
    ∃ waiting' current', Showing py n t sent log waiting' delivered current' := by
  simp only [step] at h
  split at h
  · cases h
  · rename_i k x hj
    cases h
    refine ⟨waiting, current, showing_jobs hi fun k' => ?_⟩
    rw [toSend_append]
    by_cases hk : k' = k
    · subst hk
      obtain ⟨p, hp, htext, hnil⟩ := hi.job hj rfl
      rw [hnil, List.nil_append, hp, Option.toList_some, List.map_singleton, ← htext]
      exact toSend_notify _ x
    · rw [toSend_of_ne (l := List.map _ _), List.append_nil]
      · exact jobs_erase hi i k'
      · intro j hj'
        obtain ⟨y, _, rfl⟩ := List.mem_map.mp hj'
        exact Ne.symm hk
  · rename_i k w text hj
    cases h
    by_cases hw : w = s.plugin.websocket
    · obtain ⟨p, hp, htext, hnil⟩ := hi.job hj (if_pos hw)
      refine ⟨waiting ++ [p], Function.update current k none, ?_⟩
      rw [if_pos hw, htext]
      exact showing_send hi hp hnil
    · refine ⟨waiting, current, ?_⟩
      rw [if_neg hw]
      exact showing_jobs hi (jobs_erase hi i)

/-! ## A message in the browser -/

theorem onmessage_textOf (n : Numbers ℚ) (s : Viewer F) (p : Nat × Sample F) :
    ∃ c, s.onmessage n (textOf p) = some c ∧ IsShown n p c := by
  obtain ⟨point, hpoint, _⟩ := toPoint_ok n p.2
  refine ⟨⟨Utf16.encode p.2.metadata.metric_id,
    s.plugin.listeners (Utf16.encode p.2.metadata.metric_id), point⟩, ?_, rfl, hpoint⟩
  rw [toPoint] at hpoint
  rw [onmessage, textOf]
  rw [parse_modelDumpJson] at hpoint ⊢
  simp only at hpoint ⊢
  rw [hpoint]

theorem showing_message (hi : Showing py n s sent log waiting delivered current)
    (h : s.step v n py .message = some t) :
    ∃ waiting' delivered', Showing py n t sent log waiting' delivered' current := by
  have hinbox := hi.inbox
  simp only [step] at h
  split at h
  · cases h
  · rename_i text rest hq
    cases h
    rw [hq] at hinbox
    cases waiting with
    | nil => cases hinbox
    | cons p waiting =>
      obtain ⟨htext, hrest⟩ := List.cons.inj hinbox
      obtain ⟨c, hc, hshown⟩ := onmessage_textOf n s p
      refine ⟨waiting, delivered ++ [p], hi.tracked, hi.order, hi.busy, hi.jobs, hrest, ?_, ?_, ?_⟩
      · rw [htext, hc]
        exact List.rel_append hi.shown (.cons hshown .nil)
      · rw [List.append_assoc]
        exact hi.logged
      · rw [List.append_assoc]
        exact hi.next

omit [Primitives F] in
theorem websocket_step {plugin plugin' : RealtimeTelemetryPlugin} {e : Openmct.Event F}
    (h : plugin.step e = some plugin') : plugin'.websocket = plugin.websocket := by
  cases RealtimeTelemetryPlugin.step_cases h with
  | throws _ => rfl
  | subscribe _ => rfl
  | unsubscribe _ => rfl
  | deliver _ _ => rfl
  | other _ _ => rfl

theorem showing_step (hF : FloatsRoundTrip F)
    (hi : Showing py n s sent log waiting delivered current) {e : ViewerEvent F}
    (hone : s.OneAtATime e) (h : s.step v n py e = some t) :
    ∃ sent' log' waiting' delivered' current',
      Showing py n t sent' log' waiting' delivered' current' := by
  cases e with
  | relay e =>
    obtain ⟨sent', log', current', h⟩ := showing_relay hF hi hone h
    exact ⟨sent', log', waiting, delivered, current', h⟩
  | job i =>
    obtain ⟨waiting', current', h⟩ := showing_job hi h
    exact ⟨sent, log, waiting', delivered, current', h⟩
  | dropJob i =>
    simp only [step] at h
    split at h <;> cases h
    exact ⟨sent, log, waiting, delivered, current, showing_jobs hi (jobs_erase hi i)⟩
  | plugin e =>
    obtain ⟨plugin, hst, rfl⟩ := Option.map_eq_some_iff.mp h
    refine ⟨sent, log, waiting, delivered, current, hi.tracked, hi.order, hi.busy, ?_, hi.inbox,
      hi.shown, hi.logged, hi.next⟩
    show ∀ k, List.Sublist (toSend plugin.websocket k s.jobs) _
    rw [websocket_step hst]
    exact hi.jobs
  | message =>
    obtain ⟨waiting', delivered', h⟩ := showing_message hi h
    exact ⟨sent, log, waiting', delivered', current, h⟩

/-- With one subscription of a metric at a time, in any interleaving: the listeners are called only
with points of samples that were set on board, under the key of their metric. Of each metric these
are, in their order, some of the samples handled, each once, and they come in the order in which
they were set. -/
theorem shown_in_order (hF : FloatsRoundTrip F) {es : List (ViewerEvent F)}
    (h : Trace.Run (Trace.Given OneAtATime (Trace.ofFn (step v n py))) (start w) es s) :
    ∃ placed : List (Nat × Sample F), List.Forall₂ (IsShown n) placed s.shown ∧
      (∀ p ∈ placed, (s.relay.sets p.2.metadata.metric_id)[p.1]? = some p.2 ∧ p.2.Finite) ∧
      ∀ m, (ofMetric m placed).Pairwise (fun p q => p.1 ≤ q.1) ∧
        List.Sublist ((ofMetric m placed).map Prod.snd)
          (s.relay.handled.filter fun x => x.metadata.metric_id = m) := by
  obtain ⟨sent, log, waiting, delivered, current, hi⟩ : ∃ sent log waiting delivered current,
      Showing py n s sent log waiting delivered current := by
    refine h.invariant (I := fun s => ∃ sent log waiting delivered current,
      Showing py n s sent log waiting delivered current) ⟨_, _, _, _, _, showing_start w⟩ ?_
    rintro s e t ⟨sent, log, waiting, delivered, current, hi⟩ ⟨hone, hst⟩
    exact showing_step hF hi hone hst
  have hsub (m : String) : List.Sublist (ofMetric m delivered) (log m) :=
    ((List.sublist_append_left delivered waiting).filter _).trans (hi.logged m)
  refine ⟨delivered, hi.shown, fun p hp => ?_, fun m => ⟨?_, ?_⟩⟩
  · refine hi.tracked.placed _ p ((hsub p.2.metadata.metric_id).subset ?_)
    exact List.mem_filter.mpr ⟨hp, by simp⟩
  · exact (hi.order.sorted m).sublist (hsub m)
  · rw [← hi.tracked.logged m]
    exact (hsub m).map Prod.snd

end Showing

/-! ## One sample shown -/

section OneShown

variable {py : Pydantic}

/-- Steps in which nothing is handled. -/
theorem relay_steps {r r' : Relay F} {es : List (RelayEvent F)} (plugin : RealtimeTelemetryPlugin)
    (h : Trace.Run (Trace.Given Relay.OneAtATime (Trace.ofFn (Relay.step v py))) r es r')
    (hr : r'.handled = []) :
    r.handled = [] ∧ Trace.Run (Trace.Given OneAtATime (Trace.ofFn (step v n py)))
      ⟨r, [], [], plugin, []⟩ (es.map .relay) ⟨r', [], [], plugin, []⟩ := by
  induction h with
  | nil => exact ⟨hr, .nil⟩
  | @cons r r₁ r' e es hst _ ih =>
    obtain ⟨hr₁, hrun⟩ := ih hr
    have hgrows : r.handled <+: r₁.handled := by
      have hst := hst.2
      cases e with
      | setSample x => cases hst; exact List.prefix_rfl
      | subscribe metric_id bps sockBufSize => cases hst; exact List.prefix_rfl
      | link k e =>
        simp only [Trace.ofFn, Relay.step] at hst
        split at hst
        · cases hst
        · obtain ⟨l, _, rfl⟩ := Option.map_eq_some_iff.mp hst
          exact List.prefix_append _ _
    have hr₀ : r.handled = [] := List.prefix_nil.mp (hr₁ ▸ hgrows)
    refine ⟨hr₀, .cons ⟨hst.1, ?_⟩ hrun⟩
    have hmay : mayStep ⟨r, [], [], plugin, []⟩ e = true := by
      unfold mayStep
      split <;> rfl
    simp only [Trace.ofFn, step]
    rw [if_pos hmay, hst.2, Option.map_some, hr₀, hr₁]
    rfl

/-- The endpoint has been told of a listener of `temp`. -/
def listening : RealtimeTelemetryPlugin where
  listener := (RealtimeTelemetryPlugin.start 0).listener.insert RealtimeTelemetryPlugin.temp
    ((RealtimeTelemetryPlugin.start 0).listeners RealtimeTelemetryPlugin.temp ++ [0])
  unsubscribes := [(RealtimeTelemetryPlugin.temp, 0)]
  inFlight := []
  manager :=
    ⟨(RealtimeTelemetryPlugin.start 0).manager.activeConnections.insert 0 (insert "temp" ∅), ∅⟩
  websocket := 0

theorem step_plugin {s : Viewer F} {e : Openmct.Event F} {plugin : RealtimeTelemetryPlugin}
    (h : s.plugin.step e = some plugin) :
    s.step v n py (.plugin e) = some { s with plugin := plugin } := by
  rw [step, h]
  rfl

omit [Primitives F] in
theorem deliver_step {p : RealtimeTelemetryPlugin} {text : String} {rest : List String}
    {m : RealtimeTelemetryConnectionManager} (hq : p.inFlight = text :: rest)
    (hm : p.manager.step (.message p.websocket text : RealtimeEvent F) = some m) :
    p.step (.deliver : Openmct.Event F) = some { p with inFlight := rest, manager := m } := by
  rw [RealtimeTelemetryPlugin.step, hq]
  exact congrArg (Option.map _) hm

omit [Primitives F] in
/-- The plugin has subscribed, and the endpoint has taken its message. -/
theorem listening_steps : Trace.Run (Trace.ofFn (RealtimeTelemetryPlugin.step (F := F)))
    (.start 0) [.subscribe RealtimeTelemetryPlugin.temp 0, .deliver] listening := by
  have hon := RealtimeTelemetryPlugin.onMessage_message .subscribe RealtimeTelemetryPlugin.temp ∅
  rw [RealtimeTelemetryPlugin.temp, RealtimeTelemetryPlugin.idOf_encode (by decide),
    ← RealtimeTelemetryPlugin.temp] at hon
  have hm := RealtimeTelemetryConnectionManager.step_message (F := F)
    (s := (RealtimeTelemetryPlugin.start 0).manager)
    (RealtimeTelemetryPlugin.lookup_start 0) (by simp [RealtimeTelemetryPlugin.start]) hon
  have hsub := RealtimeTelemetryPlugin.subscribe_temp_eq (F := F) (.start 0) 0
  generalize message .subscribe RealtimeTelemetryPlugin.temp = text at hm hsub
  exact .cons hsub (.single (deliver_step rfl hm))

/-- Steps of the plugin before anything is set. -/
theorem plugin_steps {p p' : RealtimeTelemetryPlugin} {es : List (Openmct.Event F)}
    (h : Trace.Run (Trace.ofFn RealtimeTelemetryPlugin.step) p es p') :
    Trace.Run (Trace.Given OneAtATime (Trace.ofFn (step v n py)))
      ⟨Relay.start, [], [], p, []⟩ (es.map .plugin) ⟨Relay.start, [], [], p', []⟩ := by
  induction h with
  | nil => exact .nil
  | cons hst _ ih => exact .cons ⟨trivial, step_plugin n hst⟩ ih

/-- What is handled goes through the two jobs to the listener. -/
theorem shown_steps {r r' : Relay F} {e : RelayEvent F} {x : Sample F} (hone : r.OneAtATime e)
    (hst : r.step v py e = some r') (hr : r.handled = []) (hr' : r'.handled = [x])
    (hx : x.metadata.metric_id = "temp") :
    ∃ s, Trace.Run (Trace.Given OneAtATime (Trace.ofFn (step v n py)))
      ⟨r, [], [], listening, []⟩ [.relay e, .job 0, .job 0, .message] s ∧ s.shown.length = 1 := by
  have hsent : listening.manager.notifyAllSubscribers x = [(0, x.modelDumpJson)] := by
    have hentries : listening.manager.activeConnections.entries = [⟨0, insert "temp" ∅⟩] := rfl
    simp [RealtimeTelemetryConnectionManager.notifyAllSubscribers, hentries, hx]
  have h₁ : step v n py ⟨r, [], [], listening, []⟩ (.relay e) =
      some ⟨r', [(e.link?, .notify x)], [], listening, []⟩ := by
    have hmay : mayStep ⟨r, [], [], listening, []⟩ e = true := by
      unfold mayStep
      split <;> rfl
    rw [step, if_pos hmay, hst, Option.map_some, hr, hr']
    rfl
  have h₂ : step v n py ⟨r', [(e.link?, .notify x)], [], listening, []⟩ (.job 0) =
      some ⟨r', [(e.link?, .sendText 0 x.modelDumpJson)], [], listening, []⟩ := by
    simp only [step, List.getElem?_cons_zero, hsent]
    rfl
  have h₃ : step v n py ⟨r', [(e.link?, .sendText 0 x.modelDumpJson)], [], listening, []⟩ (.job 0) =
      some ⟨r', [], [x.modelDumpJson], listening, []⟩ := rfl
  obtain ⟨c, hc, _⟩ := onmessage_textOf n ⟨r', [], [x.modelDumpJson], listening, []⟩ (0, x)
  have h₄ : step v n py ⟨r', [], [x.modelDumpJson], listening, []⟩ .message =
      some ⟨r', [], [], listening, [c]⟩ := by
    rw [textOf] at hc
    simp only [step, hc]
    rfl
  exact ⟨_, .cons ⟨hone, h₁⟩ (.cons ⟨trivial, h₂⟩
    (.cons ⟨trivial, h₃⟩ (.single ⟨trivial, h₄⟩))), rfl⟩

end OneShown

/-- A listener of `temp` is called with the one truth value that is set. -/
theorem flag_shown : ∃ s : Viewer Unit, s.shown.length = 1 ∧
    ∃ placed : List (Nat × Sample Unit),
      List.Forall₂ (@IsShown Unit zeroFloat exactNumbers) placed s.shown ∧
      (∀ p ∈ placed, (s.relay.sets p.2.metadata.metric_id)[p.1]? = some p.2 ∧
        @Sample.Finite Unit zeroFloat p.2) ∧
      ∀ m, (ofMetric m placed).Pairwise (fun p q => p.1 ≤ q.1) ∧
        List.Sublist ((ofMetric m placed).map Prod.snd)
          (s.relay.handled.filter fun x => x.metadata.metric_id = m) := by
  obtain ⟨r, r', hrun, hr, hst, hr'⟩ := Relay.flag_sent
  have hbefore := (@relay_steps Unit zeroFloat zeroValue exactNumbers Pydantic.strict _ _ _
    listening hrun hr).2
  have hone : r.OneAtATime (@Relay.handleOne Unit zeroFloat (flagAt 1)) := trivial
  obtain ⟨s, hafter, hlen⟩ := @shown_steps Unit zeroFloat zeroValue exactNumbers Pydantic.strict
    r r' (@Relay.handleOne Unit zeroFloat (flagAt 1)) (flagAt 1) hone hst hr hr' rfl
  have hplugin := @plugin_steps Unit zeroFloat zeroValue exactNumbers Pydantic.strict _ _ _
    listening_steps
  have hrun := hplugin.append (hbefore.append hafter)
  exact ⟨s, hlen, @shown_in_order Unit zeroFloat zeroValue exactNumbers Pydantic.strict s 0
    zeroFloat_roundTrip _ hrun⟩

end Viewer

end EndToEnd
end BvexLink
