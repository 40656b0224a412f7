import BvexLink.Ground.Realtime
import BvexLink.Wire.Utf16

/-!
# BvexLink.Openmct.RealtimeTelemetry

The plugin of `realtime-telemetry-plugin.ts` and the websocket endpoint it talks to, one step a
call of `subscribe`, a call of a function it has returned, or a message the endpoint takes. The
socket is open. Other websockets come, ask and go in between.

`unsubscribes` are the functions returned that have not been called.

* `step_cases`: what each event finds and leaves.
* `inv_steps`: a function not yet called stands for a listener.
* `agree_iff`: when the endpoint's set and the listeners agree throughout a run.
-/

namespace BvexLink
namespace Openmct

open Wire Codec Ground

/-- A string of the script. -/
abbrev Key := List UInt16

/-- The identity of a `ListenerCallback`. -/
abbrev Callback := Nat

/-- The properties `listener` has before any is set: those of `Object.prototype`. None of them has
a `push` or a `forEach`. -/
def inherited : List Key :=
  ["constructor", "__defineGetter__", "__defineSetter__", "hasOwnProperty", "__lookupGetter__",
    "__lookupSetter__", "isPrototypeOf", "propertyIsEnumerable", "toString", "valueOf",
    "__proto__", "toLocaleString"].map Utf16.encode

/-- The text sent for `"subscribe " + key` or `"unsubscribe " + key`. -/
def message (r : Request) (key : Key) : String :=
  String.ofList (Utf16.toText (Utf16.encode (r.word ++ " ") ++ key))

structure RealtimeTelemetryPlugin where
  listener : AList fun _ : Key => List Callback
  unsubscribes : List (Key × Callback)
  inFlight : List String
  manager : RealtimeTelemetryConnectionManager
  websocket : Websocket

inductive Event (F : Type) where
  | subscribe (key : Key) (callback : Callback)
  | unsubscribe (key : Key) (callback : Callback)
  | deliver
  | other (e : RealtimeEvent F)

namespace RealtimeTelemetryPlugin

def start (w : Websocket) : RealtimeTelemetryPlugin where
  listener := ∅
  unsubscribes := []
  inFlight := []
  manager := ⟨(∅ : AList fun _ : Websocket => Finset String).insert w ∅, ∅⟩
  websocket := w

variable {F : Type} (s : RealtimeTelemetryPlugin)

/-- `listener[key]`, if it is an array. -/
def listeners (key : Key) : List Callback := (s.listener.lookup key).getD []

/-- `subscribe`; a `TypeError` at `push` leaves everything as it was. -/
def subscribe (key : Key) (callback : Callback) : RealtimeTelemetryPlugin :=
  if key ∈ inherited then s
  else
    { s with
      listener := s.listener.insert key (s.listeners key ++ [callback])
      unsubscribes := s.unsubscribes ++ [(key, callback)]
      inFlight := s.inFlight ++ [message .subscribe key] }

/-- `unsubscribe`: `splice` at the first index of the callback. -/
def unsubscribe (key : Key) (callback : Callback) : RealtimeTelemetryPlugin :=
  { s with
    listener := s.listener.insert key ((s.listeners key).erase callback)
    unsubscribes := s.unsubscribes.erase (key, callback)
    inFlight := s.inFlight ++ [message .unsubscribe key] }

/-- One event; `none` where it cannot happen. Functions returned for the same key and callback
are interchangeable. -/
def step (s : RealtimeTelemetryPlugin) : Event F → Option RealtimeTelemetryPlugin
  | .subscribe key callback => some (s.subscribe key callback)
  | .unsubscribe key callback =>
    if (key, callback) ∈ s.unsubscribes then some (s.unsubscribe key callback) else none
  | .deliver =>
    match s.inFlight with
    | [] => none
    | text :: rest => (s.manager.step (.message s.websocket text : RealtimeEvent F)).map fun m =>
        { s with inFlight := rest, manager := m }
  | .other e =>
    if RealtimeTelemetryConnectionManager.Concerns s.websocket e = true then none
    else (s.manager.step e).map fun m => { s with manager := m }

abbrev Steps : RealtimeTelemetryPlugin → List (Event F) → RealtimeTelemetryPlugin → Prop :=
  Trace.Run (Trace.ofFn step)

/-! ## What agrees -/

def kept : Finset String := (s.manager.activeConnections.lookup s.websocket).getD ∅

def settled : Finset String :=
  s.inFlight.foldl (fun subscribed text => (onMessage subscribed text).getD subscribed) s.kept

/-- The keys of the ids that the endpoint keeps are those that have listeners. -/
def Agree : Prop :=
  ∀ key, (∃ metric_id ∈ s.settled, Utf16.encode metric_id = key) ↔ s.listeners key ≠ []

/-- The callbacks called when a sample arrives: `onmessage` for each message sent. -/
def reached [Primitives F] (sample : Sample F) : List Callback :=
  (s.manager.sentTo sample s.websocket).flatMap fun _ =>
    s.listeners (Utf16.encode sample.metadata.metric_id)

/-- The sets agree, and with no message in flight a sample reaches all listeners of its key. -/
def InStep (F : Type) [Primitives F] : Prop :=
  s.Agree ∧ (s.inFlight = [] → ∀ sample : Sample F,
    s.reached sample = s.listeners (Utf16.encode sample.metadata.metric_id))

/-- A key subscribed to is a string without spaces, or the call throws. A listener that goes is the
last one of its key. -/
def Meets : Event F → Prop
  | .subscribe key _ => key ∈ inherited ∨ ∃ metric_id : String, ' ' ∉ metric_id.toList ∧
      Utf16.encode metric_id = key
  | .unsubscribe key callback => s.listeners key = [callback]
  | _ => True

/-! ## Steps -/

theorem message_eq (r : Request) (key : Key) :
    message r key = r.text (String.ofList (Utf16.toText key)) := by
  rw [message, Utf16.toText_append, Request.text, String.ofList_append, String.ofList_toList]

def idOf (key : Key) : String := firstWord (String.ofList (Utf16.toText key))

theorem onMessage_message (r : Request) (key : Key) (subscribed : Finset String) :
    onMessage subscribed (message r key) = some (r.apply (idOf key) subscribed) := by
  rw [message_eq, onMessage_text, idOf]

theorem idOf_encode {metric_id : String} (h : ' ' ∉ metric_id.toList) :
    idOf (Utf16.encode metric_id) = metric_id := by
  rw [idOf, Utf16.toText_encode, String.ofList_toList, firstWord_eq h]

variable {s : RealtimeTelemetryPlugin}

theorem listeners_insert (key key' : Key) (callbacks : List Callback) :
    listeners { s with listener := s.listener.insert key callbacks } key' =
      if key' = key then callbacks else s.listeners key' := by
  unfold listeners
  split
  · rename_i h
    rw [h, AList.lookup_insert]
    rfl
  · rename_i h
    rw [AList.lookup_insert_ne h]

theorem settled_send (r : Request) (key : Key) (l : AList fun _ : Key => List Callback)
    (u : List (Key × Callback)) :
    settled { s with
      listener := l, unsubscribes := u, inFlight := s.inFlight ++ [message r key] } =
        r.apply (idOf key) s.settled := by
  simp only [settled, kept, List.foldl_append, List.foldl_cons, List.foldl_nil, onMessage_message,
    Option.getD_some]

inductive StepCase (s : RealtimeTelemetryPlugin) : Event F → RealtimeTelemetryPlugin → Prop where
  | throws {key : Key} {callback : Callback} :
      key ∈ inherited → StepCase s (.subscribe key callback) s
  | subscribe {key : Key} {callback : Callback} : key ∉ inherited →
      StepCase s (.subscribe key callback) { s with
        listener := s.listener.insert key (s.listeners key ++ [callback])
        unsubscribes := s.unsubscribes ++ [(key, callback)]
        inFlight := s.inFlight ++ [message .subscribe key] }
  | unsubscribe {key : Key} {callback : Callback} : (key, callback) ∈ s.unsubscribes →
      StepCase s (.unsubscribe key callback) (s.unsubscribe key callback)
  | deliver {text : String} {rest : List String} {m : RealtimeTelemetryConnectionManager} :
      s.inFlight = text :: rest →
      s.manager.step (.message s.websocket text : RealtimeEvent F) = some m →
      StepCase s .deliver { s with inFlight := rest, manager := m }
  | other {e : RealtimeEvent F} {m : RealtimeTelemetryConnectionManager} :
      RealtimeTelemetryConnectionManager.Concerns s.websocket e ≠ true →
      s.manager.step e = some m → StepCase s (.other e) { s with manager := m }

theorem step_cases {t : RealtimeTelemetryPlugin} {e : Event F} (h : s.step e = some t) :
    StepCase s e t := by
  cases e with
  | subscribe key callback =>
    simp only [step, RealtimeTelemetryPlugin.subscribe] at h
    split at h
    · rename_i hk
      cases h
      exact .throws hk
    · rename_i hk
      cases h
      exact .subscribe hk
  | unsubscribe key callback =>
    simp only [step] at h
    split at h
    · rename_i hm
      cases h
      exact .unsubscribe hm
    · cases h
  | deliver =>
    simp only [step] at h
    split at h
    · cases h
    · rename_i text rest hq
      obtain ⟨m, hm, rfl⟩ := Option.map_eq_some_iff.mp h
      exact .deliver hq hm
  | other e =>
    simp only [step] at h
    split at h
    · cases h
    · rename_i he
      obtain ⟨m, hm, rfl⟩ := Option.map_eq_some_iff.mp h
      exact .other he hm

/-! ## What holds in every run -/

structure Inv (s : RealtimeTelemetryPlugin) : Prop where
  pending : ∀ key callback,
    s.unsubscribes.count (key, callback) = (s.listeners key).count callback
  inherited : ∀ key ∈ inherited, s.listeners key = []
  requests : ∀ text ∈ s.inFlight, ∃ r key, text = message r key
  words : ∀ metric_id ∈ s.settled, ' ' ∉ metric_id.toList
  connected : (s.manager.activeConnections.lookup s.websocket).isSome
  running : s.websocket ∉ s.manager.failed

theorem lookup_start (w : Websocket) :
    (start w).manager.activeConnections.lookup w = some ∅ := AList.lookup_insert ∅

theorem settled_start (w : Websocket) : (start w).settled = ∅ :=
  congrArg (Option.getD · ∅) (lookup_start w)

theorem listeners_start (w : Websocket) (key : Key) : (start w).listeners key = [] := rfl

theorem inv_start (w : Websocket) : Inv (start w) where
  pending _ _ := rfl
  inherited _ _ := rfl
  requests := nofun
  words := by simp [settled_start]
  connected := congrArg Option.isSome (lookup_start w)
  running := by simp [start]

theorem requests_send {texts : List String} (h : ∀ text ∈ texts, ∃ r key, text = message r key)
    (r : Request) (key : Key) : ∀ text ∈ texts ++ [message r key], ∃ r key, text = message r key := by
  intro text ht
  rcases List.mem_append.mp ht with ht | ht
  · exact h text ht
  · exact ⟨r, key, List.mem_singleton.mp ht⟩

theorem words_apply {subscribed : Finset String}
    (h : ∀ metric_id ∈ subscribed, ' ' ∉ metric_id.toList) (r : Request) (key : Key) :
    ∀ metric_id ∈ r.apply (idOf key) subscribed, ' ' ∉ metric_id.toList := by
  intro m hm
  cases r with
  | subscribe =>
    rcases Finset.mem_insert.mp hm with rfl | hm
    · exact space_notMem_firstWord _
    · exact h m hm
  | unsubscribe => exact h m (Finset.mem_of_mem_erase hm)

/-- Taking a message does not change what the endpoint ends with. -/
theorem settled_deliver (hi : Inv s) {text : String} {rest : List String}
    {m : RealtimeTelemetryConnectionManager} (hq : s.inFlight = text :: rest)
    (hm : s.manager.step (.message s.websocket text : RealtimeEvent F) = some m) :
    settled { s with inFlight := rest, manager := m } = s.settled ∧
      (m.activeConnections.lookup s.websocket).isSome ∧ s.websocket ∉ m.failed := by
  obtain ⟨subscribed, hs⟩ := Option.isSome_iff_exists.mp hi.connected
  obtain ⟨r, key, rfl⟩ := hi.requests text (by rw [hq]; exact List.mem_cons_self ..)
  have hon := onMessage_message r key subscribed
  rw [RealtimeTelemetryConnectionManager.step_message hs hi.running hon] at hm
  cases hm
  refine ⟨?_, by simp [AList.lookup_insert], hi.running⟩
  simp only [settled, kept, hq, List.foldl_cons, hs, AList.lookup_insert, Option.getD_some, hon]

theorem settled_other {e : RealtimeEvent F} {m : RealtimeTelemetryConnectionManager}
    (he : RealtimeTelemetryConnectionManager.Concerns s.websocket e ≠ true)
    (hm : s.manager.step e = some m) : settled { s with manager := m } = s.settled := by
  simp only [settled, kept, (RealtimeTelemetryConnectionManager.step_other he hm).1]

theorem inv_step {t : RealtimeTelemetryPlugin} {e : Event F} (hi : Inv s)
    (h : s.step e = some t) : Inv t := by
  cases step_cases h with
  | throws _ => exact hi
  | @subscribe key callback hk =>
    have hl (key' : Key) := listeners_insert (s := s) key key' (s.listeners key ++ [callback])
    constructor
    · intro key' callback'
      rw [List.count_append, hi.pending]
      refine Eq.trans ?_ (congrArg (List.count callback') (hl key')).symm
      by_cases he : key' = key
      · subst he
        simp [List.count_singleton]
      · simp [he, Ne.symm he]
    · intro key' hk'
      refine (hl key').trans ?_
      rw [if_neg (by rintro rfl; exact hk hk')]
      exact hi.inherited key' hk'
    · exact requests_send hi.requests _ _
    · rw [settled_send]
      exact words_apply hi.words _ _
    · exact hi.connected
    · exact hi.running
  | @unsubscribe key callback hm =>
    have hl (key' : Key) := listeners_insert (s := s) key key' ((s.listeners key).erase callback)
    constructor
    · intro key' callback'
      refine Eq.trans ?_ (congrArg (List.count callback') (hl key')).symm
      rw [RealtimeTelemetryPlugin.unsubscribe, List.count_erase, hi.pending]
      by_cases he : key' = key
      · subst he
        simp [List.count_erase]
      · simp [he, Ne.symm he]
    · intro key' hk'
      refine (hl key').trans ?_
      split
      · rename_i he
        rw [← he, hi.inherited key' hk', List.erase_nil]
      · exact hi.inherited key' hk'
    · exact requests_send hi.requests _ _
    · rw [RealtimeTelemetryPlugin.unsubscribe, settled_send]
      exact words_apply hi.words _ _
    · exact hi.connected
    · exact hi.running
  | deliver hq hm =>
    obtain ⟨hs, hc, hr⟩ := settled_deliver hi hq hm
    refine ⟨hi.pending, hi.inherited, fun text ht => hi.requests text ?_, ?_, hc, hr⟩
    · rw [hq]
      exact List.mem_cons_of_mem _ ht
    · rw [hs]
      exact hi.words
  | other he hm =>
    obtain ⟨hl, hf⟩ := RealtimeTelemetryConnectionManager.step_other he hm
    refine ⟨hi.pending, hi.inherited, hi.requests, ?_, ?_, fun hw => hi.running (hf.mp hw)⟩
    · rw [settled_other he hm]
      exact hi.words
    · rw [hl]
      exact hi.connected

/-! ## Agreement -/

theorem agree_subscribe (hi : Inv s) (ha : s.Agree) {key : Key} (callback : Callback)
    (hk : key ∉ inherited) :
    Agree { s with
      listener := s.listener.insert key (s.listeners key ++ [callback])
      unsubscribes := s.unsubscribes ++ [(key, callback)]
      inFlight := s.inFlight ++ [message .subscribe key] } ↔
        Meets s (.subscribe key callback : Event F) := by
  have hl (key' : Key) := listeners_insert (s := s) key key' (s.listeners key ++ [callback])
  unfold Agree
  rw [settled_send]
  constructor
  · intro hagree
    obtain ⟨m, hm, hme⟩ := (hagree key).mpr (by
      intro hnil
      have := (hl key).symm.trans hnil
      simp at this)
    exact .inr ⟨m, words_apply hi.words .subscribe key m hm, hme⟩
  · rintro (hk' | ⟨m, hm, rfl⟩)
    · exact absurd hk' hk
    · intro key'
      rw [idOf_encode hm]
      refine Iff.trans ?_ (not_congr (Eq.congr_left (hl key'))).symm
      by_cases he : key' = Utf16.encode m
      · subst he
        simp [Request.apply]
      · rw [if_neg he]
        refine Iff.trans ?_ (ha key')
        simp [Request.apply, Ne.symm he]

theorem agree_unsubscribe (hi : Inv s) (ha : s.Agree) {key : Key} {callback : Callback}
    (hm : (key, callback) ∈ s.unsubscribes) :
    (s.unsubscribe key callback).Agree ↔ s.listeners key = [callback] := by
  have hl (key' : Key) := listeners_insert (s := s) key key' ((s.listeners key).erase callback)
  have hmem : callback ∈ s.listeners key := by
    rw [← List.count_pos_iff, ← hi.pending, List.count_pos_iff]
    exact hm
  -- the key has a listener, so it is that of an id the endpoint keeps
  obtain ⟨m, hmS, rfl⟩ := (ha key).mpr (List.ne_nil_of_mem hmem)
  unfold Agree
  rw [RealtimeTelemetryPlugin.unsubscribe, settled_send, idOf_encode (hi.words m hmS)]
  constructor
  · intro hagree
    have hnil : (s.listeners (Utf16.encode m)).erase callback = [] := by
      by_contra hne
      obtain ⟨m', hm', he⟩ := (hagree (Utf16.encode m)).mpr fun hnil => hne (by
        have := (hl (Utf16.encode m)).symm.trans hnil
        simpa using this)
      rw [Utf16.encode_inj.mp he] at hm'
      exact (Finset.notMem_erase m s.settled) hm'
    have hperm := List.perm_cons_erase hmem
    rw [hnil] at hperm
    exact List.perm_singleton.mp hperm
  · intro hone key'
    refine Iff.trans ?_ (not_congr (Eq.congr_left (hl key'))).symm
    by_cases he : key' = Utf16.encode m
    · subst he
      rw [if_pos rfl, hone]
      simp [Request.apply, Utf16.encode_inj]
    · rw [if_neg he]
      refine Iff.trans ?_ (ha key')
      constructor
      · rintro ⟨m', hm', rfl⟩
        exact ⟨m', Finset.mem_of_mem_erase hm', rfl⟩
      · rintro ⟨m', hm', rfl⟩
        exact ⟨m', Finset.mem_erase.mpr ⟨fun h => he (by rw [h]), hm'⟩, rfl⟩

theorem agree_step {t : RealtimeTelemetryPlugin} {e : Event F} (hi : Inv s) (ha : s.Agree)
    (h : s.step e = some t) : t.Agree ↔ s.Meets e := by
  cases step_cases h with
  | throws hk => exact iff_of_true ha (.inl hk)
  | subscribe hk => exact agree_subscribe hi ha _ hk
  | unsubscribe hm => exact agree_unsubscribe hi ha hm
  | deliver hq hm =>
    refine iff_of_true ?_ trivial
    unfold Agree
    rw [(settled_deliver hi hq hm).1]
    exact ha
  | other he hm =>
    refine iff_of_true ?_ trivial
    unfold Agree
    rw [settled_other he hm]
    exact ha

theorem reached_of_agree [Primitives F] (ha : s.Agree) (hq : s.inFlight = [])
    (sample : Sample F) :
    s.reached sample = s.listeners (Utf16.encode sample.metadata.metric_id) := by
  unfold reached
  by_cases hl : s.listeners (Utf16.encode sample.metadata.metric_id) = []
  · rw [hl]
    simp
  · obtain ⟨m, hm, he⟩ := (ha _).mpr hl
    rw [Utf16.encode_inj.mp he, settled, hq, List.foldl_nil, kept] at hm
    have hs : s.manager.Subscribed s.websocket sample.metadata.metric_id := by
      cases hk : s.manager.activeConnections.lookup s.websocket with
      | none => simp [hk] at hm
      | some subscribed => exact ⟨subscribed, hk, by simpa [hk] using hm⟩
    rw [RealtimeTelemetryConnectionManager.sentTo_of_subscribed hs]
    simp

theorem inStep_iff [Primitives F] : s.InStep F ↔ s.Agree :=
  ⟨fun h => h.1, fun h => ⟨h, reached_of_agree h⟩⟩

/-- The endpoint's set and the listeners agree throughout a run exactly if every key subscribed to
is a string without spaces, and every listener that goes is the last one of its key. -/
theorem agree_iff [Primitives F] {w : Websocket} {es : List (Event F)}
    {s : RealtimeTelemetryPlugin} (h : Steps (start w) es s) :
    (∀ es' t, es' <+: es → Steps (start w) es' t → t.InStep F) ↔
      Trace.Run (Trace.Given Meets (Trace.ofFn step)) (start w) es s := by
  have hstart : (start w).InStep F := by
    rw [inStep_iff]
    intro key
    simp [settled_start, listeners_start]
  refine Trace.run_given_iff (I := Inv) (fun s e t hi hst => inv_step hi hst) ?_ h (inv_start w)
    hstart
  intro s e t hi hp hst
  rw [inStep_iff] at hp ⊢
  exact agree_step hi hp hst

/-! ## Two runs -/

def temp : Key := Utf16.encode "temp"

theorem temp_notMem_inherited : temp ∉ inherited := by
  simp [inherited, temp, Utf16.encode_inj]

theorem subscribe_temp_eq (s : RealtimeTelemetryPlugin) (callback : Callback) :
    s.step (.subscribe temp callback : Event F) = some { s with
      listener := s.listener.insert temp (s.listeners temp ++ [callback])
      unsubscribes := s.unsubscribes ++ [(temp, callback)]
      inFlight := s.inFlight ++ [message .subscribe temp] } := by
  rw [step, RealtimeTelemetryPlugin.subscribe, if_neg temp_notMem_inherited]

theorem listeners_subscribe_temp {t : RealtimeTelemetryPlugin} {callback : Callback}
    (h : s.step (.subscribe temp callback : Event F) = some t) :
    t.listeners temp = s.listeners temp ++ [callback] := by
  rw [subscribe_temp_eq] at h
  cases h
  exact (listeners_insert temp temp _).trans (if_pos rfl)

theorem meets_temp (s : RealtimeTelemetryPlugin) (callback : Callback) :
    s.Meets (.subscribe temp callback : Event F) := .inr ⟨"temp", by decide, rfl⟩

theorem exists_deliver (hi : Inv s) (hq : s.inFlight ≠ []) :
    ∃ t, s.step (.deliver : Event F) = some t ∧ t.inFlight = s.inFlight.tail ∧
      t.unsubscribes = s.unsubscribes ∧ ∀ key, t.listeners key = s.listeners key := by
  obtain ⟨text, rest, hq⟩ := List.exists_cons_of_ne_nil hq
  obtain ⟨subscribed, hs⟩ := Option.isSome_iff_exists.mp hi.connected
  obtain ⟨r, key, rfl⟩ := hi.requests text (by rw [hq]; exact List.mem_cons_self ..)
  obtain ⟨m, hm⟩ : ∃ m, s.manager.step
      (.message s.websocket (message r key) : RealtimeEvent F) = some m :=
    ⟨_, RealtimeTelemetryConnectionManager.step_message hs hi.running
      (onMessage_message r key subscribed)⟩
  refine ⟨{ s with inFlight := rest, manager := m }, ?_, (congrArg List.tail hq).symm, rfl,
    fun _ => rfl⟩
  rw [step, hq]
  exact congrArg (Option.map _) hm

/-- A listener of `temp` comes and goes. -/
theorem oneListener_in_step : ∃ s, Steps (start 0)
    [.subscribe temp 0, .deliver, (.unsubscribe temp 0 : Event Bool)] s ∧
      ∀ (es' : List (Event Bool)) (t : RealtimeTelemetryPlugin),
        es' <+: [.subscribe temp 0, .deliver, .unsubscribe temp 0] →
          Steps (start 0) es' t → @InStep t Bool twoFloats := by
  obtain ⟨s1, h1⟩ : ∃ s1, (start 0).step (.subscribe temp 0 : Event Bool) = some s1 :=
    ⟨_, subscribe_temp_eq _ _⟩
  have hi1 := inv_step (inv_start 0) h1
  have hq : s1.inFlight ≠ [] := by
    rw [subscribe_temp_eq] at h1
    cases h1
    simp
  obtain ⟨s2, h2, _, _, hl⟩ := exists_deliver (F := Bool) hi1 hq
  have hl2 : s2.listeners temp = [0] := by rw [hl, listeners_subscribe_temp h1, listeners_start]; rfl
  have hm : (temp, 0) ∈ s2.unsubscribes := by
    rw [← List.count_pos_iff, (inv_step hi1 h2).pending, hl2]
    decide
  have h3 : s2.step (.unsubscribe temp 0 : Event Bool) = some (s2.unsubscribe temp 0) := if_pos hm
  refine ⟨_, .cons h1 (.cons h2 (.single h3)), ?_⟩
  refine (@agree_iff Bool twoFloats 0 _ _ (.cons h1 (.cons h2 (.single h3)))).mpr ?_
  exact .cons ⟨meets_temp _ _, h1⟩ (.cons ⟨trivial, h2⟩ (.single ⟨hl2, h3⟩))

/-- Of two listeners of `temp` one goes, and the other is left without samples. -/
theorem listener_left_alone : ¬ ∀ (w : Websocket) (es : List (Event Bool))
    (s : RealtimeTelemetryPlugin), Steps (start w) es s → @InStep s Bool twoFloats := by
  intro h
  obtain ⟨s1, h1⟩ : ∃ s1, (start 0).step (.subscribe temp 0 : Event Bool) = some s1 :=
    ⟨_, subscribe_temp_eq _ _⟩
  obtain ⟨s2, h2⟩ : ∃ s2, s1.step (.subscribe temp 1 : Event Bool) = some s2 :=
    ⟨_, subscribe_temp_eq _ _⟩
  have hi1 := inv_step (inv_start 0) h1
  have hi2 := inv_step hi1 h2
  have hl2 : s2.listeners temp = [0, 1] := by
    rw [listeners_subscribe_temp h2, listeners_subscribe_temp h1, listeners_start]
    rfl
  have hm : (temp, 0) ∈ s2.unsubscribes := by
    rw [← List.count_pos_iff, hi2.pending, hl2]
    decide
  have h3 : s2.step (.unsubscribe temp 0 : Event Bool) = some (s2.unsubscribe temp 0) := if_pos hm
  have ha2 := (h 0 _ s2 (.cons h1 (.single h2))).1
  have ha3 := (h 0 _ _ (.cons h1 (.cons h2 (.single h3)))).1
  have hone := (agree_unsubscribe hi2 ha2 hm).mp ha3
  rw [hl2] at hone
  cases hone

end RealtimeTelemetryPlugin

end Openmct
end BvexLink
