import BvexLink.EndToEnd.Link
import BvexLink.Openmct.History

/-!
# BvexLink.EndToEnd.Relay

The way of a sample from `set_sample` on board to the ground: the cache, any number of
subscriptions, and `TelemetryServer.add_sample`, in any interleaving.

* `step_cases`: what each event finds and leaves.
* `relay_sound`: what is added was set on board under its metric, and each subscription serves the
  metric and the rate it was made for.
* `relay_in_order`: with one subscription of a metric at a time, its samples are added in the order
  in which they were set.
* `points_were_set`: the same for the points that the viewer gets of a history.
-/

namespace BvexLink
namespace EndToEnd

open Wire Wire.Framing Codec Onboard Ground Openmct Link

/-- `sets` are the samples set for a metric, the last of which is in the cache, and `handled` the
calls of `add_sample`. -/
structure Relay (F : Type) where
  sets : String → List (Sample F)
  links : List (Link F)
  handled : List (Sample F)

inductive RelayEvent (F : Type) where
  | setSample (sample : Sample F)
  | subscribe (metric_id : String) (bps : Int) (sockBufSize : Nat)
  | link (k : Nat) (e : LinkEvent)

/-- `subscribe` has returned or raised. -/
def Link.done {F : Type} (l : Link F) : Bool :=
  match l.ground.pc with
  | .finished _ => true
  | _ => false

def samplesOf {F : Type} (ms : List (TMMessage F)) : List (Sample F) :=
  ms.filterMap fun
    | .sample x => some x
    | .metricIds _ => none

namespace Relay

variable {F : Type}

def start : Relay F := ⟨fun _ => [], [], []⟩

variable [Primitives F] (v : FloatValues F)

def cache (s : Relay F) (metric_id : String) : Option Bytes :=
  (s.sets metric_id).getLast?.map cacheText

def step (py : Pydantic) (s : Relay F) : RelayEvent F → Option (Relay F)
  | .setSample sample =>
    let metric_id := sample.metadata.metric_id
    some { s with sets := Function.update s.sets metric_id (s.sets metric_id ++ [sample]) }
  | .subscribe metric_id bps sockBufSize =>
    some { s with links := s.links ++ [.start metric_id bps sockBufSize] }
  | .link k e =>
    match s.links[k]? with
    | none => none
    | some l => (l.step v py s.cache e).map fun l' => { s with
        links := s.links.set k l'
        handled := s.handled ++ samplesOf (l'.ground.handled.drop l.ground.handled.length) }

abbrev Steps (py : Pydantic) : Relay F → List (RelayEvent F) → Relay F → Prop :=
  Trace.Run (Trace.ofFn (step v py))

/-- A metric is subscribed to when the last subscription of it has ended. -/
def OneAtATime (s : Relay F) : RelayEvent F → Prop
  | .subscribe metric_id _ _ => ∀ l ∈ s.links, l.metricId = metric_id → l.done = true
  | _ => True

end Relay

/-! ## A step of a link -/

section LinkStep

variable {F : Type} [Primitives F] (v : FloatValues F) {py : Pydantic}
  {timeline : List (Sample F)} {l l' : Link F} {sent : List (Nat × Sample F)}

theorem not_done_of_step {cache : String → Option Bytes} {e : SubscribeEvent}
    (h : l.step v py cache (.ground e) = some l') : l.done = false := by
  simp only [Link.step] at h
  split at h
  · obtain ⟨s, hst, rfl⟩ := Option.map_eq_some_iff.mp h
    cases hpc : l.ground.pc with
    | finished how => cases e <;> simp [Subscriber.step, hpc] at hst
    | _ => simp [Link.done, hpc]
  · cases h

theorem link_same {cache : String → Option Bytes} {e : LinkEvent}
    (h : l.step v py cache e = some l') :
    l'.metricId = l.metricId ∧ l'.bps = l.bps ∧ (l.done = true → l'.done = true) := by
  cases e with
  | ground e =>
    have hnot := not_done_of_step v h
    simp only [Link.step] at h
    split at h
    · obtain ⟨s, _, rfl⟩ := Option.map_eq_some_iff.mp h
      exact ⟨rfl, rfl, fun hd => by rw [hnot] at hd; cases hd⟩
    · cases h
  | board e =>
    simp only [Link.step] at h
    split at h
    · obtain ⟨s, _, rfl⟩ := Option.map_eq_some_iff.mp h
      exact ⟨rfl, rfl, id⟩
    · cases h
  | loop e =>
    simp only [Link.step] at h
    split at h
    · cases h
    · split at h
      · obtain ⟨s, _, rfl⟩ := Option.map_eq_some_iff.mp h
        exact ⟨rfl, rfl, id⟩
      · cases h

/-- What a step of a link makes of the samples written, and the sample handled in it. -/
inductive LinkCase (py : Pydantic) (timeline : List (Sample F)) (l l' : Link F)
    (sent : List (Nat × Sample F)) : List (Nat × Sample F) → Option (Nat × Sample F) → Prop where
  | quiet : l'.Sound py timeline sent → l'.ground.handled = l.ground.handled →
      l'.down.length ≤ l.down.length → LinkCase py timeline l l' sent sent none
  | sends (x : Sample F) : l'.Sound py timeline (sent ++ [(timeline.length - 1, x)]) →
      l'.ground.handled = l.ground.handled → l'.down = l.down ++ encodeMessage (.sample x) →
      LinkCase py timeline l l' sent (sent ++ [(timeline.length - 1, x)]) none
  | handles (i : Nat) (p : Nat × Sample F) : l'.Sound py timeline sent → sent[i]? = some p →
      l.done = false → l.down = stream encodeMessage (messages (sent.drop i)) →
      l'.down = stream encodeMessage (messages (sent.drop (i + 1))) →
      l'.ground.handled = l.ground.handled ++ [.sample p.2] →
      LinkCase py timeline l l' sent sent (some p)

theorem link_cases (hF : FloatsRoundTrip F) {cache : String → Option Bytes}
    (hcache : cache l.metricId = timeline.getLast?.map cacheText) {e : LinkEvent}
    (hs : l.Sound py timeline sent) (h : l.step v py cache e = some l') :
    ∃ sent' o, LinkCase py timeline l l' sent sent' o := by
  cases e with
  | ground e =>
    have hs' := sound_ground v hs h
    rcases handled_step v hF hs h with hsame | ⟨i, p, hp, _, hdown, hdown', hadd⟩
    · refine ⟨sent, none, .quiet hs' hsame ?_⟩
      simp only [Link.step] at h
      split at h
      · obtain ⟨s, _, rfl⟩ := Option.map_eq_some_iff.mp h
        simp
      · cases h
    · exact ⟨sent, some p, .handles i p hs' hp (not_done_of_step v h) hdown hdown' hadd⟩
  | board e =>
    have hs' := sound_board v hs h
    refine ⟨sent, none, .quiet hs' ?_ ?_⟩
    all_goals
      simp only [Link.step] at h
      split at h
      · obtain ⟨c, _, rfl⟩ := Option.map_eq_some_iff.mp h
        simp
      · cases h
  | loop e =>
    obtain ⟨hground, ⟨hs', hdown⟩ | ⟨x, hs', hdown⟩⟩ := sound_loop v hF hcache hs h
    · exact ⟨sent, none, .quiet hs' (by rw [hground]) (by rw [hdown])⟩
    · exact ⟨_, none, .sends x hs' (by rw [hground]) hdown⟩

variable {sent' : List (Nat × Sample F)} {o : Option (Nat × Sample F)}

theorem LinkCase.sound (h : LinkCase py timeline l l' sent sent' o) :
    l'.Sound py timeline sent' := by
  cases h with
  | quiet hs _ _ => exact hs
  | sends x hs _ _ => exact hs
  | handles i p hs _ _ _ _ _ => exact hs

theorem LinkCase.mem (h : LinkCase py timeline l l' sent sent' o) : ∀ p ∈ o, p ∈ sent' := by
  intro p hp
  cases h with
  | quiet _ _ _ => cases hp
  | sends x _ _ _ => cases hp
  | handles i p' _ hget _ _ _ _ =>
    cases hp
    exact List.mem_of_getElem? hget

end LinkStep

/-- What has been written on board for a link. -/
def Link.sends {F : Type} (l : Link F) : List Bytes :=
  match l.task with
  | some r => r.loop.sends.map Send.data
  | none => []

namespace Relay

variable {F : Type} [Primitives F] (v : FloatValues F)

/-! ## What is handled -/

/-- `sent k` are the samples written for subscription `k`, and `log m` those handled of the metric
`m`, with their places among those set. -/
structure Tracked (py : Pydantic) (s : Relay F) (sent : Nat → List (Nat × Sample F))
    (log : String → List (Nat × Sample F)) : Prop where
  own : ∀ m, ∀ x ∈ s.sets m, x.metadata.metric_id = m
  links : ∀ {k : Nat} {l : Link F}, s.links[k]? = some l →
    l.Sound py (s.sets l.metricId) (sent k)
  logged : ∀ m, (log m).map Prod.snd = s.handled.filter fun x => x.metadata.metric_id = m
  placed : ∀ m, ∀ p ∈ log m, (s.sets m)[p.1]? = some p.2 ∧ p.2.Finite

/-- What an event makes of the two. -/
inductive StepCase (py : Pydantic) (s : Relay F) (sent : Nat → List (Nat × Sample F))
    (log : String → List (Nat × Sample F)) : RelayEvent F → Relay F →
    (Nat → List (Nat × Sample F)) → (String → List (Nat × Sample F)) → Prop where
  | setSample (x : Sample F) : StepCase py s sent log (.setSample x)
      { s with
        sets := Function.update s.sets x.metadata.metric_id
          (s.sets x.metadata.metric_id ++ [x]) } sent log
  | subscribe (metric_id : String) (bps : Int) (sockBufSize : Nat) :
      StepCase py s sent log (.subscribe metric_id bps sockBufSize)
        { s with links := s.links ++ [.start metric_id bps sockBufSize] }
        (Function.update sent s.links.length []) log
  | link (k : Nat) (e : LinkEvent) {l l' : Link F} {sent' : List (Nat × Sample F)}
      {o : Option (Nat × Sample F)} : s.links[k]? = some l → l'.metricId = l.metricId →
      (l.done = true → l'.done = true) →
      LinkCase py (s.sets l.metricId) l l' (sent k) sent' o →
      StepCase py s sent log (.link k e)
        { s with links := s.links.set k l', handled := s.handled ++ (o.map Prod.snd).toList }
        (Function.update sent k sent')
        (Function.update log l.metricId (log l.metricId ++ o.toList))

variable {py : Pydantic} {s t : Relay F} {sent sent' : Nat → List (Nat × Sample F)}
  {log log' : String → List (Nat × Sample F)}

theorem step_cases (hF : FloatsRoundTrip F) (hi : Tracked py s sent log) {e : RelayEvent F}
    (h : s.step v py e = some t) : ∃ sent' log', StepCase py s sent log e t sent' log' := by
  cases e with
  | setSample x =>
    cases h
    exact ⟨sent, log, .setSample x⟩
  | subscribe metric_id bps sockBufSize =>
    cases h
    exact ⟨_, log, .subscribe metric_id bps sockBufSize⟩
  | link k e =>
    simp only [step] at h
    split at h
    · cases h
    · rename_i l hl
      obtain ⟨l', hst, rfl⟩ := Option.map_eq_some_iff.mp h
      obtain ⟨hmetric, _, hdone⟩ := link_same v hst
      obtain ⟨sent', o, hcase⟩ := link_cases v hF rfl (hi.links hl) hst
      have hhandled : samplesOf (l'.ground.handled.drop l.ground.handled.length) =
          (o.map Prod.snd).toList := by
        cases hcase with
        | quiet _ hsame _ => rw [hsame, List.drop_length]; rfl
        | sends x _ hsame _ => rw [hsame, List.drop_length]; rfl
        | handles i p _ _ _ _ _ hadd => rw [hadd, List.drop_left]; rfl
      rw [hhandled]
      exact ⟨_, _, .link k e hl hmetric hdone hcase⟩

theorem tracked_start : Tracked py (start : Relay F) (fun _ => []) fun _ => [] where
  own := by simp [start]
  links := by simp [start]
  logged := by simp [start]
  placed := by simp

omit [Primitives F] in
theorem sets_grow (s : Relay F) (x : Sample F) (m : String) :
    s.sets m <+: Function.update s.sets x.metadata.metric_id
      (s.sets x.metadata.metric_id ++ [x]) m := by
  by_cases hm : m = x.metadata.metric_id
  · subst hm
    rw [Function.update_self]
    exact List.prefix_append _ _
  · rw [Function.update_of_ne hm]

theorem tracked_setSample (hi : Tracked py s sent log) (x : Sample F) :
    Tracked py { s with
      sets := Function.update s.sets x.metadata.metric_id
        (s.sets x.metadata.metric_id ++ [x]) } sent log := by
  refine ⟨fun m y hy => ?_, fun hl => (hi.links hl).later (sets_grow s x _), hi.logged,
    fun m p hp => ?_⟩
  · by_cases hm : m = x.metadata.metric_id
    · subst hm
      simp only [Function.update_self, List.mem_append, List.mem_singleton] at hy
      rcases hy with hy | rfl
      · exact hi.own _ y hy
      · rfl
    · simp only [Function.update_of_ne hm] at hy
      exact hi.own m y hy
  · obtain ⟨hget, hfin⟩ := hi.placed m p hp
    obtain ⟨rest, hrest⟩ := sets_grow s x m
    refine ⟨?_, hfin⟩
    show (Function.update s.sets _ _ m)[p.1]? = some p.2
    rw [← hrest, List.getElem?_append_left (List.getElem?_eq_some_iff.mp hget).1, hget]

theorem getElem?_snoc_cases {α : Type} {l : List α} {a b : α} {k : Nat}
    (h : (l ++ [a])[k]? = some b) : k < l.length ∧ l[k]? = some b ∨ k = l.length ∧ b = a := by
  by_cases hk : k < l.length
  · rw [List.getElem?_append_left hk] at h
    exact .inl ⟨hk, h⟩
  · rw [List.getElem?_append_right (Nat.le_of_not_lt hk)] at h
    obtain ⟨hlt, he⟩ := List.getElem?_eq_some_iff.mp h
    rw [List.length_singleton] at hlt
    refine .inr ⟨by omega, ?_⟩
    rw [← he]
    exact List.getElem_singleton ..

theorem tracked_subscribe (hi : Tracked py s sent log) (metric_id : String) (bps : Int)
    (sockBufSize : Nat) :
    Tracked py { s with links := s.links ++ [.start metric_id bps sockBufSize] }
      (Function.update sent s.links.length []) log := by
  refine ⟨hi.own, fun hl => ?_, hi.logged, hi.placed⟩
  rcases getElem?_snoc_cases hl with ⟨hk, hl⟩ | ⟨rfl, rfl⟩
  · rw [Function.update_of_ne hk.ne]
    exact hi.links hl
  · rw [Function.update_self]
    exact sound_start metric_id bps sockBufSize

theorem tracked_link (hi : Tracked py s sent log) {k : Nat} {l l' : Link F}
    {sentk : List (Nat × Sample F)} {o : Option (Nat × Sample F)} (hl : s.links[k]? = some l)
    (hmetric : l'.metricId = l.metricId)
    (hcase : LinkCase py (s.sets l.metricId) l l' (sent k) sentk o) :
    Tracked py
      { s with links := s.links.set k l', handled := s.handled ++ (o.map Prod.snd).toList }
      (Function.update sent k sentk)
      (Function.update log l.metricId (log l.metricId ++ o.toList)) := by
  have hsound := hcase.sound
  have hplaced : ∀ p ∈ o, (s.sets l.metricId)[p.1]? = some p.2 ∧ p.2.Finite :=
    fun p hp => hsound.placed p (hcase.mem p hp)
  refine ⟨hi.own, fun {k' l''} hl' => ?_, fun m => ?_, fun m p hp => ?_⟩
  · by_cases hk : k' = k
    · subst hk
      have hlt := (List.getElem?_eq_some_iff.mp hl).1
      simp only [List.getElem?_set_self hlt, Option.some.injEq] at hl'
      subst hl'
      rw [Function.update_self, hmetric]
      exact hsound
    · simp only [List.getElem?_set_ne (Ne.symm hk)] at hl'
      rw [Function.update_of_ne hk]
      exact hi.links hl'
  · have hfilter : (o.map Prod.snd).toList.filter (fun x => x.metadata.metric_id = m) =
        if l.metricId = m then (o.map Prod.snd).toList else [] := by
      cases o with
      | none => simp
      | some p =>
        have hown := hi.own l.metricId p.2 (List.mem_of_getElem? (hplaced p rfl).1)
        simp [List.filter_cons, hown]
    rw [List.filter_append, hfilter]
    by_cases hm : m = l.metricId
    · subst hm
      rw [Function.update_self, List.map_append, hi.logged, if_pos rfl]
      congr 1
      cases o <;> rfl
    · rw [Function.update_of_ne hm, if_neg (Ne.symm hm), List.append_nil]
      exact hi.logged m
  · by_cases hm : m = l.metricId
    · subst hm
      rw [Function.update_self] at hp
      rcases List.mem_append.mp hp with hp | hp
      · exact hi.placed _ p hp
      · exact hplaced p (Option.mem_toList.mp hp)
    · rw [Function.update_of_ne hm] at hp
      exact hi.placed m p hp

theorem tracked_step (hi : Tracked py s sent log) {e : RelayEvent F}
    (h : StepCase py s sent log e t sent' log') : Tracked py t sent' log' := by
  cases h with
  | setSample x => exact tracked_setSample hi x
  | subscribe metric_id bps sockBufSize => exact tracked_subscribe hi metric_id bps sockBufSize
  | link k e hl hmetric _ hcase => exact tracked_link hi hl hmetric hcase

theorem tracked_steps (hF : FloatsRoundTrip F) {es : List (RelayEvent F)}
    (h : Steps v py start es s) : ∃ sent log, Tracked py s sent log := by
  refine h.invariant (I := fun s => ∃ sent log, Tracked py s sent log) ⟨_, _, tracked_start⟩ ?_
  rintro s e t ⟨sent, log, hi⟩ hst
  obtain ⟨sent', log', hcase⟩ := step_cases v hF hi hst
  exact ⟨sent', log', tracked_step hi hcase⟩

theorem Tracked.handled (hi : Tracked py s sent log) {x : Sample F} (hx : x ∈ s.handled) :
    x ∈ s.sets x.metadata.metric_id ∧ x.Finite := by
  have hmem : x ∈ (log x.metadata.metric_id).map Prod.snd := by
    rw [hi.logged]
    simp [hx]
  obtain ⟨p, hp, hpx⟩ := List.mem_map.mp hmem
  obtain ⟨hget, hfin⟩ := hi.placed _ p hp
  rw [hpx] at hget hfin
  exact ⟨List.mem_of_getElem? hget, hfin⟩

/-! ## The order -/

structure InOrder (s : Relay F) (sent : Nat → List (Nat × Sample F))
    (log : String → List (Nat × Sample F)) : Prop where
  one : ∀ {k k' : Nat} {l l' : Link F}, s.links[k]? = some l → s.links[k']? = some l' →
    l.done = false → l'.done = false → l.metricId = l'.metricId → k = k'
  sorted : ∀ m, (log m).Pairwise fun p q => p.1 ≤ q.1
  ahead : ∀ {k : Nat} {l : Link F}, s.links[k]? = some l → l.done = false →
    ∀ {i : Nat} {p : Nat × Sample F}, (sent k)[i]? = some p →
      (stream encodeMessage (messages ((sent k).drop i))).length ≤ l.down.length →
      ∀ q ∈ log l.metricId, q.1 ≤ p.1

theorem inOrder_start : InOrder (start : Relay F) (fun _ => []) fun _ => [] where
  one := by simp [start]
  sorted _ := .nil
  ahead := by simp [start]

theorem inOrder_subscribe (hi : InOrder s sent log) {metric_id : String} (bps : Int)
    (sockBufSize : Nat) (hone : ∀ l ∈ s.links, l.metricId = metric_id → l.done = true) :
    InOrder { s with links := s.links ++ [.start metric_id bps sockBufSize] }
      (Function.update sent s.links.length []) log := by
  refine ⟨fun {k k' l l'} hl hl' hd hd' hm => ?_, hi.sorted, fun {k l} hl hd {i p} hp hle => ?_⟩
  · rcases getElem?_snoc_cases hl with ⟨_, hl⟩ | ⟨rfl, rfl⟩
    · rcases getElem?_snoc_cases hl' with ⟨_, hl'⟩ | ⟨rfl, rfl⟩
      · exact hi.one hl hl' hd hd' hm
      · rw [hone l (List.mem_of_getElem? hl) hm] at hd
        cases hd
    · rcases getElem?_snoc_cases hl' with ⟨_, hl'⟩ | ⟨rfl, _⟩
      · rw [hone l' (List.mem_of_getElem? hl') hm.symm] at hd'
        cases hd'
      · rfl
  · rcases getElem?_snoc_cases hl with ⟨hk, hl⟩ | ⟨rfl, rfl⟩
    · rw [Function.update_of_ne hk.ne] at hp hle
      exact hi.ahead hl hd hp hle
    · rw [Function.update_self] at hp
      simp at hp

/-- Fewer bytes are those of later samples. -/
theorem stream_drop_le {sent : List (Nat × Sample F)} {i j : Nat} (hj : j ≤ sent.length)
    (h : (stream encodeMessage (messages (sent.drop i))).length ≤
      (stream encodeMessage (messages (sent.drop j))).length) : j ≤ i := by
  have hsplit (n : Nat) : (stream encodeMessage ((messages sent).take n)).length +
      (stream encodeMessage (messages (sent.drop n))).length =
        (stream encodeMessage (messages sent)).length := by
    rw [← messages_drop, ← List.length_append, ← stream_append, List.take_append_drop]
  have hi := hsplit i
  have hj' := hsplit j
  have hlen : j ≤ (messages sent).length := by rwa [messages, List.length_map]
  refine stream_take_le (frames_telemetry .subscribe Pydantic.strict).ne_nil hlen ?_
  omega

omit [Primitives F] in
theorem place_le {sent : List (Nat × Sample F)} (h : sent.Pairwise fun p q => p.1 ≤ q.1)
    {i j : Nat} {p q : Nat × Sample F} (hij : i < j) (hp : sent[i]? = some p)
    (hq : sent[j]? = some q) : p.1 ≤ q.1 := by
  obtain ⟨hi, rfl⟩ := List.getElem?_eq_some_iff.mp hp
  obtain ⟨hj, rfl⟩ := List.getElem?_eq_some_iff.mp hq
  exact List.pairwise_iff_getElem.mp h i j hi hj hij

omit [Primitives F] in
/-- A link after a step of link `k`. -/
theorem set_cases {links : List (Link F)} {k j : Nat} {l l' m : Link F} (hl : links[k]? = some l)
    (h : (links.set k l')[j]? = some m) : j = k ∧ m = l' ∨ j ≠ k ∧ links[j]? = some m := by
  by_cases hj : j = k
  · subst hj
    rw [List.getElem?_set_self (List.getElem?_eq_some_iff.mp hl).1] at h
    exact .inl ⟨rfl, (Option.some.inj h).symm⟩
  · rw [List.getElem?_set_ne (Ne.symm hj)] at h
    exact .inr ⟨hj, h⟩

section InOrderLink

variable {k : Nat} {l l' : Link F} {sentk : List (Nat × Sample F)} {o : Option (Nat × Sample F)}

/-- The samples that link `k` has not read yet come behind those handled. -/
theorem ahead_self (ht : Tracked py s sent log) (hi : InOrder s sent log)
    (hl : s.links[k]? = some l) (hdone : l.done = false)
    (hcase : LinkCase py (s.sets l.metricId) l l' (sent k) sentk o) {i : Nat}
    {p : Nat × Sample F} (hp : sentk[i]? = some p)
    (hle : (stream encodeMessage (messages (sentk.drop i))).length ≤ l'.down.length) :
    ∀ q ∈ log l.metricId ++ o.toList, q.1 ≤ p.1 := by
  intro q hq
  cases hcase with
  | quiet _ _ hdown =>
    rw [Option.toList_none, List.append_nil] at hq
    exact hi.ahead hl hdone hp (hle.trans hdown) q hq
  | sends x _ _ hdown =>
    rw [Option.toList_none, List.append_nil] at hq
    rcases getElem?_snoc_cases hp with ⟨hlt, hp⟩ | ⟨_, rfl⟩
    · refine hi.ahead hl hdone hp ?_ q hq
      rw [List.drop_append_of_le_length hlt.le, messages, List.map_append, stream_append,
        hdown] at hle
      simp only [List.map_cons, List.map_nil, stream_cons, stream_nil, List.append_nil,
        List.length_append, Nat.add_le_add_iff_right] at hle
      exact hle
    · -- the new one is the last of those set
      have hlt := (List.getElem?_eq_some_iff.mp (ht.placed _ q hq).1).1
      show q.1 ≤ (s.sets l.metricId).length - 1
      omega
  | handles j r hs hget _ hdown hdown' _ =>
    have hr : ∀ q ∈ log l.metricId, q.1 ≤ r.1 :=
      fun q hq => hi.ahead hl hdone hget (by rw [hdown]) q hq
    rw [hdown'] at hle
    have hj := stream_drop_le (List.getElem?_eq_some_iff.mp hget).1 hle
    have hrp : r.1 ≤ p.1 := place_le hs.ordered hj hget hp
    rcases List.mem_append.mp hq with hq | hq
    · exact (hr q hq).trans hrp
    · rw [← Option.some.inj (Option.mem_toList.mp hq)]
      exact hrp

theorem inOrder_link (ht : Tracked py s sent log) (hi : InOrder s sent log)
    (hl : s.links[k]? = some l) (hmetric : l'.metricId = l.metricId)
    (hdone : l.done = true → l'.done = true)
    (hcase : LinkCase py (s.sets l.metricId) l l' (sent k) sentk o) :
    InOrder { s with links := s.links.set k l', handled := s.handled ++ (o.map Prod.snd).toList }
      (Function.update sent k sentk)
      (Function.update log l.metricId (log l.metricId ++ o.toList)) := by
  have hlive : l'.done = false → l.done = false := by
    intro h
    cases hd : l.done with
    | false => rfl
    | true => rw [hdone hd] at h; cases h
  refine ⟨fun {a b x y} hx hy hdx hdy hxy => ?_, fun m => ?_, fun {a x} hx hdx {i p} hp hle => ?_⟩
  · rcases set_cases hl hx with ⟨rfl, rfl⟩ | ⟨_, hx₀⟩
    · rcases set_cases hl hy with ⟨rfl, _⟩ | ⟨_, hy₀⟩
      · rfl
      · exact hi.one hl hy₀ (hlive hdx) hdy (hmetric ▸ hxy)
    · rcases set_cases hl hy with ⟨rfl, rfl⟩ | ⟨_, hy₀⟩
      · exact hi.one hx₀ hl hdx (hlive hdy) (hxy.trans hmetric)
      · exact hi.one hx₀ hy₀ hdx hdy hxy
  · by_cases hm : m = l.metricId
    · subst hm
      rw [Function.update_self]
      refine List.pairwise_append.mpr ⟨hi.sorted _, ?_, fun q hq p hp => ?_⟩
      · cases o <;> simp
      · cases hcase with
        | handles i r _ hget hd hdown _ _ =>
          rw [← Option.some.inj (Option.mem_toList.mp hp)]
          exact hi.ahead hl hd hget (by rw [hdown]) q hq
        | quiet _ _ _ => cases hp
        | sends x _ _ _ => cases hp
    · rw [Function.update_of_ne hm]
      exact hi.sorted m
  · rcases set_cases hl hx with ⟨rfl, rfl⟩ | ⟨ha, hx₀⟩
    · rw [Function.update_self] at hp hle
      rw [hmetric, Function.update_self]
      exact ahead_self ht hi hl (hlive hdx) hcase hp hle
    · rw [Function.update_of_ne ha] at hp hle
      have hold := hi.ahead hx₀ hdx hp hle
      by_cases hm : x.metricId = l.metricId
      · -- another live subscription of the metric: this one has handled nothing
        rw [hm, Function.update_self]
        rw [hm] at hold
        cases hcase with
        | handles i r _ _ hd _ _ _ => exact absurd (hi.one hx₀ hl hdx hd hm) ha
        | quiet _ _ _ => simpa using hold
        | sends y _ _ _ => simpa using hold
      · rw [Function.update_of_ne hm]
        exact hold

end InOrderLink

theorem inOrder_step (ht : Tracked py s sent log) (hi : InOrder s sent log) {e : RelayEvent F}
    (hone : s.OneAtATime e) (h : StepCase py s sent log e t sent' log') :
    InOrder t sent' log' := by
  cases h with
  | setSample x => exact ⟨hi.one, hi.sorted, hi.ahead⟩
  | subscribe metric_id bps sockBufSize => exact inOrder_subscribe hi bps sockBufSize hone
  | link k e hl hmetric hdone hcase => exact inOrder_link ht hi hl hmetric hdone hcase

/-! ## One sample on its way -/

section OneSample

variable {metric_id : String} {bps : Int} {n : Nat} {R E : Bytes} {x : Sample F}
  {cache : String → Option Bytes}

/-- The link of a subscription after its request `R` has been written. -/
def requested (metric_id : String) (bps : Int) (n : Nat) (R : Bytes) (pc : SubscribePc) : Link F :=
  { (.start metric_id bps n : Link F) with ground := .requested R pc false, up := R }

/-- The request has been read, and the loop has written `down`. -/
def served (py : Pydantic) (metric_id : String) (bps : Int) (n : Nat) (R down : Bytes)
    (loop : DownlinkLoop F) : Link F :=
  { (.start metric_id bps n : Link F) with
    ground := .requested R .reading false
    board := onData py (Conn.start false) R
    task := some ⟨metric_id, bps, loop⟩
    down := down }

theorem ground_eq {l : Link F} {t : Subscriber F} {e : SubscribeEvent}
    (hread : ∀ b ∈ subscribeRead e, MayRead l.down b l.board.writerClosing)
    (hst : l.ground.step py l.metricId l.bps e = some t) :
    l.step v py cache (.ground e) = some { l with
      ground := t
      up := l.up ++ t.written.drop l.ground.written.length
      down := l.down.drop ((subscribeRead e).getD []).length } := by
  simp only [Link.step]
  rw [if_pos hread, hst]
  rfl

theorem board_eq {l : Link F} {c : Conn} {e : Event}
    (hread : (∀ b ∈ readResult e, MayRead l.up b l.ground.writerClosed) ∧ l.mayExit e = true)
    (hst : Onboard.step py l.board e = some c) :
    l.step v py cache (.board e) = some { l with
      board := c
      task := l.runCommand c
      up := l.up.drop ((readResult e).getD []).length } := by
  simp only [Link.step]
  rw [if_pos hread, hst]
  rfl

theorem link_connected (hR : Subscriber.step (F := F) py metric_id bps .start .connected =
      some (.requested R .draining false)) :
    (Link.start metric_id bps n).step v py cache (.ground .connected) =
      some (requested metric_id bps n R .draining) :=
  ground_eq v (by simp [subscribeRead]) hR

theorem link_drained : (requested (F := F) metric_id bps n R .draining).step v py cache
    (.ground .drained) = some (requested metric_id bps n R .reading) := by
  refine (ground_eq v (by simp [subscribeRead]) (Subscriber.step_drained rfl)).trans ?_
  simp [requested, subscribeRead, Subscriber.requested, Link.start]

theorem link_request (hR : decodeTelecommand py R = .telecommand (request metric_id bps))
    (hlen : R.length ≤ 4096) :
    (requested (F := F) metric_id bps n R .reading).step v py cache (.board (.data R)) =
      some (served py metric_id bps n R [] (.start 0 n)) := by
  have hne : R ≠ [] := (decodeTelecommand_eq.mp hR).1
  have hread : (∀ b ∈ readResult (.data R), MayRead R b false) ∧
      (requested (F := F) metric_id bps n R .reading).mayExit (.data R) = true := by
    refine ⟨?_, rfl⟩
    rintro b ⟨⟩
    rw [MayRead, if_neg hne]
    exact ⟨List.prefix_rfl, hlen⟩
  have hstep : Onboard.step py (Conn.start false) (.data R) =
      some (onData py (Conn.start false) R) := by
    rw [Onboard.step]
    exact if_pos rfl
  have hrun : (requested (F := F) metric_id bps n R .reading).runCommand
      (onData py (Conn.start false) R) = some ⟨metric_id, bps, .start 0 n⟩ := by
    rw [onData, hR]
    rfl
  refine (board_eq v hread hstep).trans ?_
  rw [hrun]
  simp [served, requested, readResult, Link.start]

theorem link_got (hR : decodeTelecommand py R = .telecommand (request metric_id bps))
    {text : Option Bytes} (hcache : cache metric_id = text)
    (hget : getSampleAsync py text = .ok x) :
    ∃ loop, (served py metric_id bps n R [] (.start 0 n)).step v py cache (.loop (.got text)) =
      some (served py metric_id bps n R (encodeMessage (.sample x)) loop) := by
  have hstep : (DownlinkLoop.start 0 n).step py (Sample.pyEq v) bps (.got text) =
      some ((DownlinkLoop.start 0 n).onSample py (Sample.pyEq v) x) := by
    simp only [DownlinkLoop.step, DownlinkLoop.start, hget]
  have hsends : ((DownlinkLoop.start 0 n).onSample py (Sample.pyEq v) x).sends =
      [⟨0, encodeMessage (.sample x)⟩] := by
    rw [DownlinkLoop.onSample_eq]
    simp [DownlinkLoop.start]
  have hruns : (served py metric_id bps n R [] (.start 0 n) : Link F).taskRuns = true := by
    show ((onData py (Conn.start false) R).tasks.head?).any _ = true
    rw [onData, hR]
    rfl
  have hread : ∀ sample_json ∈ loopRead (.got text), sample_json = cache metric_id := by
    rintro sample_json ⟨⟩
    exact hcache.symm
  refine ⟨(DownlinkLoop.start 0 n).onSample py (Sample.pyEq v) x, ?_⟩
  simp only [Link.step]
  show (if _ then Option.map _ ((DownlinkLoop.start 0 n).step py (Sample.pyEq v) bps (.got text))
    else none) = _
  rw [if_pos ⟨hruns, hread⟩, hstep, Option.map_some, hsends]
  simp [served, DownlinkLoop.start]

theorem link_data (hF : FloatsRoundTrip F) (hx : x.Readable)
    (hlen : (encodeMessage (.sample x)).length ≤ 4096) (loop : DownlinkLoop F) :
    ∃ l', (served py metric_id bps n R (encodeMessage (.sample x)) loop).step v py cache
      (.ground (.data (encodeMessage (.sample x)))) = some l' ∧
        l'.ground.handled = [.sample x] := by
  have hne := (frames_telemetry .subscribe py).ne_nil (.sample x)
  have hd := (onData_encodeMessage_iff hF .subscribe py (.sample x)).mpr ⟨rfl, hx⟩
  generalize encodeMessage (.sample x) = E at hne hd hlen
  have hread : ∀ b ∈ subscribeRead (.data E), MayRead E b
      (served py metric_id bps n R E loop).board.writerClosing := by
    rintro b ⟨⟩
    rw [MayRead, if_neg hne]
    exact ⟨List.prefix_rfl, hlen⟩
  have hhandled : (Subscriber.onData py (.requested R .reading false) E).handled = [.sample x] := by
    rw [Subscriber.onData, if_neg hne, hd]
    rfl
  exact ⟨_, ground_eq v hread (Subscriber.step_data rfl E), hhandled⟩

end OneSample

theorem step_only {l l' : Link F} {e : LinkEvent} (hl : s.links = [l])
    (h : l.step v py s.cache e = some l') :
    s.step v py (.link 0 e) = some ⟨s.sets, [l'],
      s.handled ++ samplesOf (l'.ground.handled.drop l.ground.handled.length)⟩ := by
  simp only [step, hl, List.getElem?_cons_zero]
  rw [h]
  rfl

/-- The events in which the one sample is set, asked for and sent. -/
def oneSample (x : Sample F) (bps : Int) (sockBufSize : Nat) (R : Bytes) : List (RelayEvent F) :=
  [.setSample x, .subscribe x.metadata.metric_id bps sockBufSize, .link 0 (.ground .connected),
    .link 0 (.ground .drained), .link 0 (.board (.data R)),
    .link 0 (.loop (.got (some (cacheText x))))]

/-- The event in which it is handled. -/
def handleOne (x : Sample F) : RelayEvent F := .link 0 (.ground (.data (encodeMessage (.sample x))))

theorem oneSample_steps (hF : FloatsRoundTrip F) {x : Sample F} (hx : x.Readable) {bps : Int}
    {n : Nat} {R : Bytes}
    (hconn : Subscriber.step (F := F) py x.metadata.metric_id bps .start .connected =
      some (.requested R .draining false))
    (hR : decodeTelecommand py R = .telecommand (request x.metadata.metric_id bps))
    (hlen : R.length ≤ 4096) (hE : (encodeMessage (.sample x)).length ≤ 4096) :
    ∃ s t, Trace.Run (Trace.Given OneAtATime (Trace.ofFn (step v py))) start (oneSample x bps n R)
        s ∧ s.handled = [] ∧ s.step v py (handleOne x) = some t ∧ t.handled = [x] := by
  have hset : (start : Relay F).step v py (.setSample x) =
      some ⟨Function.update (fun _ => []) x.metadata.metric_id [x], [], []⟩ := rfl
  generalize hsets : Function.update (fun _ => []) x.metadata.metric_id [x] = sets at hset
  have hcache (links : List (Link F)) : (⟨sets, links, []⟩ : Relay F).cache x.metadata.metric_id =
      some (cacheText x) := by
    show Option.map cacheText (sets _).getLast? = _
    rw [← hsets, Function.update_self]
    rfl
  have hget : getSampleAsync py (some (cacheText x)) = .ok x :=
    (getSampleAsync_encode hF).mpr ⟨rfl, hx⟩
  obtain ⟨loop, hgot⟩ := link_got (n := n) v hR (hcache [served py _ bps n R [] (.start 0 n)]) hget
  obtain ⟨l', hdata, hhandled⟩ : ∃ l', (served py x.metadata.metric_id bps n R
      (encodeMessage (.sample x)) loop).step v py (Relay.cache ⟨sets, [served py _ bps n R
        (encodeMessage (.sample x)) loop], []⟩) (.ground (.data (encodeMessage (.sample x)))) =
      some l' ∧ l'.ground.handled = [.sample x] := link_data v hF hx hE loop
  have h₁ : (⟨sets, [], []⟩ : Relay F).step v py (.subscribe x.metadata.metric_id bps n) =
      some ⟨sets, [.start x.metadata.metric_id bps n], []⟩ := rfl
  have h₂ : (⟨sets, [.start x.metadata.metric_id bps n], []⟩ : Relay F).step v py
      (.link 0 (.ground .connected)) =
        some ⟨sets, [requested x.metadata.metric_id bps n R .draining], []⟩ :=
    step_only v rfl (link_connected v hconn)
  have h₃ : (⟨sets, [requested x.metadata.metric_id bps n R .draining], []⟩ : Relay F).step v py
      (.link 0 (.ground .drained)) =
        some ⟨sets, [requested x.metadata.metric_id bps n R .reading], []⟩ :=
    step_only v rfl (link_drained v)
  have h₄ : (⟨sets, [requested x.metadata.metric_id bps n R .reading], []⟩ : Relay F).step v py
      (.link 0 (.board (.data R))) =
        some ⟨sets, [served py x.metadata.metric_id bps n R [] (.start 0 n)], []⟩ :=
    step_only v rfl (link_request v hR hlen)
  have h₅ : (⟨sets, [served py x.metadata.metric_id bps n R [] (.start 0 n)], []⟩ : Relay F).step v
      py (.link 0 (.loop (.got (some (cacheText x))))) =
        some ⟨sets, [served py x.metadata.metric_id bps n R (encodeMessage (.sample x)) loop], []⟩ :=
    step_only v rfl hgot
  have h₆ := step_only (s := ⟨sets, [served py x.metadata.metric_id bps n R
    (encodeMessage (.sample x)) loop], []⟩) v rfl hdata
  refine ⟨_, _, .cons ⟨trivial, hset⟩ (.cons ⟨by simp [OneAtATime], h₁⟩ (.cons ⟨trivial, h₂⟩
    (.cons ⟨trivial, h₃⟩ (.cons ⟨trivial, h₄⟩ (.single ⟨trivial, h₅⟩))))), rfl, h₆, ?_⟩
  show [] ++ samplesOf (l'.ground.handled.drop 0) = [x]
  rw [hhandled]
  rfl

/-- The request for one metric of 8 bits per second. -/
def tempRequest : Bytes := encodeTelecommand (request "temp" 8)

theorem tempRequest_length : tempRequest.length ≤ 4096 := by
  unfold tempRequest encodeTelecommand Telecommand.modelDumpJson Utf8.encode
  rw [String.toList_ofList]
  decide +kernel

theorem flagAt_length :
    (@encodeMessage Unit zeroFloat (.sample (flagAt 1))).length ≤ 4096 := by
  unfold encodeMessage Telemetry.modelDumpJson Utf8.encode
  rw [String.toList_ofList]
  decide +kernel

/-- A truth value on its way. -/
theorem flag_sent : ∃ s t, Trace.Run (Trace.Given OneAtATime
      (Trace.ofFn (@step Unit zeroFloat zeroValue Pydantic.strict))) start
      (@oneSample Unit zeroFloat (flagAt 1) 8 0 tempRequest) s ∧ s.handled = [] ∧
    @step Unit zeroFloat zeroValue Pydantic.strict s (@handleOne Unit zeroFloat (flagAt 1)) =
      some t ∧ t.handled = [flagAt 1] :=
  @oneSample_steps Unit zeroFloat zeroValue Pydantic.strict zeroFloat_roundTrip (flagAt 1)
    (flagAt_readable (by decide)) 8 0 tempRequest (@connected_step Unit zeroFloat Pydantic.strict "temp" 8)
    ((decodeTelecommand_encode_iff Pydantic.strict _).mpr ⟨rfl, Nat.le_of_ble_eq_true rfl⟩)
    tempRequest_length flagAt_length

theorem flag_steps : ∃ es s, Trace.Run (Trace.Given OneAtATime
    (Trace.ofFn (@step Unit zeroFloat zeroValue Pydantic.strict))) start es s ∧
      s.handled = [flagAt 1] := by
  obtain ⟨s, t, h, _, hst, hhandled⟩ := flag_sent
  have hone : OneAtATime s (@handleOne Unit zeroFloat (flagAt 1)) := trivial
  exact ⟨_, t, h.append (.single ⟨hone, hst⟩), hhandled⟩

/-! ## The results -/

/-- Whatever is cut, cancelled and interleaved: what is added on the ground was set on board under
its metric, with finite numbers; each loop on board serves the metric and the rate of its
subscription, and what the subscription hands on are messages it has written, in their order. -/
theorem relay_sound (hF : FloatsRoundTrip F) {es : List (RelayEvent F)}
    (h : Steps v py start es s) :
    (∀ x ∈ s.handled, x ∈ s.sets x.metadata.metric_id ∧ x.Finite) ∧
    ∀ l ∈ s.links, (∀ r ∈ l.task, r.metricId = l.metricId ∧ r.bps = l.bps) ∧
      List.Sublist (l.ground.handled.map encodeMessage) l.sends := by
  obtain ⟨sent, log, hi⟩ := tracked_steps v hF h
  refine ⟨fun x hx => hi.handled hx, fun l hl => ?_⟩
  obtain ⟨k, hk⟩ := List.mem_iff_getElem?.mp hl
  have hs := hi.links hk
  refine ⟨fun r hr => ⟨(hs.task r hr).1, (hs.task r hr).2.1⟩, ?_⟩
  have hsub := (handled_sent hF hs).map encodeMessage
  cases ht : l.task with
  | none =>
    rw [hs.idle ht] at hsub
    exact hsub.trans (List.nil_sublist _)
  | some r =>
    rw [Link.sends, ht]
    rw [← (hs.task r ht).2.2] at hsub
    exact hsub

/-- One truth value is set, asked for and added. -/
theorem flag_was_set : ∃ s : Relay Unit, s.handled = [flagAt 1] ∧
    (∀ x ∈ s.handled, x ∈ s.sets x.metadata.metric_id ∧ @Sample.Finite Unit zeroFloat x) ∧
    ∀ l ∈ s.links, (∀ r ∈ l.task, r.metricId = l.metricId ∧ r.bps = l.bps) ∧
      List.Sublist (l.ground.handled.map (@encodeMessage Unit zeroFloat)) l.sends := by
  obtain ⟨es, s, h, hhandled⟩ := flag_steps
  exact ⟨s, hhandled, @relay_sound Unit zeroFloat zeroValue Pydantic.strict s zeroFloat_roundTrip _
    (h.mono fun _ _ _ h => h.2)⟩

/-- With one subscription of a metric at a time, its samples are added on the ground in the order in
which they were set on board: each at a place among those set that is not before the last one's. -/
theorem relay_in_order (hF : FloatsRoundTrip F) {es : List (RelayEvent F)}
    (h : Trace.Run (Trace.Given OneAtATime (Trace.ofFn (step v py))) start es s) (m : String) :
    ∃ places : List Nat, places.Pairwise (· ≤ ·) ∧
      places.map ((s.sets m)[·]?) =
        (s.handled.filter fun x => x.metadata.metric_id = m).map some := by
  obtain ⟨sent, log, hi, ho⟩ : ∃ sent log, Tracked py s sent log ∧ InOrder s sent log := by
    refine h.invariant (I := fun s => ∃ sent log, Tracked py s sent log ∧ InOrder s sent log)
      ⟨_, _, tracked_start, inOrder_start⟩ ?_
    rintro s e t ⟨sent, log, hi, ho⟩ ⟨hone, hst⟩
    obtain ⟨sent', log', hcase⟩ := step_cases v hF hi hst
    exact ⟨sent', log', tracked_step hi hcase, inOrder_step hi ho hone hcase⟩
  refine ⟨(log m).map Prod.fst, List.pairwise_map.mpr (ho.sorted m), ?_⟩
  rw [← hi.logged m, List.map_map, List.map_map]
  exact List.map_congr_left fun p hp => (hi.placed m p hp).1

/-- One truth value is set, asked for by the only subscription and added. -/
theorem flag_in_order : ∃ s : Relay Unit, s.handled = [flagAt 1] ∧
    ∃ places : List Nat, places.Pairwise (· ≤ ·) ∧
      places.map ((s.sets "temp")[·]?) =
        (s.handled.filter fun x => x.metadata.metric_id = "temp").map some := by
  obtain ⟨es, s, h, hhandled⟩ := flag_steps
  exact ⟨s, hhandled, @relay_in_order Unit zeroFloat zeroValue Pydantic.strict s
    zeroFloat_roundTrip _ h "temp"⟩

/-- A viewer's request for a history, of which any of the samples added have been recorded, with a key
that needs no escape in a url: every point is that of a sample that was set on board under the metric
asked for, with a time between the bounds, and every such sample recorded has its point. -/
theorem points_were_set (hF : FloatsRoundTrip F) {n : Numbers ℚ} (hn : ExactNumbers v n)
    {es : List (RelayEvent F)} (h : Steps v py start es s) {recorded : List (Sample F)}
    (hrec : ∀ x ∈ recorded, x ∈ s.handled) {route : Route} {now : ℚ} {key : String}
    {options : RequestOptions} {points : List (TelemetryPoint ℚ)}
    (hplain : route.Plain key (wholeMilliseconds options.start)
      (wholeMilliseconds (orElse options.end_ now)))
    (hreq : Openmct.request (F := F) n py route (history v recorded) now key options = .ok points) :
    (∀ p ∈ points, options.start ≤ p.timestamp ∧ p.timestamp ≤ options.end_ ∧
      ∃ x ∈ s.sets key, toPoint n x = .ok p) ∧
    ∀ x ∈ recorded, x.metadata.metric_id = key →
      InRange v (wholeMilliseconds options.start)
        (wholeMilliseconds (orElse options.end_ now)) x →
      ∃ p ∈ points, toPoint n x = .ok p := by
  obtain ⟨sent, log, hi⟩ := tracked_steps v hF h
  obtain ⟨samples, _, hpoints, hmem, hread⟩ := request_samples hF hn hplain hreq
  obtain ⟨hto, hof⟩ := forall₂_mem hpoints
  constructor
  · intro p hp
    obtain ⟨x, hx, hxp⟩ := hof p hp
    obtain ⟨hxrec, hm, _⟩ := (hmem x).mp hx
    obtain ⟨time, htime, hstart, hend⟩ := (hread x hx).2
    rw [(toPoint_time hn hxp htime).1]
    have hset := (hi.handled (hrec x hxrec)).1
    rw [show x.metadata.metric_id = key from hm] at hset
    exact ⟨hstart, hend, x, hset, hxp⟩
  · intro x hx hm hr
    refine hto x ((hmem x).mpr ⟨hx, hm, ?_⟩)
    rwa [mul_div_cancel₀ _ (by norm_num), mul_div_cancel₀ _ (by norm_num)]

/-- The points that a request from 0 ms to 1500 ms returns after the truth value is recorded. -/
theorem flag_points : ∃ points,
    @Openmct.request Unit zeroFloat exactNumbers Pydantic.strict plainRoute
      (@history Unit zeroFloat zeroValue [flagAt 1]) 5000 "temp" ⟨0, 1500⟩ = .ok points := by
  have hend : orElse 1500 5000 = 1500 := by norm_num [orElse]
  have hs : wholeMilliseconds 0 = 0 := wholeMilliseconds_intCast 0
  have he : wholeMilliseconds 1500 = 1500 := wholeMilliseconds_intCast 1500
  have hends := @endpoint_ok Unit zeroFloat zeroValue zeroFloat_roundTrip Pydantic.strict
    [flagAt 1] ⟨"temp", (0 : ℤ) / 1000, (1500 : ℤ) / 1000⟩
  obtain ⟨samples, hsamples⟩ := hends.2 fun x hx _ => by
    rw [List.mem_singleton.mp hx]
    exact flagAt_readable (by decide)
  obtain ⟨_, _, hmem⟩ := hends.1 samples hsamples
  obtain ⟨points, hpoints⟩ := exists_forall₂ (l := samples) fun x _ =>
    (@toPoint_ok Unit zeroFloat exactNumbers x).imp fun _ h => h.1
  refine ⟨points, (@request_eq_ok Unit zeroFloat exactNumbers _ _ _ _ _ _ _).mpr
    ⟨by norm_num, ?_, ?_, ?_⟩⟩
  · rw [hend]
    norm_num
  · rw [hend, hs, he]
    exact (@reply_endpoint_eq_ok Unit zeroFloat exactNumbers _ _ _ _).mpr
      ⟨samples, hsamples, mapM_eq_ok.mpr hpoints⟩
  · intro p hp
    obtain ⟨x, hx, hxp⟩ := (forall₂_mem hpoints).2 p hp
    obtain ⟨_, _, q, hq, hlo, hhi⟩ := (hmem x).mp hx
    rw [(@toPoint_time Unit zeroFloat zeroValue exactNumbers exactNumbers_exact x p q hxp hq).1]
    norm_num at hlo hhi ⊢
    exact ⟨hlo, hhi⟩

/-- The truth value is asked for from 0 ms to 1500 ms. -/
theorem flag_point_was_set : ∃ (s : Relay Unit) (points : List (TelemetryPoint ℚ)),
    @Openmct.request Unit zeroFloat exactNumbers Pydantic.strict plainRoute
      (@history Unit zeroFloat zeroValue s.handled) 5000 "temp" ⟨0, 1500⟩ = .ok points ∧
    (∀ p ∈ points, 0 ≤ p.timestamp ∧ p.timestamp ≤ 1500 ∧
      ∃ x ∈ s.sets "temp", @toPoint Unit zeroFloat exactNumbers x = .ok p) ∧
    ∀ x ∈ s.handled, x.metadata.metric_id = "temp" →
      @InRange Unit zeroFloat zeroValue (wholeMilliseconds 0)
        (wholeMilliseconds (orElse 1500 5000)) x →
      ∃ p ∈ points, @toPoint Unit zeroFloat exactNumbers x = .ok p := by
  obtain ⟨es, s, h, hhandled⟩ := flag_steps
  have hreq := flag_points
  rw [← hhandled] at hreq
  obtain ⟨points, hreq⟩ := hreq
  exact ⟨s, points, hreq, @points_were_set Unit zeroFloat zeroValue Pydantic.strict s
    zeroFloat_roundTrip exactNumbers exactNumbers_exact _ (h.mono fun _ _ _ h => h.2) s.handled
    (fun _ hx => hx) plainRoute 5000 "temp" ⟨0, 1500⟩ points rfl hreq⟩

end Relay

end EndToEnd
end BvexLink
