import BvexLink.Ground.Subscribe
import BvexLink.Wire.Alignment

/-!
# BvexLink.Ground.Delivered

The downlink when TCP cuts it anywhere: which of the messages written on board `subscribe` passes to
`handle_sample`.

* `own_message`: a message is read back as itself or not at all.
* `reader_steps`: `subscribe` has handled what its reader delivers.
* `handles_sent`: a sample gets through if it is a read result of its own, and nothing that was not
  written is ever handled.
-/

namespace BvexLink
namespace Ground

open Wire Wire.Framing Wire.Json Codec Onboard

section Downlink

variable {F : Type} [Primitives F]

theorem aligned_telemetry (l : Loop) (py : Pydantic) :
    Aligned (encodeMessage (F := F)) (l.onData py) := by
  refine aligned_of_key (takesObjects_onData l py) ⟨'w', by decide, by decide⟩ ?_
  intro m x hx
  simp only [Telemetry.members, List.mem_cons, List.not_mem_nil, or_false] at hx
  rcases hx with rfl | rfl
  · rfl
  · exact message_lacksKey m

theorem modelValidateJson_own (hF : FloatsRoundTrip F) {py : Pydantic} {m : TMMessage F}
    {t : Telemetry F}
    (h : Telemetry.modelValidateJson py (⟨m.tag, m⟩ : Telemetry F).modelDumpJson = .ok t) :
    t.data = m := by
  have hw := Telemetry.modelValidateJson_dump_tag h
  have hd : field (⟨m.tag, m⟩ : Telemetry F).members "data" = some (.obj m.members) := rfl
  rw [Telemetry.modelValidateJson, Telemetry.modelDumpJson, modelValidateJson_print_eq_ok,
    Telemetry.validateMembers, Telemetry.validate_eq_ok, hw] at h
  obtain ⟨_, _, d, hdata, hv⟩ := h
  rw [requiredField_iff hd] at hdata
  cases hdata
  cases m with
  | metricIds ids =>
    simp only [Telemetry.isDataValid, TMMessage.members, TMMessage.tag,
      MetricIds.validateMembers_members] at hv
    exact (Except.ok.inj hv).symm
  | sample x =>
    simp only [Telemetry.isDataValid, TMMessage.members, TMMessage.tag, map_eq_ok,
      mapError_eq_ok] at hv
    obtain ⟨x', hx, hx'⟩ := hv
    rw [← hx', ((Sample.validateMembers_members_eq_ok hF).mp hx).1]

theorem own_message (hF : FloatsRoundTrip F) (l : Loop) (py : Pydantic)
    (msgs : List (TMMessage F)) :
    Own encodeMessage (l.onData py) msgs := by
  intro m _ m' h
  obtain ⟨_, _, s, t, hs, hv, rfl⟩ := Loop.onData_eq_deliver.mp h
  rw [encodeMessage, Utf8.decode_encode] at hs
  cases hs
  exact modelValidateJson_own hF hv

def SubscribePc.inTry : SubscribePc → Bool
  | .closing _ => false
  | .finished _ => false
  | _ => true

namespace Subscriber

/-- The read results of a run, without the empty ones. -/
def reads (es : List SubscribeEvent) : List Bytes :=
  es.filterMap fun
    | .data b => if b = [] then none else some b
    | _ => none

theorem reads_ne_nil (es : List SubscribeEvent) : ∀ r ∈ reads es, r ≠ [] := by
  intro r hr
  obtain ⟨e, _, he⟩ := List.mem_filterMap.mp hr
  cases e with
  | data b =>
    simp only at he
    split at he
    · cases he
    · rename_i hb
      cases he
      exact hb
  | _ => cases he

theorem reads_snoc_data {b : Bytes} (hb : b ≠ []) (es : List SubscribeEvent) :
    reads (es ++ [.data b]) = reads es ++ [b] := by
  simp [reads, hb]

theorem reads_snoc {e : SubscribeEvent} (he : ∀ b, e = .data b → b = [])
    (es : List SubscribeEvent) : reads (es ++ [e]) = reads es := by
  cases e with
  | data b => simp [reads, he b rfl]
  | _ => simp [reads]

/-- `subscribe` has handled what its reader delivers, and before its `finally` block the reader has
not failed. -/
structure Reader (py : Pydantic) (es : List SubscribeEvent) (s : Subscriber F) : Prop where
  handled : s.handled = (receive (Loop.subscribe.onData py) (reads es)).1
  inTry : s.pc.inTry = true → (receive (Loop.subscribe.onData (F := F) py) (reads es)).2 = none

variable {py : Pydantic} {metric_id : String} {bps : Int} {s t : Subscriber F}

theorem reader_data {es : List SubscribeEvent} (hr : Reader py es s) (hpc : s.pc = .reading)
    (b : Bytes) : Reader py (es ++ [.data b]) (s.onData py b) := by
  have hnone := hr.inTry (by rw [hpc]; rfl)
  by_cases hb : b = []
  · subst hb
    rw [onData, if_pos rfl]
    refine ⟨?_, fun _ => ?_⟩
    · rw [reads_snoc fun b hb => by cases hb; rfl]
      exact hr.handled
    · rw [reads_snoc fun b hb => by cases hb; rfl]
      exact hnone
  · have happ := @receive_append _ _ _ _ _ [b] hnone
    rw [← reads_snoc_data hb] at happ
    rw [onData, if_neg hb]
    cases hd : Loop.subscribe.onData (F := F) py b with
    | deliver m =>
      simp only [receive, hd] at happ
      refine ⟨?_, fun _ => by rw [happ]⟩
      rw [happ]
      exact congrArg (· ++ [m]) hr.handled
    | skip =>
      simp only [receive, hd, List.append_nil] at happ
      refine ⟨?_, fun _ => by rw [happ]⟩
      rw [happ]
      exact hr.handled
    | abort e =>
      simp only [receive, hd, List.append_nil] at happ
      refine ⟨?_, fun h => by cases h⟩
      rw [happ]
      exact hr.handled

theorem reader_congr {es : List SubscribeEvent} {e : SubscribeEvent} (hr : Reader py es s)
    (he : ∀ b, e ≠ .data b) (hh : t.handled = s.handled)
    (hpc : t.pc.inTry = true → s.pc.inTry = true) : Reader py (es ++ [e]) t := by
  have hreads := reads_snoc (fun b hb => absurd hb (he b)) es
  refine ⟨?_, fun h => ?_⟩
  · rw [hreads, hh]
    exact hr.handled
  · rw [hreads]
    exact hr.inTry (hpc h)

theorem reader_step {es : List SubscribeEvent} {e : SubscribeEvent} (hr : Reader py es s)
    (h : s.step py metric_id bps e = some t) : Reader py (es ++ [e]) t := by
  cases step_cases h with
  | connected hpc =>
    refine reader_congr hr (by simp) ?_ fun _ => by rw [hpc]; rfl
    rw [onConnected]
    split <;> rfl
  | drained hpc => exact reader_congr hr (by simp) rfl fun _ => by rw [hpc]; rfl
  | data hpc => exact reader_data hr hpc _
  | handled hpc => exact reader_congr hr (by simp) rfl fun _ => by rw [hpc]; rfl
  | wake hpc => exact reader_congr hr (by simp) rfl fun _ => by rw [hpc]; rfl
  | leave he =>
    refine reader_congr hr (by rcases he with rfl | rfl <;> simp) rfl fun h => ?_
    cases h
  | finish he =>
    refine reader_congr hr (by rcases he with rfl | rfl | rfl <;> simp) rfl fun h => ?_
    cases h

theorem reader_steps {es : List SubscribeEvent} (h : Steps py metric_id bps .start es s) :
    Reader py es s :=
  h.history (I := fun es s => Reader py es s) ⟨rfl, fun _ => rfl⟩
    fun _ _ _ _ hr hs => reader_step hr hs

theorem reads_before {es : List SubscribeEvent} (h : Steps py metric_id bps .start es s)
    {rs₁ rs₂ : List Bytes} {r : Bytes} (hr : reads es = rs₁ ++ r :: rs₂) :
    (receive (Loop.subscribe.onData (F := F) py) rs₁).2 = none := by
  obtain ⟨es₁, es₂, rfl, h₁, h₂⟩ := List.filterMap_eq_append_iff.mp hr
  obtain ⟨fs, e, gs, rfl, hfs, he, _⟩ := List.filterMap_eq_cons_iff.mp h₂
  rw [← List.append_assoc] at h
  obtain ⟨u, hu, hrest⟩ := h.of_append
  have hreads : reads (es₁ ++ fs) = rs₁ := by
    rw [reads, List.filterMap_append, h₁, List.filterMap_eq_nil_iff.mpr hfs, List.append_nil]
  cases hrest with
  | cons hst _ =>
    cases e with
    | data b =>
      cases step_cases hst with
      | data hpc =>
        have hnone := (reader_steps hu).inTry (by rw [hpc]; rfl)
        rwa [hreads] at hnone
      | leave hq => rcases hq with hq | hq <;> cases hq
      | finish hq => rcases hq with hq | hq | hq <;> cases hq
    | _ => cases he

/-- Message `i` of those written is a sample that can be read, and a read result of its own. -/
def ReadAlone (msgs : List (TMMessage F)) (es : List SubscribeEvent) (i : Nat) : Prop :=
  ∃ x rs₁ rs₂, msgs[i]? = some (.sample x) ∧ x.Readable ∧
    reads es = rs₁ ++ encodeMessage (.sample x) :: rs₂ ∧
    rs₁.flatten = stream encodeMessage (msgs.take i)

theorem through_iff (hF : FloatsRoundTrip F) {es : List SubscribeEvent}
    (h : Steps py metric_id bps .start es s) (msgs : List (TMMessage F)) (i : Nat) :
    Through encodeMessage (Loop.subscribe.onData py) msgs (reads es) i ↔
      ReadAlone msgs es i := by
  constructor
  · rintro ⟨m, rs₁, rs₂, hm, hd, hrs, hpos, _⟩
    obtain ⟨hl, hfin⟩ := (onData_encodeMessage_iff hF .subscribe py m).mp hd
    cases m with
    | sample x => exact ⟨x, rs₁, rs₂, hm, hfin, hrs, hpos⟩
    | metricIds ids => cases hl
  · rintro ⟨x, rs₁, rs₂, hm, hfin, hrs, hpos⟩
    exact ⟨.sample x, rs₁, rs₂, hm, (onData_encodeMessage_iff hF .subscribe py _).mpr ⟨rfl, hfin⟩,
      hrs, hpos, reads_before h hrs⟩

theorem handled_sublist (hF : FloatsRoundTrip F) {es : List SubscribeEvent}
    {msgs : List (TMMessage F)} (h : Steps py metric_id bps .start es s)
    (hcut : (reads es).flatten <+: stream encodeMessage msgs) : List.Sublist s.handled msgs := by
  rw [(reader_steps h).handled]
  exact delivered_sublist (aligned_telemetry .subscribe py) (own_message hF .subscribe py msgs)
    (reads_ne_nil es) hcut

/-- However the stream of the messages written is cut, `handle_sample` is called exactly for the
samples that are read results of their own and can be read, in their order, and each as it was
written. -/
theorem handles_sent (hF : FloatsRoundTrip F) {es : List SubscribeEvent}
    {msgs : List (TMMessage F)} (h : Steps py metric_id bps .start es s)
    (hcut : (reads es).flatten <+: stream encodeMessage msgs) :
    ∃ is : List Nat, is.Pairwise (· < ·) ∧ (∀ i, i ∈ is ↔ ReadAlone msgs es i) ∧
      s.handled = is.filterMap (msgs[·]?) := by
  obtain ⟨is, hsort, hmem, hrx⟩ := delivered (aligned_telemetry .subscribe py)
    (own_message hF .subscribe py msgs) (reads_ne_nil es) hcut
  exact ⟨is, hsort, fun i => (hmem i).trans (through_iff hF h msgs i),
    (reader_steps h).handled.trans hrx⟩

theorem step_drained (hpc : s.pc = .draining) :
    s.step py metric_id bps .drained = some { s with pc := .reading } := by
  simp [step, hpc]

theorem step_data (hpc : s.pc = .reading) (b : Bytes) :
    s.step py metric_id bps (.data b) = some (s.onData py b) := by
  simp [step, hpc]

theorem first_read {request : Bytes} (h : Subscriber.step (F := F) py metric_id bps .start
    .connected = some (.requested request .draining false)) (b : Bytes) :
    Steps (F := F) py metric_id bps .start [.connected, .drained, .data b]
      (onData py (.requested request .reading false) b) :=
  .cons h (.cons (step_drained rfl) (.single (step_data rfl b)))

end Subscriber

end Downlink

namespace Subscriber

/-- Of two samples the first has arrived, as a read result of its own. -/
theorem first_sample_handled :
    let msgs : List (TMMessage Bool) := [.sample (flagSample true), .sample (flagSample false)]
    let es := [SubscribeEvent.connected, .drained,
      .data (@encodeMessage Bool twoFloats (.sample (flagSample true)))]
    ∃ s, @Steps Bool twoFloats Pydantic.strict "temp" 8 .start es s ∧
      ∃ is : List Nat, is.Pairwise (· < ·) ∧
        (∀ i, i ∈ is ↔ @ReadAlone Bool twoFloats msgs es i) ∧
        s.handled = is.filterMap (msgs[·]?) := by
  have hrun := @first_read Bool twoFloats Pydantic.strict "temp" 8 _
    (@connected_step Bool twoFloats Pydantic.strict "temp" 8)
    (@encodeMessage Bool twoFloats (.sample (flagSample true)))
  have hne := (@frames_telemetry Bool twoFloats .subscribe Pydantic.strict).ne_nil
    (.sample (flagSample true))
  refine ⟨_, hrun, @handles_sent Bool twoFloats Pydantic.strict "temp" 8 _ twoFloats_roundTrip _ _
    hrun ?_⟩
  rw [show reads _ = [@encodeMessage Bool twoFloats (.sample (flagSample true))] by
    simp [reads, hne]]
  exact ⟨@encodeMessage Bool twoFloats (.sample (flagSample false)), by simp⟩

end Subscriber

end Ground
end BvexLink
