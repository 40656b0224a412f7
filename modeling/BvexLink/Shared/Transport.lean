import BvexLink.Shared.PayloadSize
import BvexLink.Shared.Sample
import BvexLink.Wire.JsonText

/-!
# BvexLink.Shared.Transport

Samples from one side to the other: cut into datagrams (`sample.py`), the datagrams put in payloads
(`encode_telemetry.py`), the bytes of the payloads decoded as they arrive (`decode_telemetry.py`)
and each sample put together again from the datagrams with its metric id and time.

* `receive_documents`: what the receiver holds, in the order in which the packets arrive.
* `transfer_delivers`: every sample is delivered if each of its segments arrives in some packet.
-/

namespace BvexLink
namespace Shared

open Wire Json ListSlice

/-! ## The two sides -/

def Sample.segments (s : Sample) (segment_size : Nat) : Nat :=
  s.sample_data.length ⌈/⌉ segment_size

def Packet (p : Session) (b : Bytes) : Prop := ∃ h, p.payload.toBytes dumps p.heap = some (h, b)

/-- `decode_telemetry` of one packet after the other. -/
def receive : Heap → List Bytes → Option (Heap × List SampleDatagram)
  | h, [] => some (h, [])
  | h, b :: bs => do
    let (h, ds) ← decodeTelemetry loads h b
    let (h, ds') ← receive h bs
    return (h, ds ++ ds')

def Sample.owns (s : Sample) (v : DataValue) : Bool :=
  v.metric_id == s.metric_id && v.sample_time == s.sample_time

def received (s : Sample) (h : Heap) (ds : List SampleDatagram) : List DataValue :=
  (ds.filterMap fun d => h.load d.data).filter s.owns

/-- The payloads `sent` have been filled with datagrams of the samples, whatever else was called. -/
structure Transfer (samples : List Sample) (segment_size : Sample → Nat) (max_size : Int)
    (sent : List Session) : Prop where
  positive : ∀ s ∈ samples, 1 ≤ segment_size s
  distinct : ∀ s ∈ samples, ∀ s' ∈ samples,
    s.metric_id = s'.metric_id → s.sample_time = s'.sample_time → s = s'
  built : ∀ p ∈ sent, ∃ h cs, Session.Steps dumps ⟨h, ⟨[], max_size⟩⟩ cs p
  made : ∀ p ∈ sent, ∀ d ∈ p.payload.samples, ∃ s ∈ samples,
    ∃ i : Nat, i < s.segments (segment_size s) ∧
      s.Made i (segment_size s) (s.segments (segment_size s)) p.heap d

/-- Every segment is in a packet that arrives. -/
def Arrives (samples : List Sample) (segment_size : Sample → Nat) (sent : List Session)
    (packets : List Bytes) : Prop :=
  ∀ s ∈ samples, ∀ i : Nat, i < s.segments (segment_size s) →
    ∃ p ∈ sent, (∃ b ∈ packets, Packet p b) ∧ ∃ d ∈ p.payload.samples,
      s.Made i (segment_size s) (s.segments (segment_size s)) p.heap d

/-! ## The receiver -/

theorem decodeTelemetry_document {xs : List (DataValue × Bytes)} (hx : ∀ x ∈ xs, x.1.Raw x.2)
    (h : Heap) : ∃ h' ds, decodeTelemetry loads h (Utf8.encode (dumps (document xs))) =
      some (h', ds) ∧ Extends h h' ∧ ds.map (fun d => h'.load d.data) = xs.map fun x => some x.1 := by
  obtain ⟨h', ds, hds, hrest⟩ := decodeItems_document hx h
  refine ⟨h', ds, ?_, hrest⟩
  rw [decodeTelemetry, loads_dumps]
  exact hds

theorem map_load_extends {h h' : Heap} (he : Extends h h') {ds : List SampleDatagram}
    {vs : List DataValue} (hds : ds.map (fun d => h.load d.data) = vs.map some) :
    ds.map (fun d => h'.load d.data) = vs.map some := by
  induction ds generalizing vs with
  | nil => simpa using hds
  | cons d ds ih =>
    cases vs with
    | nil => simp at hds
    | cons v vs =>
      simp only [List.map_cons, List.cons.injEq] at hds ⊢
      exact ⟨load_of_extends he hds.1, ih hds.2⟩

/-- The datagrams of the packets, packet by packet. -/
theorem receive_documents {xss : List (List (DataValue × Bytes))}
    (hraw : ∀ xs ∈ xss, ∀ x ∈ xs, x.1.Raw x.2) (h : Heap) :
    ∃ h' ds, receive h (xss.map fun xs => Utf8.encode (dumps (document xs))) = some (h', ds) ∧
      Extends h h' ∧ ds.filterMap (fun d => h'.load d.data) = xss.flatten.map (·.1) := by
  have hmap : ∃ h' ds, receive h (xss.map fun xs => Utf8.encode (dumps (document xs))) =
      some (h', ds) ∧ Extends h h' ∧
      ds.map (fun d => h'.load d.data) = (xss.flatten.map (·.1)).map some := by
    induction xss generalizing h with
    | nil => exact ⟨h, [], rfl, .refl h, rfl⟩
    | cons xs xss ih =>
      obtain ⟨h₁, ds, hds, he, hload⟩ :=
        decodeTelemetry_document (hraw xs (List.mem_cons_self ..)) h
      obtain ⟨h₂, ds', hds', he', hload'⟩ :=
        ih (fun ys hys => hraw ys (List.mem_cons_of_mem _ hys)) h₁
      refine ⟨h₂, ds ++ ds', by simp [receive, hds, hds'], he.trans he', ?_⟩
      have hfirst : ds.map (fun d => h₁.load d.data) = (xs.map (·.1)).map some := by
        rw [hload, List.map_map]
        rfl
      rw [List.map_append, map_load_extends he' hfirst, hload', List.flatten_cons, List.map_append,
        List.map_append]
  obtain ⟨h', ds, hds, he, hload⟩ := hmap
  refine ⟨h', ds, hds, he, ?_⟩
  have hid := congrArg (List.filterMap id) hload
  simpa [List.filterMap_map, Function.comp_def] using hid

theorem document_inj {xs ys : List (DataValue × Bytes)} (hxs : ∀ x ∈ xs, x.1.Raw x.2)
    (hys : ∀ y ∈ ys, y.1.Raw y.2) (h : document xs = document ys) :
    xs.map (·.1) = ys.map (·.1) := by
  obtain ⟨h₁, ds, hds, _, hload⟩ := decodeTelemetry_document hxs ⟨[], []⟩
  obtain ⟨h₂, ds', hds', _, hload'⟩ := decodeTelemetry_document hys ⟨[], []⟩
  rw [h, hds'] at hds
  cases hds
  have heq : (xs.map (·.1)).map some = (ys.map (·.1)).map some := by
    rw [List.map_map, List.map_map]
    exact hload.symm.trans hload'
  exact List.map_injective_iff.mpr (Option.some_injective _) heq

/-! ## The sender -/

section Sender

variable {samples : List Sample} {segment_size : Sample → Nat} {max_size : Int}
  {sent : List Session}

theorem Transfer.holds (ht : Transfer samples segment_size max_size sent) {p : Session}
    (hp : p ∈ sent) : ∃ xs, List.Forall₂ (Holds p.heap) p.payload.samples xs := by
  obtain ⟨h, cs, hr⟩ := ht.built p hp
  exact (built_steps hr).holds

theorem packet_iff {p : Session} {xs : List (DataValue × Bytes)} {b : Bytes}
    (hs : List.Forall₂ (Holds p.heap) p.payload.samples xs) :
    Packet p b ↔ b = Utf8.encode (dumps (document xs)) := by
  obtain ⟨h, hb⟩ := toBytes_eq dumps hs
  constructor
  · intro ⟨h', hb'⟩
    rw [hb] at hb'
    cases hb'
    rfl
  · rintro rfl
    exact ⟨h, hb⟩

theorem documents_of_packets (ht : Transfer samples segment_size max_size sent)
    {packets : List Bytes} (hfrom : ∀ b ∈ packets, ∃ p ∈ sent, Packet p b) :
    ∃ xss : List (List (DataValue × Bytes)),
      packets = (xss.map fun xs => Utf8.encode (dumps (document xs))) ∧
      ∀ xs ∈ xss, ∃ p ∈ sent, List.Forall₂ (Holds p.heap) p.payload.samples xs := by
  induction packets with
  | nil => exact ⟨[], rfl, by simp⟩
  | cons b bs ih =>
    obtain ⟨p, hp, hb⟩ := hfrom b (List.mem_cons_self ..)
    obtain ⟨xs, hs⟩ := ht.holds hp
    obtain ⟨xss, hbs, hxss⟩ := ih fun c hc => hfrom c (List.mem_cons_of_mem _ hc)
    refine ⟨xs :: xss, by rw [(packet_iff hs).mp hb, hbs, List.map_cons], ?_⟩
    exact List.forall_mem_cons.mpr ⟨⟨p, hp, hs⟩, hxss⟩

theorem mem_of_holds {h : Heap} {ds : List SampleDatagram} {xs : List (DataValue × Bytes)}
    (hs : List.Forall₂ (Holds h) ds xs) {v : DataValue} :
    v ∈ xs.map (·.1) ↔ ∃ d ∈ ds, h.load d.data = some v := by
  have hload : some v ∈ ds.map (fun d => h.load d.data) ↔ some v ∈ xs.map fun x => some x.1 := by
    rw [map_load_eq hs]
  simp only [List.mem_map, Option.some.injEq] at hload ⊢
  exact hload.symm

theorem owns_iff {s : Sample} {v : DataValue} :
    s.owns v = true ↔ v.metric_id = s.metric_id ∧ v.sample_time = s.sample_time := by
  simp [Sample.owns]

theorem arrived_of_sent (ht : Transfer samples segment_size max_size sent)
    {xss : List (List (DataValue × Bytes))}
    (hxss : ∀ xs ∈ xss, ∃ p ∈ sent, List.Forall₂ (Holds p.heap) p.payload.samples xs)
    {v : DataValue} (hv : v ∈ xss.flatten.map (·.1)) : ∃ s ∈ samples,
      ∃ i : Nat, i < s.segments (segment_size s) ∧
        v = s.segmentDataDict i (segment_size s) (s.segments (segment_size s)) := by
  obtain ⟨x, hx, rfl⟩ := List.mem_map.mp hv
  obtain ⟨xs, hxs, hx⟩ := List.mem_flatten.mp hx
  obtain ⟨p, hp, hholds⟩ := hxss xs hxs
  obtain ⟨d, hd, hdv⟩ := (mem_of_holds hholds).mp (List.mem_map_of_mem hx)
  obtain ⟨s, hs, i, hi, hmade⟩ := ht.made p hp d hd
  rw [Sample.load_made hmade] at hdv
  exact ⟨s, hs, i, hi, (Option.some.inj hdv).symm⟩

/-- What a sender puts in packets of at most `max_size` bytes is delivered, in whatever order and
however often they arrive, if each segment is in one of those that do. -/
theorem transfer_delivers (ht : Transfer samples segment_size max_size sent)
    {packets : List Bytes} (hfrom : ∀ b ∈ packets, ∃ p ∈ sent, Packet p b)
    (hall : Arrives samples segment_size sent packets) (h : Heap) :
    (∀ p ∈ sent, p.payload.samples ≠ [] → ∃ b, Packet p b ∧ (b.length : Int) ≤ max_size) ∧
    ∃ h' ds, receive h packets = some (h', ds) ∧ Extends h h' ∧
      ∀ s ∈ samples, reassemble (received s h' ds) = s.sample_data := by
  constructor
  · intro p hp hne
    obtain ⟨h₀, cs, hr⟩ := ht.built p hp
    obtain ⟨h', b, hb, hle⟩ := (built_steps hr).fits hne
    exact ⟨b, ⟨h', hb⟩, hle⟩
  obtain ⟨xss, rfl, hxss⟩ := documents_of_packets ht hfrom
  have hraw : ∀ xs ∈ xss, ∀ x ∈ xs, x.1.Raw x.2 := by
    intro xs hxs
    obtain ⟨p, _, hs⟩ := hxss xs hxs
    exact raw_of_holds hs
  obtain ⟨h', ds, hds, he, hload⟩ := receive_documents hraw h
  refine ⟨h', ds, hds, he, fun s hs => ?_⟩
  have hk := ht.positive s hs
  rw [received, hload]
  refine reassemble_eq (k := segment_size s) hk rfl ?_ ?_
  · -- a datagram with the metric id and the time of `s` is one of `s`
    intro v hv
    rw [List.mem_filter, owns_iff] at hv
    obtain ⟨s', hs', i, hi, rfl⟩ := arrived_of_sent ht hxss hv.1
    have heq : s' = s := ht.distinct s' hs' s hs hv.2.1 hv.2.2
    subst heq
    exact ⟨i, hi, rfl⟩
  · intro i hi
    obtain ⟨p, hp, ⟨b, hb, hpacket⟩, d, hd, hmade⟩ := hall s hs i hi
    obtain ⟨xs, hxs, rfl⟩ := List.mem_map.mp hb
    obtain ⟨ys, hys⟩ := ht.holds hp
    have hdoc : document xs = document ys :=
      dumps_inj (Utf8.encode_injective ((packet_iff hys).mp hpacket))
    have hvalues := document_inj (hraw xs hxs) (raw_of_holds hys) hdoc
    have hmem := (mem_of_holds hys).mpr ⟨d, hd, Sample.load_made hmade⟩
    rw [← hvalues] at hmem
    obtain ⟨x, hx, hxv⟩ := List.mem_map.mp hmem
    rw [List.mem_filter, owns_iff]
    exact ⟨List.mem_map.mpr ⟨x, List.mem_flatten.mpr ⟨xs, hxs, hx⟩, hxv⟩, rfl, rfl⟩

end Sender

theorem add_fits {h : Heap} {d : SampleDatagram} {x : DataValue × Bytes} {max_size : Int}
    (hx : Holds h d x) (hfit : ((dumps (x.1.document x.2)).length : Int) + 4 ≤ max_size) :
    ∃ t, Session.Steps dumps ⟨h, ⟨[], max_size⟩⟩ [.add d] t ∧ t.payload.samples = [d] ∧
      Extends h t.heap := by
  obtain ⟨h', he, hadd⟩ := add_new max_size hx
  rw [if_neg (by omega)] at hadd
  refine ⟨⟨h', ⟨[d], max_size⟩⟩, .single ?_, rfl, he⟩
  rw [Trace.ofFn, Session.step, call_add, hadd, if_neg (by simp)]
  exact congrArg some (Option.getD_some ..)

/-! ## An instance -/

def magSample : Sample := ⟨"mag", 9, [200, 7]⟩

def magValue (i : Nat) : DataValue := magSample.segmentDataDict i 1 2

theorem length_magValue : ∀ i < 2, ∀ b ∈ ([[200], [7]] : List Bytes),
    (dumps ((magValue i).document b)).length = 139 := by
  intro i hi b hb
  rw [dumps, String.length_ofList]
  revert b
  interval_cases i <;> decide +kernel

theorem mag_payload {i : Nat} (hi : i < 2) : ∃ p : Session,
    Session.Steps dumps ⟨(magSample.getDatagram i 1 2 ⟨[], []⟩).1, ⟨[], 143⟩⟩ [.add ⟨0⟩] p ∧
      p.payload.samples = [⟨0⟩] ∧ magSample.Made i 1 2 p.heap ⟨0⟩ := by
  obtain ⟨b, hb, hraw⟩ : ∃ b ∈ ([[200], [7]] : List Bytes), (magValue i).Raw b := by
    interval_cases i
    · exact ⟨[200], by simp, rfl⟩
    · exact ⟨[7], by simp, rfl⟩
  have hholds : Holds (magSample.getDatagram i 1 2 ⟨[], []⟩).1 ⟨0⟩ (magValue i, b) := ⟨rfl, hraw⟩
  have hfit : ((dumps ((magValue i).document b)).length : Int) + 4 ≤ 143 := by
    rw [length_magValue i hi b hb]
    decide
  obtain ⟨p, hr, hsamples, he⟩ := add_fits hholds hfit
  exact ⟨p, hr, hsamples, ⟨[], []⟩, rfl, he⟩

theorem mag_sent : ∃ p₀ p₁ b₀ b₁, Transfer [magSample] (fun _ => 1) 143 [p₀, p₁] ∧
    (Packet p₀ b₀ ∧ p₀.payload.samples = [⟨0⟩] ∧ magSample.Made 0 1 2 p₀.heap ⟨0⟩) ∧
    Packet p₁ b₁ ∧ p₁.payload.samples = [⟨0⟩] ∧ magSample.Made 1 1 2 p₁.heap ⟨0⟩ := by
  obtain ⟨p₀, hr₀, hs₀, hm₀⟩ := mag_payload (i := 0) (by decide)
  obtain ⟨p₁, hr₁, hs₁, hm₁⟩ := mag_payload (i := 1) (by decide)
  have ht : Transfer [magSample] (fun _ => 1) 143 [p₀, p₁] := by
    refine ⟨by simp, by simp, ?_, ?_⟩
    · simp only [List.forall_mem_cons, List.not_mem_nil, false_implies, implies_true, and_true]
      exact ⟨⟨_, _, hr₀⟩, _, _, hr₁⟩
    · simp only [List.forall_mem_cons, List.not_mem_nil, false_implies, implies_true, and_true,
        hs₀, hs₁]
      exact ⟨⟨_, List.mem_singleton_self _, 0, by decide, hm₀⟩, _, List.mem_singleton_self _, 1,
        by decide, hm₁⟩
  obtain ⟨xs₀, hx₀⟩ := ht.holds (p := p₀) (by simp)
  obtain ⟨xs₁, hx₁⟩ := ht.holds (p := p₁) (by simp)
  exact ⟨p₀, p₁, _, _, ht, ⟨(packet_iff hx₀).mpr rfl, hs₀, hm₀⟩, (packet_iff hx₁).mpr rfl, hs₁, hm₁⟩

/-- The packets arrive in the other order, and one of them again. -/
theorem mag_delivered : ∃ b₀ b₁ h ds, receive ⟨[], []⟩ [b₁, b₀, b₁] = some (h, ds) ∧
    reassemble (received magSample h ds) = [200, 7] := by
  obtain ⟨p₀, p₁, b₀, b₁, ht, ⟨hb₀, hs₀, hm₀⟩, hb₁, hs₁, hm₁⟩ := mag_sent
  have hfrom : ∀ b ∈ [b₁, b₀, b₁], ∃ p ∈ [p₀, p₁], Packet p b := by
    simp only [List.forall_mem_cons, List.not_mem_nil, false_implies, implies_true, and_true]
    exact ⟨⟨p₁, by simp, hb₁⟩, ⟨p₀, by simp, hb₀⟩, p₁, by simp, hb₁⟩
  have hall : Arrives [magSample] (fun _ => 1) [p₀, p₁] [b₁, b₀, b₁] := by
    intro s hs i hi
    rw [List.mem_singleton.mp hs] at hi ⊢
    have hi : i < 2 := hi
    interval_cases i
    · exact ⟨p₀, by simp, ⟨b₀, by simp, hb₀⟩, ⟨0⟩, by simp [hs₀], hm₀⟩
    · exact ⟨p₁, by simp, ⟨b₁, by simp, hb₁⟩, ⟨0⟩, by simp [hs₁], hm₁⟩
  obtain ⟨_, h, ds, hds, _, hwhole⟩ := transfer_delivers ht hfrom hall ⟨[], []⟩
  exact ⟨b₀, b₁, h, ds, hds, hwhole magSample (List.mem_singleton_self _)⟩

end Shared
end BvexLink
