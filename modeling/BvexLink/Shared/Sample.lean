import BvexLink.Shared.EncodeTelemetry
import BvexLink.Lists.Slice

/-!
# BvexLink.Shared.Sample

A sample and the datagrams it is sent in (`sample.py`).

* `getDataSegment_eq`: a segment is the slice of the data with its number.
* `reassemble_eq`: the data from any list of the datagrams that has each number.
* `segmentation_lossless`: nothing is lost, whatever the length of the data and of a segment.
-/

namespace BvexLink
namespace Shared

open Wire ListSlice

structure Sample where
  metric_id : String
  sample_time : Int
  sample_data : Bytes
  deriving DecidableEq

namespace Sample

def getId (s : Sample) : String := s.metric_id ++ toString s.sample_time

def getDataSegment (s : Sample) (seq_num segment_size : Int) : Bytes :=
  slice s.sample_data (seq_num * segment_size)
    (min s.sample_data.length ((seq_num + 1) * segment_size))

/-- What is in the two dictionaries of `get_datagram`. -/
def segmentDataDict (s : Sample) (seq_num segment_size num_segments : Int) : DataValue where
  metric_id := s.metric_id
  sample_time := s.sample_time
  sample_data_segment := ⟨seq_num, segment_size, num_segments,
    .bytes (s.getDataSegment seq_num segment_size)⟩

def getDatagram (s : Sample) (seq_num segment_size num_segments : Int) (h : Heap) :
    Heap × SampleDatagram :=
  let (h, data) := h.alloc (s.segmentDataDict seq_num segment_size num_segments)
  (h, ⟨data⟩)

/-- A datagram that a call of `get_datagram` returned, in a heap at that time or later. -/
def Made (s : Sample) (seq_num segment_size num_segments : Int) (h : Heap) (d : SampleDatagram) :
    Prop :=
  ∃ h₀, d = (s.getDatagram seq_num segment_size num_segments h₀).2 ∧
    Extends (s.getDatagram seq_num segment_size num_segments h₀).1 h

theorem load_made {s : Sample} {seq_num segment_size num_segments : Int} {h : Heap}
    {d : SampleDatagram} (hd : s.Made seq_num segment_size num_segments h d) :
    h.load d.data = some (s.segmentDataDict seq_num segment_size num_segments) := by
  obtain ⟨h₀, rfl, he⟩ := hd
  exact load_of_extends he (load_alloc h₀ _)

theorem getDataSegment_eq (s : Sample) (k i : Nat) :
    s.getDataSegment i k = chunk s.sample_data k i :=
  slice_chunk s.sample_data k i

end Sample

/-! ## Putting the data together -/

/-- The data in the first datagram with a number. -/
def segmentAt (vs : List DataValue) (i : Nat) : Bytes :=
  match vs.find? fun v => v.sample_data_segment.seq_num == (i : Int) with
  | some v =>
    match v.sample_data_segment.segment_data with
    | .bytes b => b
    | .str _ => []
  | none => []

/-- How many there are, as any of the datagrams says. -/
def numSegments : List DataValue → Nat
  | [] => 0
  | v :: _ => v.sample_data_segment.num_segments.toNat

/-- The data, from what the datagrams hold alone. -/
def reassemble (vs : List DataValue) : Bytes :=
  (List.range (numSegments vs)).flatMap (segmentAt vs)

section Reassemble

variable {s : Sample} {k n : Nat} {vs : List DataValue}

theorem segmentAt_eq {i : Nat} (hvs : ∀ v ∈ vs, ∃ j : Nat, v = s.segmentDataDict j k n)
    (hi : s.segmentDataDict i k n ∈ vs) : segmentAt vs i = chunk s.sample_data k i := by
  cases hf : vs.find? fun v => v.sample_data_segment.seq_num == (i : Int) with
  | none =>
    have hne := List.find?_eq_none.mp hf _ hi
    simp [Sample.segmentDataDict] at hne
  | some v =>
    obtain ⟨j, rfl⟩ := hvs v (List.mem_of_find?_eq_some hf)
    have hji : j = i := by simpa [Sample.segmentDataDict] using List.find?_some hf
    subst hji
    rw [segmentAt, hf]
    exact s.getDataSegment_eq k j

/-- Whatever the order and the repetitions, and whatever the sample is. -/
theorem reassemble_eq (hk : 0 < k) (hn : n = s.sample_data.length ⌈/⌉ k)
    (hvs : ∀ v ∈ vs, ∃ i : Nat, i < n ∧ v = s.segmentDataDict i k n)
    (hall : ∀ i : Nat, i < n → s.segmentDataDict i k n ∈ vs) : reassemble vs = s.sample_data := by
  have hcount : numSegments vs = n := by
    cases vs with
    | nil =>
      by_contra hne
      exact List.not_mem_nil (hall 0 (Nat.pos_of_ne_zero (Ne.symm hne)))
    | cons v vs =>
      obtain ⟨i, _, rfl⟩ := hvs v (List.mem_cons_self ..)
      simp [numSegments, Sample.segmentDataDict]
  have hseg : ∀ i ∈ List.range n, segmentAt vs i = chunk s.sample_data k i := by
    intro i hi
    exact segmentAt_eq (fun v hv => (hvs v hv).imp fun _ h => h.2) (hall i (List.mem_range.mp hi))
  rw [reassemble, hcount, List.flatMap_congr hseg, hn, flatMap_all_chunks _ hk]

end Reassemble

/-! ## The whole sample -/

/-- With `⌈length / segment_size⌉` segments: a datagram carries the segment with its number, the
segments in order make up the data, all but the last are full, the last is not empty, there is
nothing after it, and datagrams of every number, in any order and with repetitions, determine the
data. -/
theorem segmentation_lossless (s : Sample) {k : Nat} (hk : 1 ≤ k) :
    let n := s.sample_data.length ⌈/⌉ k
    (∀ (i : Nat) h d, s.Made i k n h d → ∃ v, h.load d.data = some v ∧
      v.metric_id = s.metric_id ∧ v.sample_time = s.sample_time ∧
      v.sample_data_segment.seq_num = i ∧ v.Raw (s.getDataSegment i k)) ∧
    (List.range n).flatMap (fun i : Nat => s.getDataSegment i k) = s.sample_data ∧
    (∀ i : Nat, i + 1 < n → (s.getDataSegment i k).length = k) ∧
    (∀ i : Nat, i + 1 = n →
      1 ≤ (s.getDataSegment i k).length ∧ (s.getDataSegment i k).length ≤ k) ∧
    (∀ i : Nat, n ≤ i → s.getDataSegment i k = []) ∧
    (∀ (h : Heap) (ds : List SampleDatagram), (∀ d ∈ ds, ∃ i : Nat, i < n ∧ s.Made i k n h d) →
      (∀ i : Nat, i < n → ∃ d ∈ ds, s.Made i k n h d) →
      reassemble (ds.filterMap fun d => h.load d.data) = s.sample_data) := by
  intro n
  simp only [s.getDataSegment_eq]
  refine ⟨?_, flatMap_all_chunks _ hk, fun i hi => length_chunk_of_lt hk hi,
    fun i hi => length_last_chunk hk hi, fun i hi => chunk_of_le hk hi, ?_⟩
  · intro i h d hd
    refine ⟨_, Sample.load_made hd, rfl, rfl, rfl, ?_⟩
    rw [← s.getDataSegment_eq]
    rfl
  · intro h ds hds hall
    refine reassemble_eq hk rfl ?_ ?_
    · intro v hv
      obtain ⟨d, hd, hload⟩ := List.mem_filterMap.mp hv
      obtain ⟨i, hi, hmade⟩ := hds d hd
      rw [Sample.load_made hmade] at hload
      exact ⟨i, hi, (Option.some.inj hload).symm⟩
    · intro i hi
      obtain ⟨d, hd, hmade⟩ := hall i hi
      exact List.mem_filterMap.mpr ⟨d, hd, Sample.load_made hmade⟩

def fiveBytes : Sample := ⟨"baro", 12, [10, 20, 30, 40, 50]⟩

theorem five_bytes_lossless :
    let d₂ := fiveBytes.getDatagram 2 2 3 ⟨[], []⟩
    let d₁ := fiveBytes.getDatagram 1 2 3 d₂.1
    let d₀ := fiveBytes.getDatagram 0 2 3 d₁.1
    (List.range 3).flatMap (fun i : Nat => fiveBytes.getDataSegment i 2) = [10, 20, 30, 40, 50] ∧
      reassemble ([d₂.2, d₁.2, d₀.2, d₁.2].filterMap fun d => d₀.1.load d.data) =
        [10, 20, 30, 40, 50] := by
  intro d₂ d₁ d₀
  have he₁ : Extends d₁.1 d₀.1 := extends_alloc d₁.1 _
  have he₂ : Extends d₂.1 d₀.1 := (extends_alloc d₂.1 _).trans he₁
  have hm₂ : fiveBytes.Made 2 2 3 d₀.1 d₂.2 := ⟨_, rfl, he₂⟩
  have hm₁ : fiveBytes.Made 1 2 3 d₀.1 d₁.2 := ⟨_, rfl, he₁⟩
  have hm₀ : fiveBytes.Made 0 2 3 d₀.1 d₀.2 := ⟨_, rfl, .refl _⟩
  obtain ⟨_, htile, _, _, _, hwhole⟩ := segmentation_lossless fiveBytes (k := 2) (by omega)
  refine ⟨htile, hwhole d₀.1 _ ?_ ?_⟩
  · simp only [List.forall_mem_cons, List.not_mem_nil, false_implies, implies_true, and_true]
    exact ⟨⟨2, by decide, hm₂⟩, ⟨1, by decide, hm₁⟩, ⟨0, by decide, hm₀⟩, 1, by decide, hm₁⟩
  · intro i hi
    have hcases : i = 0 ∨ i = 1 ∨ i = 2 := by
      have : i < 3 := hi
      omega
    rcases hcases with rfl | rfl | rfl
    · exact ⟨d₀.2, by simp, hm₀⟩
    · exact ⟨d₁.2, by simp, hm₁⟩
    · exact ⟨d₂.2, by simp, hm₂⟩

end Shared
end BvexLink
