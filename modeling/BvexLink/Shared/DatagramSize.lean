import BvexLink.Shared.Transport

/-!
# BvexLink.Shared.DatagramSize

`min_datagram_size` (`sample.py`) against the sizes of the datagrams that `get_datagram` makes and
what `add` takes.

* `length_encode`, `length_asciiStr_encode`: the size of the data in a datagram.
* `length_document_segment`: what else there is in a datagram.
* `min_datagram_size_exact`: the size of every datagram from the smallest, and when a payload takes
  one.
-/

namespace BvexLink
namespace Shared

open Wire Json ListSlice

/-! ## Data in a text -/

theorem length_encode (b : Bytes) : (Base64.encode b).length = 4 * ((b.length + 2) / 3) := by
  induction b using Base64.encode.induct with
  | case1 => rfl
  | case2 a => simp [Base64.encode]
  | case3 a b => simp [Base64.encode]
  | case4 a b c r ih =>
    simp only [Base64.encode, List.length_cons, ih]
    omega

/-- The characters of base 64 are printed as they are. -/
def Plain (c : Char) : Prop := asciiChar c = [c]

instance (c : Char) : Decidable (Plain c) := inferInstanceAs (Decidable (_ = _))

theorem plain_digit : ∀ n < 64, Plain (Base64.digit n) := by decide +kernel

theorem plain_pad : Plain '=' := by decide

theorem plain_encode (b : Bytes) : ∀ c ∈ Base64.encode b, Plain c := by
  induction b using Base64.encode.induct with
  | case1 => intro c hc; cases hc
  | case2 a =>
    have ha := a.toNat_lt
    simp only [Base64.encode, List.forall_mem_cons, List.not_mem_nil, false_implies, implies_true,
      and_true]
    exact ⟨plain_digit _ (by omega), plain_digit _ (by omega), plain_pad, plain_pad⟩
  | case3 a b =>
    have ha := a.toNat_lt
    have hb := b.toNat_lt
    simp only [Base64.encode, List.forall_mem_cons, List.not_mem_nil, false_implies, implies_true,
      and_true]
    exact ⟨plain_digit _ (by omega), plain_digit _ (by omega), plain_digit _ (by omega), plain_pad⟩
  | case4 a b c r ih =>
    have ha := a.toNat_lt
    have hb := b.toNat_lt
    have hc := c.toNat_lt
    simp only [Base64.encode, List.forall_mem_cons]
    exact ⟨plain_digit _ (by omega), plain_digit _ (by omega), plain_digit _ (by omega),
      plain_digit _ (by omega), ih⟩

theorem flatMap_plain {cs : List Char} (h : ∀ c ∈ cs, Plain c) : cs.flatMap asciiChar = cs := by
  induction cs with
  | nil => rfl
  | cons c cs ih =>
    have hc : asciiChar c = [c] := h c (List.mem_cons_self ..)
    rw [List.flatMap_cons, hc, ih fun d hd => h d (List.mem_cons_of_mem _ hd), List.singleton_append]

theorem length_asciiStr_encode (b : Bytes) :
    (asciiStr (String.ofList (Base64.encode b))).length = 4 * ((b.length + 2) / 3) + 2 := by
  rw [asciiStr, String.toList_ofList, flatMap_plain (plain_encode b), List.length_cons,
    List.length_append, length_encode, List.length_singleton]

/-! ## Sizes -/

/-- How many characters an integer takes. -/
def width (z : Int) : Nat := (printInt z).length

theorem width_pos (z : Int) : 1 ≤ width z := by
  have hne : printInt z ≠ [] := fun h => by
    have := intToken_printInt z
    rw [h] at this
    cases this
  exact List.length_pos_iff.mpr hne

namespace Sample

/-- The dictionaries of `min_datagram_size`. -/
def minDataDict (s : Sample) : DataValue where
  metric_id := s.metric_id
  sample_time := s.sample_time
  sample_data_segment := ⟨0, 1, 1, .bytes (Utf8.encode "0")⟩

def minDatagramSize (s : Sample) (h : Heap) : Option (Heap × Nat) :=
  let (h, data) := h.alloc s.minDataDict
  SampleDatagram.size dumps ⟨data⟩ h

end Sample

/-- Two datagrams of one sample differ in size by their numbers and their data alone. -/
theorem length_document_segment (s : Sample) (seq_num segment_size num_segments : Int) (b : Bytes) :
    (dumps ((s.segmentDataDict seq_num segment_size num_segments).document b)).length + 7 =
      (dumps (s.minDataDict.document (Utf8.encode "0"))).length +
        width seq_num + width segment_size + width num_segments + 4 * ((b.length + 2) / 3) := by
  have hzero : (printInt 0).length = 1 := rfl
  have hone : (printInt 1).length = 1 := rfl
  have hbyte : (Utf8.encode "0").length = 1 := rfl
  simp only [DataValue.document, Sample.segmentDataDict, Sample.minDataDict, dumps,
    String.length_ofList, dumpsValue, dumpsMembers, List.length_cons, List.length_append,
    List.length_nil, length_asciiStr_encode, hzero, hone, hbyte, width]
  omega

theorem size_alloc (h : Heap) {v : DataValue} {b : Bytes} (hv : v.Raw b) :
    ∃ h', SampleDatagram.size dumps ⟨(h.alloc v).2⟩ (h.alloc v).1 =
      some (h', (dumps (v.document b)).length) := by
  have hx : Holds (h.alloc v).1 ⟨(h.alloc v).2⟩ (v, b) := ⟨load_alloc h v, hv⟩
  obtain ⟨h', hsize, _⟩ := size_of_holds hx
  exact ⟨h', hsize⟩

/-- A new payload takes a datagram exactly if its limit allows four characters more. -/
theorem add_new_iff (s : Sample) (seq_num segment_size num_segments : Int) (h : Heap)
    (max_size : Int) :
    (∃ t, Session.add ⟨(s.getDatagram seq_num segment_size num_segments h).1, ⟨[], max_size⟩⟩
      (s.getDatagram seq_num segment_size num_segments h).2 = (.ok (), t)) ↔
    ((dumps ((s.segmentDataDict seq_num segment_size num_segments).document
      (s.getDataSegment seq_num segment_size))).length : Int) + 4 ≤ max_size := by
  have hx : Holds (s.getDatagram seq_num segment_size num_segments h).1
      (s.getDatagram seq_num segment_size num_segments h).2
      (s.segmentDataDict seq_num segment_size num_segments,
        s.getDataSegment seq_num segment_size) := ⟨load_alloc h _, rfl⟩
  obtain ⟨h', _, hadd⟩ := add_new max_size hx
  rw [hadd]
  dsimp only
  split
  · rename_i hfull
    refine iff_of_false (by simp) ?_
    omega
  · rename_i hfits
    refine iff_of_true ⟨_, rfl⟩ ?_
    omega

/-- The size of a datagram follows from the smallest size, its three numbers and its data; so no
datagram of the sample that carries data is smaller, the one byte datagram is as small, and a
payload that is still empty takes one with data exactly if its limit is at least four more. -/
theorem min_datagram_size_exact (s : Sample) (hdata : s.sample_data ≠ []) (h₀ : Heap) :
    ∃ h₁ m, s.minDatagramSize h₀ = some (h₁, m) ∧
      (∀ seq_num segment_size num_segments h, ∃ h₂ n,
        (s.getDatagram seq_num segment_size num_segments h).2.size dumps
          (s.getDatagram seq_num segment_size num_segments h).1 = some (h₂, n) ∧
        n + 7 = m + width seq_num + width segment_size + width num_segments +
          4 * (((s.getDataSegment seq_num segment_size).length + 2) / 3) ∧
        (s.getDataSegment seq_num segment_size ≠ [] → m ≤ n)) ∧
      (∀ h, ∃ h₂, (s.getDatagram 0 1 1 h).2.size dumps (s.getDatagram 0 1 1 h).1 =
        some (h₂, m)) ∧
      ∀ max_size : Int, (∃ seq_num segment_size num_segments h t,
        s.getDataSegment seq_num segment_size ≠ [] ∧
        Session.add ⟨(s.getDatagram seq_num segment_size num_segments h).1, ⟨[], max_size⟩⟩
          (s.getDatagram seq_num segment_size num_segments h).2 = (.ok (), t)) ↔
        (m : Int) + 4 ≤ max_size := by
  obtain ⟨h₁, hmin⟩ := size_alloc h₀ (v := s.minDataDict) (b := Utf8.encode "0") rfl
  have hlow : ∀ seq_num segment_size num_segments, s.getDataSegment seq_num segment_size ≠ [] →
      (dumps (s.minDataDict.document (Utf8.encode "0"))).length ≤
        (dumps ((s.segmentDataDict seq_num segment_size num_segments).document
          (s.getDataSegment seq_num segment_size))).length := by
    intro seq size num hne
    have hlen := length_document_segment s seq size num (s.getDataSegment seq size)
    have hpos := List.length_pos_iff.mpr hne
    have hseq := width_pos seq
    have hsize := width_pos size
    have hnum := width_pos num
    omega
  have hfirst : s.getDataSegment 0 1 ≠ [] ∧ (s.getDataSegment 0 1).length = 1 := by
    have hchunk : s.getDataSegment 0 1 = chunk s.sample_data 1 0 := s.getDataSegment_eq 1 0
    have hpos := List.length_pos_iff.mpr hdata
    have hlen : (chunk s.sample_data 1 0).length = 1 := by
      rw [length_chunk]
      omega
    rw [hchunk]
    exact ⟨fun h => absurd hlen (by simp [h]), hlen⟩
  have hreached : (dumps ((s.segmentDataDict 0 1 1).document (s.getDataSegment 0 1))).length =
      (dumps (s.minDataDict.document (Utf8.encode "0"))).length := by
    have hlen := length_document_segment s 0 1 1 (s.getDataSegment 0 1)
    have hzero : width 0 = 1 := rfl
    have hone : width 1 = 1 := rfl
    rw [hfirst.2, hzero, hone] at hlen
    omega
  refine ⟨h₁, _, hmin, fun seq size num h => ?_, fun h => ?_, fun max_size => ⟨?_, fun hle => ?_⟩⟩
  · obtain ⟨h₂, hsize⟩ := size_alloc h (v := s.segmentDataDict seq size num)
      (b := s.getDataSegment seq size) rfl
    exact ⟨h₂, _, hsize, length_document_segment s seq size num _, hlow seq size num⟩
  · obtain ⟨h₂, hsize⟩ := size_alloc h (v := s.segmentDataDict 0 1 1)
      (b := s.getDataSegment 0 1) rfl
    exact ⟨h₂, by rw [← hreached]; exact hsize⟩
  · rintro ⟨seq, size, num, h, t, hne, hadd⟩
    have hfits := (add_new_iff s seq size num h max_size).mp ⟨t, hadd⟩
    have hle := hlow seq size num hne
    omega
  · obtain ⟨t, hadd⟩ := (add_new_iff s 0 1 1 h₀ max_size).mpr (by rw [hreached]; exact hle)
    exact ⟨0, 1, 1, h₀, t, hfirst.1, hadd⟩

theorem mag_sizes : ∃ h₁ m, magSample.minDatagramSize ⟨[], []⟩ = some (h₁, m) ∧
    ∀ max_size : Int, (∃ seq_num segment_size num_segments h t,
      magSample.getDataSegment seq_num segment_size ≠ [] ∧
      Session.add ⟨(magSample.getDatagram seq_num segment_size num_segments h).1, ⟨[], max_size⟩⟩
        (magSample.getDatagram seq_num segment_size num_segments h).2 = (.ok (), t)) ↔
      (m : Int) + 4 ≤ max_size := by
  obtain ⟨h₁, m, hmin, _, _, hfits⟩ := min_datagram_size_exact magSample (by decide) ⟨[], []⟩
  exact ⟨h₁, m, hmin, hfits⟩

end Shared
end BvexLink
