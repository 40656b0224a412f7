import BvexLink.Wire.Base64
import BvexLink.Wire.JsonRoundTrip
import BvexLink.Trace.Run
import BvexLink.Lists.Update

/-!
# BvexLink.Shared.EncodeTelemetry

Segmented telemetry (`encode_telemetry.py`, `decode_telemetry.py`): datagrams that keep their data
in dictionaries, one nested in the other, and a payload of them. The dictionaries live in a heap,
so that an encoder that writes to one is seen by all who hold it.

* `Extends`: every call leaves the dictionaries there were as they were.
* `toBytes_eq`: the bytes are a function of what the datagrams hold.
* `segmented_round_trip`: the datagrams come back from the bytes, after any calls.
-/

namespace BvexLink
namespace Shared

open Wire Json

/-! ## Dictionaries -/

/-- `segment_data`: raw bytes, or the text that stands for them in JSON. -/
inductive SegmentData where
  | bytes (b : Bytes)
  | str (s : String)
  deriving DecidableEq

structure SegmentationParams where
  seq_num : Int
  segment_size : Int
  num_segments : Int
  segment_data : SegmentData
  deriving DecidableEq

/-- `sample_data_segment` is a reference. -/
structure SegmentedDataDict where
  metric_id : String
  sample_time : Int
  sample_data_segment : Nat
  deriving DecidableEq

/-- The dictionaries of the two types, by their references. -/
structure Heap where
  data : List SegmentedDataDict
  segments : List SegmentationParams

/-- What a `SegmentedDataDict` holds, with the dictionary nested in it. -/
structure DataValue where
  metric_id : String
  sample_time : Int
  sample_data_segment : SegmentationParams
  deriving DecidableEq

namespace Heap

/-- What the dictionary at a reference holds. -/
def load (h : Heap) (r : Nat) : Option DataValue := do
  let d ← h.data[r]?
  let seg ← h.segments[d.sample_data_segment]?
  return ⟨d.metric_id, d.sample_time, seg⟩

def alloc (h : Heap) (v : DataValue) : Heap × Nat :=
  (⟨h.data ++ [⟨v.metric_id, v.sample_time, h.segments.length⟩],
    h.segments ++ [v.sample_data_segment]⟩, h.data.length)

def deepcopy (h : Heap) (r : Nat) : Option (Heap × Nat) := (h.load r).map h.alloc

/-- `data['sample_data_segment']['segment_data'] = segment_data` -/
def assign (h : Heap) (r : Nat) (segment_data : SegmentData) : Option Heap := do
  let d ← h.data[r]?
  return { h with
    segments := h.segments.modify d.sample_data_segment fun seg =>
      { seg with segment_data := segment_data } }

end Heap

/-- The object that `json.dumps` makes of a dictionary; there is none for `bytes`. -/
def DataValue.toJson (v : DataValue) : Option Json :=
  match v.sample_data_segment.segment_data with
  | .bytes _ => none
  | .str s => some (.obj [("metric_id", .str v.metric_id), ("sample_time", .int v.sample_time),
      ("sample_data_segment", .obj [("seq_num", .int v.sample_data_segment.seq_num),
        ("segment_size", .int v.sample_data_segment.segment_size),
        ("num_segments", .int v.sample_data_segment.num_segments), ("segment_data", .str s)])])

/-! ## The encoder -/

/-- `data` is a reference. -/
structure SampleDatagram where
  data : Nat
  deriving DecidableEq

structure TelemetryPayload where
  samples : List SampleDatagram
  max_size : Int
  deriving DecidableEq

namespace SampleDatagram

def getId (s : SampleDatagram) (h : Heap) : Option String :=
  (h.load s.data).map fun v => v.metric_id ++ toString v.sample_time

/-- `json_dict`: the reference of the dictionary returned. `b64encode` takes `bytes`. -/
def jsonDict (s : SampleDatagram) (h : Heap) : Option (Heap × Nat) := do
  let (h, data_dict) ← h.deepcopy s.data
  let v ← h.load data_dict
  match v.sample_data_segment.segment_data with
  | .bytes b => do
    let h ← h.assign data_dict (.str (String.ofList (Base64.encode b)))
    return (h, data_dict)
  | .str _ => none

variable (dumps : Json → String)

def repr (s : SampleDatagram) (h : Heap) : Option (Heap × String) := do
  let (h, data_dict) ← s.jsonDict h
  let j ← (h.load data_dict).bind DataValue.toJson
  return (h, dumps j)

def size (s : SampleDatagram) (h : Heap) : Option (Heap × Nat) :=
  (s.repr dumps h).map fun x => (x.1, x.2.length)

end SampleDatagram

namespace TelemetryPayload

/-- `[sample.json_dict() for sample in samples]` -/
def jsonDicts : List SampleDatagram → Heap → Option (Heap × List Nat)
  | [], h => some (h, [])
  | s :: samples, h => do
    let (h, data_dict) ← s.jsonDict h
    let (h, data_dicts) ← jsonDicts samples h
    return (h, data_dict :: data_dicts)

variable (dumps : Json → String)

def toBytes (p : TelemetryPayload) (h : Heap) : Option (Heap × Bytes) := do
  let (h, data_dicts) ← jsonDicts p.samples h
  let js ← data_dicts.mapM fun r => (h.load r).bind DataValue.toJson
  return (h, Utf8.encode (dumps (.arr js)))

def size (p : TelemetryPayload) (h : Heap) : Option (Heap × Nat) :=
  (p.toBytes dumps h).map fun x => (x.1, x.2.length)

/-- `add`; the payload is as it was where a `BufferError` is raised. -/
def add (p : TelemetryPayload) (s : SampleDatagram) (h : Heap) :
    Option (Heap × TelemetryPayload) := do
  let (h, n) ← p.size dumps h
  let (h, m) ← s.size dumps h
  if (n + m + 2 : Int) > p.max_size then return (h, p)
  else return (h, { p with samples := p.samples ++ [s] })

end TelemetryPayload

/-! ## Calls -/

structure Session where
  heap : Heap
  payload : TelemetryPayload

inductive Call where
  | getId (s : SampleDatagram)
  | jsonDict (s : SampleDatagram)
  | repr (s : SampleDatagram)
  | sampleSize (s : SampleDatagram)
  | toBytes
  | size
  | add (s : SampleDatagram)

namespace Session

/-- What a call leaves; `none` where it raises for a dictionary it does not find or cannot
encode. -/
def call (dumps : Json → String) (s : Session) : Call → Option Session
  | .getId d => (d.getId s.heap).map fun _ => s
  | .jsonDict d => (d.jsonDict s.heap).map fun x => { s with heap := x.1 }
  | .repr d => (d.repr dumps s.heap).map fun x => { s with heap := x.1 }
  | .sampleSize d => (d.size dumps s.heap).map fun x => { s with heap := x.1 }
  | .toBytes => (s.payload.toBytes dumps s.heap).map fun x => { s with heap := x.1 }
  | .size => (s.payload.size dumps s.heap).map fun x => { s with heap := x.1 }
  | .add d => (s.payload.add dumps d s.heap).map fun x => ⟨x.1, x.2⟩

/-- A call that raises leaves no new dictionary to anyone. -/
def step (dumps : Json → String) (s : Session) (c : Call) : Option Session :=
  some ((s.call dumps c).getD s)

abbrev Steps (dumps : Json → String) : Session → List Call → Session → Prop :=
  Trace.Run (Trace.ofFn (step dumps))

end Session

/-! ## The decoder -/

def intMember (k : String) (ms : List (String × Json)) : Option Int :=
  match field ms k with
  | some (.int z) => some z
  | _ => none

def strMember (k : String) (ms : List (String × Json)) : Option String :=
  match field ms k with
  | some (.str s) => some s
  | _ => none

def objMember (k : String) (ms : List (String × Json)) : Option (List (String × Json)) :=
  match field ms k with
  | some (.obj ms) => some ms
  | _ => none

/-- `base64.b64decode` of a `str`: only ASCII is taken. -/
def b64decode (s : String) : Option Bytes :=
  if s.toList.all (·.toNat < 128) then Base64.decode s.toList else none

/-- An item of what was loaded, if it is a dictionary of the declared type. -/
def DataValue.ofJson : Json → Option DataValue
  | .obj ms => do
    let metric_id ← strMember "metric_id" ms
    let sample_time ← intMember "sample_time" ms
    let seg ← objMember "sample_data_segment" ms
    let seq_num ← intMember "seq_num" seg
    let segment_size ← intMember "segment_size" seg
    let num_segments ← intMember "num_segments" seg
    let segment_data ← strMember "segment_data" seg
    return ⟨metric_id, sample_time, ⟨seq_num, segment_size, num_segments, .str segment_data⟩⟩
  | _ => none

/-- One pass of the loop: the nested dictionary gets the bytes. -/
def decodeItem (h : Heap) (j : Json) : Option (Heap × SampleDatagram) := do
  let v ← DataValue.ofJson j
  let (h, sample) := h.alloc v
  match v.sample_data_segment.segment_data with
  | .str s => do
    let b ← b64decode s
    let h ← h.assign sample (.bytes b)
    return (h, ⟨sample⟩)
  | .bytes _ => none

def decodeItems : Heap → List Json → Option (Heap × List SampleDatagram)
  | h, [] => some (h, [])
  | h, j :: js => do
    let (h, sample) ← decodeItem h j
    let (h, sample_datagrams) ← decodeItems h js
    return (h, sample :: sample_datagrams)

mutual
/-- What `json.loads` undoes `json.dumps` for: no floats, and dictionaries with distinct keys. -/
def Jsonable : Json → Prop
  | .float _ | .constant _ => False
  | .arr js => JsonableItems js
  | .obj ms => (ms.map (·.1)).Nodup ∧ JsonableMembers ms
  | _ => True
def JsonableItems : List Json → Prop
  | [] => True
  | j :: js => Jsonable j ∧ JsonableItems js
def JsonableMembers : List (String × Json) → Prop
  | [] => True
  | (_, j) :: ms => Jsonable j ∧ JsonableMembers ms
end

/-- `decode_telemetry`, into the same heap. -/
def decodeTelemetry (loads : Bytes → Option Json) (h : Heap) (payload : Bytes) :
    Option (Heap × List SampleDatagram) :=
  match loads payload with
  | some (.arr js) => decodeItems h js
  | _ => none

/-! ## The dictionaries there were -/

/-- The dictionaries of the first heap are in the second, as they were. -/
structure Extends (h h' : Heap) : Prop where
  data : h.data <+: h'.data
  segments : h.segments <+: h'.segments

theorem Extends.refl (h : Heap) : Extends h h := ⟨List.prefix_rfl, List.prefix_rfl⟩

theorem Extends.trans {h h' h'' : Heap} (x : Extends h h') (y : Extends h' h'') : Extends h h'' :=
  ⟨x.data.trans y.data, x.segments.trans y.segments⟩

theorem getElem?_of_prefix {α : Type} {l l' : List α} (h : l <+: l') {i : Nat} {a : α}
    (ha : l[i]? = some a) : l'[i]? = some a := by
  obtain ⟨r, rfl⟩ := h
  rw [List.getElem?_append_left (List.getElem?_eq_some_iff.mp ha).1, ha]

theorem load_eq_some {h : Heap} {r : Nat} {v : DataValue} :
    h.load r = some v ↔ ∃ d, h.data[r]? = some d ∧
      h.segments[d.sample_data_segment]? = some v.sample_data_segment ∧
      d.metric_id = v.metric_id ∧ d.sample_time = v.sample_time := by
  simp only [Heap.load, Option.bind_eq_bind, Option.bind_eq_some_iff, Option.pure_def,
    Option.some.injEq]
  constructor
  · rintro ⟨d, hd, seg, hseg, rfl⟩
    exact ⟨d, hd, hseg, rfl, rfl⟩
  · rintro ⟨d, hd, hseg, hid, htime⟩
    exact ⟨d, hd, _, hseg, by rw [hid, htime]⟩

theorem load_of_extends {h h' : Heap} (x : Extends h h') {r : Nat} {v : DataValue}
    (hv : h.load r = some v) : h'.load r = some v := by
  obtain ⟨d, hd, hseg, hrest⟩ := load_eq_some.mp hv
  exact load_eq_some.mpr
    ⟨d, getElem?_of_prefix x.data hd, getElem?_of_prefix x.segments hseg, hrest⟩

theorem extends_alloc (h : Heap) (v : DataValue) : Extends h (h.alloc v).1 :=
  ⟨List.prefix_append .., List.prefix_append ..⟩

@[simp] theorem load_alloc (h : Heap) (v : DataValue) : (h.alloc v).1.load (h.alloc v).2 = some v :=
  load_eq_some.mpr ⟨⟨v.metric_id, v.sample_time, h.segments.length⟩, by simp [Heap.alloc],
    by simp [Heap.alloc], rfl, rfl⟩

def DataValue.withData (v : DataValue) (segment_data : SegmentData) : DataValue :=
  { v with sample_data_segment := { v.sample_data_segment with segment_data := segment_data } }

theorem assign_alloc (h : Heap) (v : DataValue) (sd : SegmentData) :
    (h.alloc v).1.assign (h.alloc v).2 sd = some (h.alloc (v.withData sd)).1 := by
  simp [Heap.assign, Heap.alloc, DataValue.withData, ListUpdate.modify_concat]

/-! ## What is encoded -/

/-- The segment is raw bytes. -/
def DataValue.Raw (v : DataValue) (b : Bytes) : Prop :=
  v.sample_data_segment.segment_data = .bytes b

def DataValue.encoded (v : DataValue) (b : Bytes) : DataValue :=
  v.withData (.str (String.ofList (Base64.encode b)))

theorem jsonDict_eq_some {s : SampleDatagram} {h : Heap} {x : Heap × Nat} :
    s.jsonDict h = some x ↔
      ∃ v b, h.load s.data = some v ∧ v.Raw b ∧ x = h.alloc (v.encoded b) := by
  cases hv : h.load s.data with
  | none => simp [SampleDatagram.jsonDict, Heap.deepcopy, hv]
  | some v =>
    cases hs : v.sample_data_segment.segment_data with
    | str t => simp [SampleDatagram.jsonDict, Heap.deepcopy, hv, hs, DataValue.Raw]
    | bytes b =>
      simp only [SampleDatagram.jsonDict, Heap.deepcopy, hv, Option.map_some, Option.bind_eq_bind,
        Option.bind_some, load_alloc, hs, assign_alloc, Option.pure_def, Option.some.injEq,
        DataValue.Raw]
      constructor
      · rintro rfl
        exact ⟨v, b, rfl, hs, rfl⟩
      · rintro ⟨_, b', rfl, hr, rfl⟩
        rw [hs] at hr
        cases hr
        rfl

theorem extends_jsonDict {s : SampleDatagram} {h : Heap} {x : Heap × Nat}
    (hx : s.jsonDict h = some x) : Extends h x.1 := by
  obtain ⟨v, b, _, _, rfl⟩ := jsonDict_eq_some.mp hx
  exact extends_alloc h _

/-- The document of a dictionary with raw bytes. -/
def DataValue.document (v : DataValue) (b : Bytes) : Json :=
  .obj [("metric_id", .str v.metric_id), ("sample_time", .int v.sample_time),
    ("sample_data_segment", .obj [("seq_num", .int v.sample_data_segment.seq_num),
      ("segment_size", .int v.sample_data_segment.segment_size),
      ("num_segments", .int v.sample_data_segment.num_segments),
      ("segment_data", .str (String.ofList (Base64.encode b)))])]

theorem toJson_encoded (v : DataValue) (b : Bytes) :
    (v.encoded b).toJson = some (v.document b) := rfl

/-- The datagram holds these values and raw bytes. -/
def Holds (h : Heap) (s : SampleDatagram) (x : DataValue × Bytes) : Prop :=
  h.load s.data = some x.1 ∧ x.1.Raw x.2

theorem holds_of_extends {h h' : Heap} (e : Extends h h') {samples : List SampleDatagram}
    {xs : List (DataValue × Bytes)} (hs : List.Forall₂ (Holds h) samples xs) :
    List.Forall₂ (Holds h') samples xs :=
  hs.imp fun _ _ hx => ⟨load_of_extends e hx.1, hx.2⟩

theorem raw_of_holds {h : Heap} {samples : List SampleDatagram} {xs : List (DataValue × Bytes)}
    (hs : List.Forall₂ (Holds h) samples xs) : ∀ x ∈ xs, x.1.Raw x.2 := by
  induction hs with
  | nil => intro x hx; cases hx
  | cons hx _ ih => exact List.forall_mem_cons.mpr ⟨hx.2, ih⟩

theorem map_load_eq {h : Heap} {samples : List SampleDatagram} {xs : List (DataValue × Bytes)}
    (hs : List.Forall₂ (Holds h) samples xs) :
    samples.map (fun d => h.load d.data) = xs.map fun x => some x.1 := by
  induction hs with
  | nil => rfl
  | cons hx _ ih => rw [List.map_cons, List.map_cons, hx.1, ih]

open TelemetryPayload in
theorem jsonDicts_eq {samples : List SampleDatagram} {xs : List (DataValue × Bytes)} {h : Heap}
    (hs : List.Forall₂ (Holds h) samples xs) :
    ∃ h' rs, jsonDicts samples h = some (h', rs) ∧ Extends h h' ∧
      List.Forall₂ (fun r x => h'.load r = some (x.1.encoded x.2)) rs xs := by
  induction samples generalizing h xs with
  | nil =>
    cases hs
    exact ⟨h, [], rfl, .refl h, .nil⟩
  | cons s samples ih =>
    cases hs with
    | @cons _ x _ xs hx hs =>
      have hd : s.jsonDict h = some (h.alloc (x.1.encoded x.2)) :=
        jsonDict_eq_some.mpr ⟨x.1, x.2, hx.1, hx.2, rfl⟩
      have he := extends_alloc h (x.1.encoded x.2)
      obtain ⟨h', rs, hr, he', hload⟩ := ih (holds_of_extends he hs)
      refine ⟨h', (h.alloc (x.1.encoded x.2)).2 :: rs, ?_, he.trans he', .cons ?_ hload⟩
      · simp [jsonDicts, hd, hr]
      · exact load_of_extends he' (load_alloc ..)

open TelemetryPayload in
theorem extends_jsonDicts {samples : List SampleDatagram} {h : Heap} {x : Heap × List Nat}
    (hx : jsonDicts samples h = some x) : Extends h x.1 := by
  induction samples generalizing h x with
  | nil =>
    cases hx
    exact .refl h
  | cons s samples ih =>
    simp only [jsonDicts, Option.bind_eq_bind, Option.bind_eq_some_iff, Option.pure_def,
      Option.some.injEq] at hx
    obtain ⟨y, hy, z, hz, rfl⟩ := hx
    have he := ih hz
    exact (extends_jsonDict hy).trans he

section Calls

variable {dumps : Json → String} {h : Heap}

/-- The document of a payload. -/
def document (xs : List (DataValue × Bytes)) : Json := .arr (xs.map fun x => x.1.document x.2)

theorem toBytes_eq (dumps : Json → String) {p : TelemetryPayload} {xs : List (DataValue × Bytes)}
    (hs : List.Forall₂ (Holds h) p.samples xs) :
    ∃ h', p.toBytes dumps h = some (h', Utf8.encode (dumps (document xs))) := by
  obtain ⟨h', rs, hr, _, hload⟩ := jsonDicts_eq hs
  have hjs : rs.mapM (fun r => (h'.load r).bind DataValue.toJson) =
      some (xs.map fun x => x.1.document x.2) := by
    clear hr hs
    induction hload with
    | nil => rfl
    | cons hx _ ih => simp [hx, toJson_encoded, ih]
  exact ⟨h', by simp [TelemetryPayload.toBytes, hr, hjs, document]⟩

theorem extends_toBytes {p : TelemetryPayload} {x : Heap × Bytes}
    (hx : p.toBytes dumps h = some x) : Extends h x.1 := by
  simp only [TelemetryPayload.toBytes, Option.bind_eq_bind, Option.bind_eq_some_iff, Option.pure_def,
    Option.some.injEq] at hx
  obtain ⟨y, hy, js, _, rfl⟩ := hx
  exact extends_jsonDicts hy

theorem extends_repr {s : SampleDatagram} {x : Heap × String} (hx : s.repr dumps h = some x) :
    Extends h x.1 := by
  simp only [SampleDatagram.repr, Option.bind_eq_bind, Option.bind_eq_some_iff, Option.pure_def,
    Option.some.injEq] at hx
  obtain ⟨y, hy, j, _, rfl⟩ := hx
  exact extends_jsonDict hy

theorem extends_add {p : TelemetryPayload} {s : SampleDatagram} {x : Heap × TelemetryPayload}
    (hx : p.add dumps s h = some x) : Extends h x.1 := by
  simp only [TelemetryPayload.add, TelemetryPayload.size, SampleDatagram.size, Option.bind_eq_bind,
    Option.bind_eq_some_iff, Option.map_eq_some_iff, Option.pure_def] at hx
  obtain ⟨_, ⟨y, hy, rfl⟩, _, ⟨z, hz, rfl⟩, hx⟩ := hx
  have he := (extends_toBytes hy).trans (extends_repr hz)
  split at hx <;> cases hx <;> exact he

theorem call_extends {s t : Session} {c : Call} (hc : s.call dumps c = some t) :
    Extends s.heap t.heap ∧ ((∀ d, c ≠ .add d) → t.payload = s.payload) := by
  cases c with
  | getId d =>
    obtain ⟨x, hx, rfl⟩ := Option.map_eq_some_iff.mp hc
    exact ⟨.refl _, fun _ => rfl⟩
  | jsonDict d =>
    obtain ⟨x, hx, rfl⟩ := Option.map_eq_some_iff.mp hc
    exact ⟨extends_jsonDict hx, fun _ => rfl⟩
  | repr d =>
    obtain ⟨x, hx, rfl⟩ := Option.map_eq_some_iff.mp hc
    exact ⟨extends_repr hx, fun _ => rfl⟩
  | sampleSize d =>
    obtain ⟨x, hx, rfl⟩ := Option.map_eq_some_iff.mp hc
    obtain ⟨y, hy, rfl⟩ := Option.map_eq_some_iff.mp hx
    exact ⟨extends_repr hy, fun _ => rfl⟩
  | toBytes =>
    obtain ⟨x, hx, rfl⟩ := Option.map_eq_some_iff.mp hc
    exact ⟨extends_toBytes hx, fun _ => rfl⟩
  | size =>
    obtain ⟨x, hx, rfl⟩ := Option.map_eq_some_iff.mp hc
    obtain ⟨y, hy, rfl⟩ := Option.map_eq_some_iff.mp hx
    exact ⟨extends_toBytes hy, fun _ => rfl⟩
  | add d =>
    obtain ⟨x, hx, rfl⟩ := Option.map_eq_some_iff.mp hc
    exact ⟨extends_add hx, fun hne => absurd rfl (hne d)⟩

theorem steps_extends {s t : Session} {cs : List Call} (hr : Session.Steps dumps s cs t) :
    Extends s.heap t.heap ∧ ((∀ c ∈ cs, ∀ d, c ≠ .add d) → t.payload = s.payload) := by
  induction hr with
  | nil => exact ⟨.refl _, fun _ => rfl⟩
  | @cons s t u c cs hst _ ih =>
    have hstep : Extends s.heap t.heap ∧ ((∀ d, c ≠ .add d) → t.payload = s.payload) := by
      cases hst
      cases hc : s.call dumps c with
      | none => exact ⟨.refl _, fun _ => rfl⟩
      | some t => exact call_extends hc
    refine ⟨hstep.1.trans ih.1, fun hne => ?_⟩
    rw [ih.2 fun c hc => hne c (List.mem_cons_of_mem _ hc), hstep.2 (hne c (List.mem_cons_self ..))]

end Calls

/-! ## Decoding -/

theorem b64decode_encode (b : Bytes) : b64decode (String.ofList (Base64.encode b)) = some b := by
  rw [b64decode, String.toList_ofList, if_pos, Base64.decode_encode]
  simpa using Base64.encode_ascii b

theorem ofJson_document (v : DataValue) (b : Bytes) :
    DataValue.ofJson (v.document b) = some (v.encoded b) := rfl

theorem decodeItem_document (h : Heap) {v : DataValue} {b : Bytes} (hv : v.Raw b) :
    decodeItem h (v.document b) = some ((h.alloc v).1, ⟨(h.alloc v).2⟩) := by
  have hback : (v.encoded b).withData (.bytes b) = v := by
    obtain ⟨id, time, seq, size, num, data⟩ := v
    cases hv
    rfl
  have hstr : (v.encoded b).sample_data_segment.segment_data =
    .str (String.ofList (Base64.encode b)) := rfl
  simp only [decodeItem, ofJson_document, Option.bind_eq_bind, Option.bind_some, hstr,
    b64decode_encode, assign_alloc, hback, Option.pure_def]
  rfl

theorem decodeItems_document {xs : List (DataValue × Bytes)} (hx : ∀ x ∈ xs, x.1.Raw x.2)
    (h : Heap) : ∃ h' ds, decodeItems h (xs.map fun x => x.1.document x.2) = some (h', ds) ∧
      Extends h h' ∧ ds.map (fun d => h'.load d.data) = xs.map fun x => some x.1 := by
  induction xs generalizing h with
  | nil => exact ⟨h, [], rfl, .refl h, rfl⟩
  | cons x xs ih =>
    have hd := decodeItem_document h (hx x (List.mem_cons_self ..))
    obtain ⟨h', ds, hds, he, hmap⟩ :=
      ih (fun y hy => hx y (List.mem_cons_of_mem _ hy)) (h.alloc x.1).1
    refine ⟨h', ⟨(h.alloc x.1).2⟩ :: ds, by simp [decodeItems, hd, hds],
      (extends_alloc h x.1).trans he, ?_⟩
    rw [List.map_cons, hmap, load_of_extends he (load_alloc h x.1)]
    rfl

theorem jsonable_document (xs : List (DataValue × Bytes)) : Jsonable (document xs) := by
  have hitems : JsonableItems (xs.map fun x => x.1.document x.2) := by
    induction xs with
    | nil => trivial
    | cons x xs ih =>
      refine ⟨?_, ih⟩
      simp [DataValue.document, Jsonable, JsonableMembers]
  exact hitems

/-- What the datagrams of a payload hold is what their bytes decode to, in order. Calls leave what
any datagram holds as it is, and without `add` the bytes as well. -/
theorem segmented_round_trip {dumps : Json → String} {loads : Bytes → Option Json}
    (hjson : ∀ j, Jsonable j → loads (Utf8.encode (dumps j)) = some j) {s t : Session}
    {cs : List Call} (hr : Session.Steps dumps s cs t) {xs : List (DataValue × Bytes)}
    (hs : List.Forall₂ (Holds s.heap) s.payload.samples xs) :
    (∃ h b h' ds, s.payload.toBytes dumps s.heap = some (h, b) ∧
      decodeTelemetry loads h b = some (h', ds) ∧
      ds.map (fun d => h'.load d.data) = s.payload.samples.map fun d => s.heap.load d.data) ∧
    (∀ (d : SampleDatagram) v, s.heap.load d.data = some v → t.heap.load d.data = some v) ∧
    ((∀ c ∈ cs, ∀ d, c ≠ .add d) → t.payload = s.payload ∧
      ∃ h h' b, s.payload.toBytes dumps s.heap = some (h, b) ∧
        t.payload.toBytes dumps t.heap = some (h', b)) := by
  obtain ⟨he, hadd⟩ := steps_extends hr
  obtain ⟨h, hb⟩ := toBytes_eq dumps hs
  refine ⟨?_, fun d v hv => load_of_extends he hv, fun hne => ⟨hadd hne, ?_⟩⟩
  · obtain ⟨h', ds, hds, _, hmap⟩ := decodeItems_document (raw_of_holds hs) h
    refine ⟨h, _, h', ds, hb, ?_, hmap.trans (map_load_eq hs).symm⟩
    rw [decodeTelemetry, hjson _ (jsonable_document xs)]
    exact hds
  · rw [hadd hne]
    obtain ⟨h', hb'⟩ := toBytes_eq dumps (holds_of_extends he hs)
    exact ⟨h, h', _, hb, hb'⟩

/-! ## An instance -/

def tempValue : DataValue := ⟨"temp", 5, ⟨0, 2, 1, .bytes [137, 80]⟩⟩

def oneDatagram : Session where
  heap := ⟨[⟨"temp", 5, 0⟩], [⟨0, 2, 1, .bytes [137, 80]⟩]⟩
  payload := ⟨[⟨0⟩, ⟨0⟩], 1000⟩

def compactDumps (j : Json) : String := String.ofList (print j)

def compactLoads (b : Bytes) : Option Json := (Utf8.decode b).bind fun s => parseDoc s.toList

theorem compactLoads_dumps (j : Json) : compactLoads (Utf8.encode (compactDumps j)) = some j := by
  simp [compactLoads, compactDumps, Utf8.decode_encode, parseDoc_print]

/-- The size is asked for, and the datagram is as it was. -/
theorem one_datagram_round_trip :
    (∃ h b h' ds, oneDatagram.payload.toBytes compactDumps oneDatagram.heap = some (h, b) ∧
      decodeTelemetry compactLoads h b = some (h', ds) ∧
      ds.map (fun d => h'.load d.data) = [some tempValue, some tempValue]) ∧
    ((oneDatagram.call compactDumps .size).getD oneDatagram).heap.load 0 = some tempValue := by
  have hrun : Session.Steps compactDumps oneDatagram [.size]
    ((oneDatagram.call compactDumps .size).getD oneDatagram) := .single rfl
  have hholds : List.Forall₂ (Holds oneDatagram.heap) oneDatagram.payload.samples
      [(tempValue, [137, 80]), (tempValue, [137, 80])] :=
    .cons ⟨rfl, rfl⟩ (.cons ⟨rfl, rfl⟩ .nil)
  have h := segmented_round_trip (fun j _ => compactLoads_dumps j) hrun hholds
  exact ⟨h.1, h.2.1 ⟨0⟩ _ rfl⟩

end Shared
end BvexLink
