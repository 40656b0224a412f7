import BvexLink.Shared.EncodeTelemetry
import BvexLink.Wire.JsonDumps

/-!
# BvexLink.Shared.PayloadSize

The size limit of a `TelemetryPayload`. `add` predicts the size of a document from the characters
of another one; with what `json.dumps` prints the prediction is exact, but for the first datagram,
which it takes to need a separator.

* `length_document_concat`: what one more datagram adds to the length.
* `add_cases`: the ways a call of `add` can go.
* `Built`: what the calls keep of a payload.
* `payload_within_limit`: after any calls.
-/

namespace BvexLink
namespace Shared

open Wire Json

/-! ## `add` and what it raises -/

inductive AddError where
  | bufferError
  /-- `json_dict` raised. -/
  | typeError
  deriving DecidableEq

/-- `add`, statement by statement: an exception leaves the state as it is at that point. -/
def Session.add (s : Session) (sample : SampleDatagram) : Except AddError Unit × Session :=
  match s.payload.size dumps s.heap with
  | none => (.error .typeError, s)
  | some (h, n) =>
    match sample.size dumps h with
    | none => (.error .typeError, { s with heap := h })
    | some (h', m) =>
      if (n + m + ", ".length : Int) > s.payload.max_size then
        (.error .bufferError, { s with heap := h' })
      else (.ok (), ⟨h', { s.payload with samples := s.payload.samples ++ [sample] }⟩)

theorem length_separator : ", ".length = 2 := by decide

/-- `Session.call` of an `add` is what `add` leaves, unless `json_dict` raises. -/
theorem call_add (s : Session) (d : SampleDatagram) :
    s.call dumps (.add d) =
      if (s.add d).1 = .error .typeError then none else some (s.add d).2 := by
  simp only [Session.call, TelemetryPayload.add, Session.add]
  cases s.payload.size dumps s.heap with
  | none => simp
  | some x =>
    obtain ⟨h, n⟩ := x
    cases hm : d.size dumps h with
    | none => simp [hm]
    | some y =>
      obtain ⟨h', m⟩ := y
      by_cases hfull : (n + m + 2 : Int) > s.payload.max_size <;>
        simp [hm, length_separator, hfull]

/-! ## Sizes -/

section Sizes

variable {h : Heap} {d : SampleDatagram}

theorem repr_of_holds {x : DataValue × Bytes} (hx : Holds h d x) :
    ∃ h', d.repr dumps h = some (h', dumps (x.1.document x.2)) := by
  have hd : d.jsonDict h = some (h.alloc (x.1.encoded x.2)) :=
    jsonDict_eq_some.mpr ⟨x.1, x.2, hx.1, hx.2, rfl⟩
  exact ⟨(h.alloc (x.1.encoded x.2)).1, by simp [SampleDatagram.repr, hd, toJson_encoded]⟩

theorem size_of_holds {x : DataValue × Bytes} (hx : Holds h d x) :
    ∃ h', d.size dumps h = some (h', (dumps (x.1.document x.2)).length) ∧ Extends h h' := by
  obtain ⟨h', hr⟩ := repr_of_holds hx
  exact ⟨h', by rw [SampleDatagram.size, hr, Option.map_some], extends_repr hr⟩

theorem size_eq_some {y : Heap × Nat} (hy : d.size dumps h = some y) :
    ∃ x, Holds h d x ∧ y.2 = (dumps (x.1.document x.2)).length ∧ Extends h y.1 := by
  cases hd : d.jsonDict h with
  | none => simp [SampleDatagram.size, SampleDatagram.repr, hd] at hy
  | some z =>
    obtain ⟨v, b, hv, hb, _⟩ := jsonDict_eq_some.mp hd
    obtain ⟨x, hx⟩ : ∃ x, Holds h d x := ⟨(v, b), hv, hb⟩
    obtain ⟨h', hsize, he⟩ := size_of_holds hx
    obtain ⟨h₁, n⟩ := y
    rw [hsize, Option.some.injEq, Prod.mk.injEq] at hy
    obtain ⟨rfl, hn⟩ := hy
    exact ⟨x, hx, hn.symm, he⟩

theorem payload_size {p : TelemetryPayload} {xs : List (DataValue × Bytes)}
    (hs : List.Forall₂ (Holds h) p.samples xs) :
    ∃ h', p.size dumps h = some (h', (dumps (document xs)).length) ∧ Extends h h' := by
  obtain ⟨h', hb⟩ := toBytes_eq dumps hs
  exact ⟨h', by rw [TelemetryPayload.size, hb, Option.map_some, length_encode_dumps],
    extends_toBytes hb⟩

/-- What the datagrams need, and two characters between each two. -/
theorem length_document (xs : List (DataValue × Bytes)) :
    (dumps (document xs)).length =
      2 + (xs.map fun x => (dumps (x.1.document x.2)).length).sum + 2 * (xs.length - 1) := by
  simp only [document, length_dumps_arr, List.map_map, List.length_map, Function.comp_def]

theorem length_document_concat (xs : List (DataValue × Bytes)) (x : DataValue × Bytes) :
    (dumps (document (xs ++ [x]))).length + (if xs = [] then 2 else 0) =
      (dumps (document xs)).length + (dumps (x.1.document x.2)).length + 2 := by
  rw [length_document, length_document, List.map_append, List.sum_append, List.length_append]
  cases xs with
  | nil => simp
  | cons y ys =>
    simp only [List.map_cons, List.map_nil, List.sum_cons, List.sum_nil, List.length_cons,
      List.length_nil, if_neg (List.cons_ne_nil y ys)]
    omega

end Sizes

/-! ## One call -/

section Add

variable {s : Session} {d : SampleDatagram} {xs : List (DataValue × Bytes)}

theorem add_cases (hs : List.Forall₂ (Holds s.heap) s.payload.samples xs) (d : SampleDatagram) :
    ((∀ x, ¬ Holds s.heap d x) ∧ ∃ u, s.add d = (.error .typeError, u)) ∨
    ∃ x h', Extends s.heap h' ∧ Holds h' d x ∧ s.add d =
      if ((dumps (document xs)).length + (dumps (x.1.document x.2)).length + 2 : Int) >
          s.payload.max_size then (.error .bufferError, { s with heap := h' })
      else (.ok (), ⟨h', { s.payload with samples := s.payload.samples ++ [d] }⟩) := by
  obtain ⟨h₁, hsize, he₁⟩ := payload_size hs
  cases hd : d.size dumps h₁ with
  | none =>
    refine .inl ⟨fun x hx => ?_, { s with heap := h₁ }, by simp [Session.add, hsize, hd]⟩
    obtain ⟨h₂, hsample, _⟩ := size_of_holds (d := d) ⟨load_of_extends he₁ hx.1, hx.2⟩
    rw [hd] at hsample
    cases hsample
  | some y =>
    obtain ⟨x, hx, hlen, he₂⟩ := size_eq_some hd
    refine .inr ⟨x, y.1, he₁.trans he₂, ⟨load_of_extends he₂ hx.1, hx.2⟩, ?_⟩
    simp only [Session.add, hsize, hd, hlen, length_separator, Nat.cast_ofNat]

/-- The first datagram is taken to need a separator. -/
theorem add_new {h : Heap} {x : DataValue × Bytes} (max_size : Int) (hx : Holds h d x) :
    ∃ h', Extends h h' ∧ Session.add ⟨h, ⟨[], max_size⟩⟩ d =
      if (2 + (dumps (x.1.document x.2)).length + 2 : Int) > max_size then
        (.error .bufferError, ⟨h', ⟨[], max_size⟩⟩)
      else (.ok (), ⟨h', ⟨[d], max_size⟩⟩) := by
  rcases add_cases (s := ⟨h, ⟨[], max_size⟩⟩) .nil d with ⟨hraw, _⟩ | ⟨y, h', he, hy, hadd⟩
  · exact absurd hx (hraw x)
  · have hxy : x = y := by
      have hv := Option.some.inj ((load_of_extends he hx.1).symm.trans hy.1)
      have hb := hx.2.symm.trans (hv ▸ hy.2)
      exact Prod.ext hv (SegmentData.bytes.inj hb)
    have hnil : (dumps (document [])).length = 2 := by
      rw [length_document]
      rfl
    rw [hnil] at hadd
    rw [hxy]
    exact ⟨h', he, hadd⟩

end Add

/-! ## A run of calls -/

/-- What a payload with this limit is, whatever was called. -/
structure Built (max_size : Int) (s : Session) : Prop where
  holds : ∃ xs, List.Forall₂ (Holds s.heap) s.payload.samples xs
  limit : s.payload.max_size = max_size
  fits : s.payload.samples ≠ [] →
    ∃ h b, s.payload.toBytes dumps s.heap = some (h, b) ∧ (b.length : Int) ≤ max_size

theorem built_new (h : Heap) (max_size : Int) : Built max_size ⟨h, ⟨[], max_size⟩⟩ :=
  ⟨⟨[], .nil⟩, rfl, fun hne => absurd rfl hne⟩

theorem toBytes_length {h : Heap} {p : TelemetryPayload} {xs : List (DataValue × Bytes)}
    (hs : List.Forall₂ (Holds h) p.samples xs) {max_size : Int} :
    (∃ h' b, p.toBytes dumps h = some (h', b) ∧ (b.length : Int) ≤ max_size) ↔
      ((dumps (document xs)).length : Int) ≤ max_size := by
  obtain ⟨h', hb⟩ := toBytes_eq dumps hs
  rw [← length_encode_dumps]
  constructor
  · intro ⟨h₂, b, hb₂, hle⟩
    rw [hb] at hb₂
    cases hb₂
    exact hle
  · intro hle
    exact ⟨h', _, hb, hle⟩

theorem built_of_extends {max_size : Int} {s : Session} (hb : Built max_size s) {h : Heap}
    (he : Extends s.heap h) : Built max_size { s with heap := h } := by
  obtain ⟨xs, hs⟩ := hb.holds
  have hs' := holds_of_extends he hs
  exact ⟨⟨xs, hs'⟩, hb.limit, fun hne => (toBytes_length hs').mpr
    ((toBytes_length hs).mp (hb.fits hne))⟩

theorem forall₂_concat {α β : Type} {R : α → β → Prop} {l : List α} {m : List β} {a : α} {b : β}
    (h : List.Forall₂ R l m) (hab : R a b) : List.Forall₂ R (l ++ [a]) (m ++ [b]) :=
  List.rel_append h (.cons hab .nil)

theorem built_add {max_size : Int} {s u : Session} {d : SampleDatagram} (hb : Built max_size s)
    (ha : s.add d = (.ok (), u)) :
    u.payload.samples = s.payload.samples ++ [d] ∧ Built max_size u := by
  obtain ⟨xs, hs⟩ := hb.holds
  rcases add_cases hs d with ⟨_, u', hu⟩ | ⟨x, h', he, hx, hadd⟩
  · rw [hu] at ha
    cases ha
  · rw [hadd] at ha
    split at ha
    · cases ha
    · rename_i hfit
      cases ha
      have hs' := forall₂_concat (holds_of_extends he hs) hx
      have hlen := length_document_concat xs x
      refine ⟨rfl, ⟨_, hs'⟩, hb.limit, fun _ => (toBytes_length hs').mpr ?_⟩
      rw [hb.limit] at hfit
      omega

theorem add_raises {max_size : Int} {s u : Session} {d : SampleDatagram} (hb : Built max_size s)
    (ha : s.add d = (.error .bufferError, u)) :
    u.payload = s.payload ∧ Extends s.heap u.heap := by
  obtain ⟨xs, hs⟩ := hb.holds
  rcases add_cases hs d with ⟨_, u', hu⟩ | ⟨x, h', he, hx, hadd⟩
  · rw [hu] at ha
    cases ha
  · rw [hadd] at ha
    split at ha
    · cases ha
      exact ⟨rfl, he⟩
    · cases ha

theorem built_step {max_size : Int} {s t : Session} {c : Call} (hb : Built max_size s)
    (hst : Session.step dumps s c = some t) : Built max_size t := by
  have hsame : ∀ u : Session, Extends s.heap u.heap → u.payload = s.payload → Built max_size u := by
    intro u he hp
    have hu := built_of_extends hb he
    rw [← hp] at hu
    exact hu
  cases hst
  cases hc : s.call dumps c with
  | none => exact hb
  | some u =>
    obtain ⟨he, hp⟩ := call_extends hc
    by_cases hadd : ∃ d, c = .add d
    · obtain ⟨d, rfl⟩ := hadd
      rw [call_add] at hc
      split at hc
      · cases hc
      · cases hr : s.add d with
        | mk r v =>
          rw [hr] at hc
          cases hc
          cases r with
          | ok _ => exact (built_add hb hr).2
          | error e =>
            cases e with
            | typeError => simp_all
            | bufferError => exact hsame _ he (add_raises hb hr).1
    · exact hsame u he (hp fun d hd => hadd ⟨d, hd⟩)

theorem built_steps {h : Heap} {max_size : Int} {cs : List Call} {t : Session}
    (hr : Session.Steps dumps ⟨h, ⟨[], max_size⟩⟩ cs t) : Built max_size t :=
  hr.invariant (built_new h max_size) fun _ _ _ hb hst => built_step hb hst

end Shared
end BvexLink
