import BvexLink.Onboard.Uplink
import BvexLink.Wire.Alignment

/-!
# BvexLink.Onboard.Delivered

The uplink when TCP cuts it anywhere: which of the telecommands written `handle_connection` acts on.

* `reads_before`: the handler has not failed before a read.
* `acts_on_sent`: a telecommand gets through if it is a read result of its own, and nothing that was
  not written is ever acted on.
-/

namespace BvexLink
namespace Onboard

open Wire Wire.Framing Wire.Json Codec

theorem aligned_telecommand (py : Pydantic) : Aligned encodeTelecommand (rx py) :=
  aligned_of_key (takesObjects_rx py) ⟨'w', by decide, by decide⟩ members_lacksKey

theorem rx_encode {py : Pydantic} {tc : Telecommand} (h : tc.Tagged) (hs : tc.data.Short) :
    rx py (encodeTelecommand tc) = .deliver tc :=
  rx_eq_deliver.mpr ((decodeTelecommand_encode_iff py tc).mpr ⟨h, hs⟩)

theorem own_telecommand {py : Pydantic} {tcs : List Telecommand} (h : ∀ tc ∈ tcs, tc.Tagged) :
    Own encodeTelecommand (rx py) tcs := by
  intro tc htc tc' hd
  by_cases hs : tc.data.Short
  · rw [rx_encode (h tc htc) hs] at hd
    cases hd
    rfl
  · obtain ⟨_, s, hdec, hv⟩ := decodeTelecommand_eq.mp (rx_eq_deliver.mp hd)
    rw [encodeTelecommand, Utf8.decode_encode] at hdec
    cases hdec
    exact absurd (modelValidateJson_dump_eq_ok.mp hv).1 hs

theorem reads_ne_nil (es : List Event) : ∀ r ∈ reads es, r ≠ [] := by
  intro r hr
  obtain ⟨e, _, he⟩ := List.mem_filterMap.mp hr
  cases e with
  | data b =>
    simp only at he
    split at he
    · cases he
    · rename_i hb
      cases he
      exact hb
  | _ => cases he

theorem reads_before {py : Pydantic} {es : List Event} {c : Conn}
    (h : Steps py (Conn.start false) es c) {rs₁ rs₂ : List Bytes} {r : Bytes}
    (hr : reads es = rs₁ ++ r :: rs₂) : (receive (rx py) rs₁).2 = none := by
  obtain ⟨es₁, es₂, rfl, h₁, h₂⟩ := List.filterMap_eq_append_iff.mp hr
  obtain ⟨fs, e, gs, rfl, hfs, he, _⟩ := List.filterMap_eq_cons_iff.mp h₂
  rw [← List.append_assoc] at h
  obtain ⟨d, hd, hrest⟩ := h.of_append
  have hreads : reads (es₁ ++ fs) = rs₁ := by
    rw [reads, List.filterMap_append, h₁, List.filterMap_eq_nil_iff.mpr hfs, List.append_nil]
  cases hrest with
  | cons hst _ =>
    cases e with
    | data b =>
      obtain ⟨hpc, _⟩ := step_data_eq_some.mp hst
      have hnone := (reader_steps hd).inLoop (by rw [hpc]; rfl)
      rwa [hreads] at hnone
    | _ => cases he

/-- Telecommand `i` of those written is a read result of its own. In a read of at most 4096 bytes the
parser takes every `bps`. -/
def ReadAlone (tcs : List Telecommand) (es : List Event) (i : Nat) : Prop :=
  ∃ tc rs₁ rs₂, tcs[i]? = some tc ∧ tc.data.Short ∧
    reads es = rs₁ ++ encodeTelecommand tc :: rs₂ ∧
    rs₁.flatten = stream encodeTelecommand (tcs.take i)

theorem through_iff {py : Pydantic} {es : List Event} {c : Conn} {tcs : List Telecommand}
    (h : Steps py (Conn.start false) es c) (htag : ∀ tc ∈ tcs, tc.Tagged) (i : Nat) :
    Through encodeTelecommand (rx py) tcs (reads es) i ↔ ReadAlone tcs es i := by
  constructor
  · rintro ⟨tc, rs₁, rs₂, htc, hd, hrs, hpos, _⟩
    have hs := ((decodeTelecommand_encode_iff py tc).mp (rx_eq_deliver.mp hd)).2
    exact ⟨tc, rs₁, rs₂, htc, hs, hrs, hpos⟩
  · rintro ⟨tc, rs₁, rs₂, htc, hs, hrs, hpos⟩
    exact ⟨tc, rs₁, rs₂, htc, rx_encode (htag tc (List.mem_of_getElem? htc)) hs, hrs, hpos,
      reads_before h hrs⟩

theorem received_delivered {py : Pydantic} {es : List Event} {c : Conn} {tcs : List Telecommand}
    (h : Steps py (Conn.start false) es c) (htag : ∀ tc ∈ tcs, tc.Tagged)
    (hcut : (reads es).flatten <+: stream encodeTelecommand tcs) :
    ∃ is : List Nat, is.Pairwise (· < ·) ∧ (∀ i, i ∈ is ↔ ReadAlone tcs es i) ∧
      c.received = is.filterMap (tcs[·]?) := by
  obtain ⟨is, hsort, hmem, hrx⟩ :=
    delivered (aligned_telecommand py) (own_telecommand htag) (reads_ne_nil es) hcut
  exact ⟨is, hsort, fun i => (hmem i).trans (through_iff h htag i),
    (reader_steps h).received.trans hrx⟩

theorem received_sublist {py : Pydantic} {es : List Event} {c : Conn} {tcs : List Telecommand}
    (h : Steps py (Conn.start false) es c) (htag : ∀ tc ∈ tcs, tc.Tagged)
    (hcut : (reads es).flatten <+: stream encodeTelecommand tcs) :
    List.Sublist c.received tcs := by
  rw [(reader_steps h).received]
  exact delivered_sublist (aligned_telecommand py) (own_telecommand htag) (reads_ne_nil es) hcut

/-- However the stream of the telecommands written is cut, the handler decodes exactly those that
are read results of their own, in their order: the first of them gets the only task, the others are
queued, and nothing else is ever acted on. -/
theorem acts_on_sent {py : Pydantic} {es : List Event} {c : Conn} {tcs : List Telecommand}
    (h : Steps py (Conn.start false) es c) (htag : ∀ tc ∈ tcs, tc.Tagged)
    (hcut : (reads es).flatten <+: stream encodeTelecommand tcs) :
    ∃ is : List Nat, is.Pairwise (· < ·) ∧ (∀ i, i ∈ is ↔ ReadAlone tcs es i) ∧
      c.received = is.filterMap (tcs[·]?) ∧
      c.tasks.map Task.cmd = (c.received.take 1).map Telecommand.data ∧
      c.commandQueue.map Prod.fst = c.received.drop 1 := by
  obtain ⟨is, hsort, hmem, hrec⟩ := received_delivered h htag hcut
  have hi := inv_steps h
  exact ⟨is, hsort, hmem, hrec, hi.started, hi.queued⟩

/-- Of two requests the first has arrived, as a read result of its own. -/
theorem first_request_acted_on :
    let c := onData Pydantic.strict (Conn.start false) (encodeTelecommand idsRequest)
    let es := [Event.data (encodeTelecommand idsRequest)]
    ∃ is : List Nat, is.Pairwise (· < ·) ∧
      (∀ i, i ∈ is ↔ ReadAlone [idsRequest, idsRequest] es i) ∧
      c.received = is.filterMap ([idsRequest, idsRequest][·]?) ∧
      c.tasks.map Task.cmd = (c.received.take 1).map Telecommand.data ∧
      c.commandQueue.map Prod.fst = c.received.drop 1 := by
  have hne := (frames_telecommand Pydantic.strict).ne_nil idsRequest
  have hread : reads [.data (encodeTelecommand idsRequest)] = [encodeTelecommand idsRequest] := by
    simp [reads, hne]
  refine acts_on_sent (steps_data rfl _) (by decide) ?_
  rw [hread]
  exact ⟨encodeTelecommand idsRequest, by simp⟩

end Onboard
end BvexLink
