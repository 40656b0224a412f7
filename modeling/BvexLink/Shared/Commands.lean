import BvexLink.Shared.SampleId
import BvexLink.Shared.Transport
import BvexLink.Wire.JsonLimits

/-!
# BvexLink.Shared.Commands

Commands on their way back (`encode_command.py`, `decode_command.py`): a list of them is one JSON
text, and each names a sample by its id.

* `ofJson_toJson`: a dictionary of either type is read back as its command.
* `encodeCommands_eq_some`: which lists are encoded.
* `commands_round_trip`: what is encoded comes back, and no other list gives the same bytes.
* `commands_reach_sample`: a command about a datagram that arrived reaches the sample it was cut
  from.
-/

namespace BvexLink
namespace Shared

open Wire Json

namespace Command

/-! ## The dictionaries -/

def toJson : Command → Json
  | .retransmitSegment sample_id seq_nums =>
    .obj [("command", .str "retransmit_segment"), ("sample_id", .str sample_id),
      ("seq_nums", .arr (seq_nums.map .int))]
  | .ackSample sample_id => .obj [("command", .str "ack_sample"), ("sample_id", .str sample_id)]

def intItem : Json → Option Int
  | .int z => some z
  | _ => none

/-- A dictionary of one of the two declared types. -/
def ofJson : Json → Option Command
  | .obj ms => do
    let command ← strMember "command" ms
    let sample_id ← strMember "sample_id" ms
    if command = "retransmit_segment" then
      match field ms "seq_nums" with
      | some (.arr js) => (js.mapM intItem).map (.retransmitSegment sample_id)
      | _ => none
    else if command = "ack_sample" then some (.ackSample sample_id)
    else none
  | _ => none

theorem mapM_inverse {α β : Type} {f : α → β} {g : β → Option α} (h : ∀ a, g (f a) = some a)
    (l : List α) : (l.map f).mapM g = some l := by
  induction l with
  | nil => rfl
  | cons a l ih => rw [List.map_cons, List.mapM_cons, h, ih]; rfl

theorem ofJson_toJson (c : Command) : ofJson c.toJson = some c := by
  cases c with
  | retransmitSegment sample_id seq_nums =>
    have hint : ∀ z, intItem (.int z) = some z := fun _ => rfl
    have hseq : (seq_nums.map Json.int).mapM intItem = some seq_nums := mapM_inverse hint _
    have hfield : field [("command", .str "retransmit_segment"), ("sample_id", .str sample_id),
        ("seq_nums", .arr (seq_nums.map Json.int))] "seq_nums" =
      some (.arr (seq_nums.map Json.int)) := rfl
    have hcommand : strMember "command" [("command", .str "retransmit_segment"),
        ("sample_id", .str sample_id), ("seq_nums", .arr (seq_nums.map Json.int))] =
      some "retransmit_segment" := rfl
    have hid : strMember "sample_id" [("command", .str "retransmit_segment"),
        ("sample_id", .str sample_id), ("seq_nums", .arr (seq_nums.map Json.int))] =
      some sample_id := rfl
    simp only [toJson, ofJson, hcommand, hid, hfield, hseq, Option.bind_eq_bind, Option.bind_some,
      if_true, Option.map_some]
  | ackSample sample_id =>
    have hcommand : strMember "command" [("command", .str "ack_sample"),
      ("sample_id", .str sample_id)] = some "ack_sample" := rfl
    have hid : strMember "sample_id" [("command", .str "ack_sample"),
      ("sample_id", .str sample_id)] = some sample_id := rfl
    simp [toJson, ofJson, hcommand, hid]

end Command

/-! ## Encoding -/

def commandsJson (commands : List Command) : Json := .arr (commands.map Command.toJson)

/-- `encode_commands`; `json.dumps` raises a `ValueError` for an integer of too many digits. -/
def encodeCommands (commands : List Command) : Option Bytes :=
  if withinDigits (commandsJson commands) then some (Utf8.encode (dumps (commandsJson commands)))
  else none

/-- `decode_commands`: whatever `json.loads` makes of the text, with the same limit. -/
def decodeCommands (data : Bytes) : Option Json := (loads data).filter withinDigits

/-- The commands in what was decoded. -/
def commandsOf : Json → Option (List Command)
  | .arr js => js.mapM Command.ofJson
  | _ => none

theorem int_mem_leaves_toJson {c : Command} {z : Int} :
    .int z ∈ leaves c.toJson ↔ z ∈ c.seqNums := by
  cases c with
  | retransmitSegment sample_id seq_nums =>
    simp [Command.toJson, Command.seqNums, leaves, leavesMembers, mem_leavesItems]
  | ackSample sample_id => simp [Command.toJson, Command.seqNums, leaves, leavesMembers]

theorem encodeCommands_eq_some {cs : List Command} {b : Bytes} :
    encodeCommands cs = some b ↔ (∀ c ∈ cs, ∀ z ∈ c.seqNums, fewDigits z = true) ∧
      Utf8.encode (dumps (commandsJson cs)) = b := by
  have hdigits : withinDigits (commandsJson cs) = true ↔
      ∀ c ∈ cs, ∀ z ∈ c.seqNums, fewDigits z = true := by
    rw [withinDigits_iff, commandsJson, leaves]
    constructor
    · intro h c hc z hz
      refine h z (mem_leavesItems.mpr ⟨c.toJson, List.mem_map_of_mem hc, ?_⟩)
      exact int_mem_leaves_toJson.mpr hz
    · intro h z hz
      obtain ⟨j, hj, hz⟩ := mem_leavesItems.mp hz
      obtain ⟨c, hc, rfl⟩ := List.mem_map.mp hj
      exact h c hc z (int_mem_leaves_toJson.mp hz)
  rw [encodeCommands, Option.ite_none_right_eq_some, Option.some.injEq, hdigits]

theorem decode_encode_commands {cs : List Command} {b : Bytes} (h : encodeCommands cs = some b) :
    (decodeCommands b).bind commandsOf = some cs := by
  rw [encodeCommands, Option.ite_none_right_eq_some] at h
  obtain ⟨hdigits, h⟩ := h
  rw [← Option.some.inj h, decodeCommands, loads_dumps, Option.filter_some, if_pos hdigits,
    Option.bind_some, commandsJson, commandsOf, Command.mapM_inverse Command.ofJson_toJson]

/-- A list of commands is encoded exactly if no sequence number has too many digits. The bytes are
ASCII, they decode to the commands, and they are those of no other list. -/
theorem commands_round_trip (cs : List Command) :
    ((∃ b, encodeCommands cs = some b) ↔ ∀ c ∈ cs, ∀ z ∈ c.seqNums, fewDigits z = true) ∧
    ∀ b, encodeCommands cs = some b → (∀ x ∈ b, x.toNat < 128) ∧
      (decodeCommands b).bind commandsOf = some cs ∧
      ∀ cs', encodeCommands cs' = some b ↔ cs' = cs := by
  constructor
  · simp only [encodeCommands_eq_some, exists_and_left, exists_eq', and_true]
  · intro b hb
    have hascii : ∀ x ∈ b, x.toNat < 128 := by
      rw [← (encodeCommands_eq_some.mp hb).2]
      exact Utf8.encode_ascii (dumps_ascii _)
    refine ⟨hascii, decode_encode_commands hb, fun cs' => ⟨fun h => ?_, fun h => h ▸ hb⟩⟩
    have hback := decode_encode_commands h
    rw [decode_encode_commands hb] at hback
    exact (Option.some.inj hback).symm

/-- A command about a datagram that arrived, encoded and decoded again, names one sample of the
sender, and a datagram of that sample has arrived, if no metric id and time of one sample run into
those of another. -/
theorem commands_reach_sample {samples : List Sample} {segment_size : Sample → Nat}
    {max_size : Int} {sent : List Session} (ht : Transfer samples segment_size max_size sent)
    (hids : ∀ s ∈ samples, ∀ s' ∈ samples, ¬ RunsInto s s') {packets : List Bytes}
    (hfrom : ∀ b ∈ packets, ∃ p ∈ sent, Packet p b) (h : Heap) :
    ∃ h' ds, receive h packets = some (h', ds) ∧ ∀ cs : List Command,
      (∀ c ∈ cs, ∃ d ∈ ds, d.getId h' = some c.sampleId) → ∀ b, encodeCommands cs = some b →
      ∃ decoded, (decodeCommands b).bind commandsOf = some decoded ∧
        ∀ c ∈ decoded, ∃ s ∈ samples, received s h' ds ≠ [] ∧
          ∀ s' ∈ samples, c.sampleId = s'.getId ↔ s' = s := by
  obtain ⟨xss, rfl, hxss⟩ := documents_of_packets ht hfrom
  have hraw : ∀ xs ∈ xss, ∀ x ∈ xs, x.1.Raw x.2 := by
    intro xs hxs
    obtain ⟨p, _, hs⟩ := hxss xs hxs
    exact raw_of_holds hs
  obtain ⟨h', ds, hds, _, hload⟩ := receive_documents hraw h
  refine ⟨h', ds, hds, fun cs hcs b hb => ⟨cs, decode_encode_commands hb, fun c hc => ?_⟩⟩
  obtain ⟨d, hd, hid⟩ := hcs c hc
  obtain ⟨v, hv, hvid⟩ := Option.map_eq_some_iff.mp hid
  have hmem : v ∈ ds.filterMap fun d => h'.load d.data := List.mem_filterMap.mpr ⟨d, hd, hv⟩
  have hmem' := hmem
  rw [hload] at hmem'
  obtain ⟨s, hs, i, _, rfl⟩ := arrived_of_sent ht hxss hmem'
  refine ⟨s, hs, List.ne_nil_of_mem (List.mem_filter.mpr ⟨hmem, owns_iff.mpr ⟨rfl, rfl⟩⟩), ?_⟩
  have hname : c.sampleId = s.getId := hvid.symm
  intro s' hs'
  constructor
  · intro hname'
    have hsame := (identify_iff s' s).mpr ⟨hids s' hs' s hs, hids s hs s' hs'⟩
      (hname'.symm.trans hname)
    exact ht.distinct s' hs' s hs hsame.1 hsame.2
  · rintro rfl
    exact hname

/-- One of two datagrams has arrived; it is acknowledged, and the other one is asked for. -/
theorem mag_commands : ∃ b h ds, receive ⟨[], []⟩ [b] = some (h, ds) ∧ ∃ b' decoded,
    encodeCommands [ackSampleCommand "mag9", retransmitSegmentCommand "mag9" [1]] = some b' ∧
    (decodeCommands b').bind commandsOf = some decoded ∧
    ∀ c ∈ decoded, ∃ s ∈ [magSample], received s h ds ≠ [] ∧
      ∀ s' ∈ [magSample], c.sampleId = s'.getId ↔ s' = s := by
  obtain ⟨p₀, p₁, b₀, b₁, ht, ⟨hb₀, hs₀, hm₀⟩, _⟩ := mag_sent
  have hids : ∀ s ∈ [magSample], ∀ s' ∈ [magSample], ¬ RunsInto s s' := by
    intro s hs s' hs' hr
    rw [List.mem_singleton.mp hs, List.mem_singleton.mp hs'] at hr
    exact not_same_of_runsInto hr ⟨rfl, rfl⟩
  have hfrom : ∀ b ∈ [b₀], ∃ p ∈ [p₀, p₁], Packet p b := by
    simp only [List.forall_mem_singleton]
    exact ⟨p₀, by simp, hb₀⟩
  obtain ⟨h, ds, hds, hreach⟩ := commands_reach_sample ht hids hfrom ⟨[], []⟩
  have harrived : ∃ d ∈ ds, d.getId h = some "mag9" := by
    obtain ⟨xs, hxs⟩ := ht.holds (p := p₀) (by simp)
    have hraw : ∀ ys ∈ [xs], ∀ x ∈ ys, x.1.Raw x.2 := by simpa using raw_of_holds hxs
    obtain ⟨h', ds', hds', _, hload⟩ := receive_documents hraw ⟨[], []⟩
    rw [(packet_iff hxs).mp hb₀] at hds
    rw [List.map_singleton, hds] at hds'
    cases hds'
    have hmem := (mem_of_holds hxs).mpr ⟨⟨0⟩, by simp [hs₀], Sample.load_made hm₀⟩
    rw [List.flatten_singleton] at hload
    rw [← hload] at hmem
    obtain ⟨d, hd, hdv⟩ := List.mem_filterMap.mp hmem
    exact ⟨d, hd, by rw [SampleDatagram.getId, hdv]; decide⟩
  obtain ⟨b', hb'⟩ : ∃ b', encodeCommands [ackSampleCommand "mag9",
      retransmitSegmentCommand "mag9" [1]] = some b' :=
    ⟨_, encodeCommands_eq_some.mpr ⟨by decide, rfl⟩⟩
  obtain ⟨decoded, hdecoded⟩ := hreach [ackSampleCommand "mag9", retransmitSegmentCommand "mag9" [1]]
    (by simpa [ackSampleCommand, retransmitSegmentCommand, Command.sampleId] using harrived) b' hb'
  exact ⟨b₀, h, ds, hds, b', decoded, hb', hdecoded⟩

end Shared
end BvexLink
