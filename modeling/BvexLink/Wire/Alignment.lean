import BvexLink.Wire.JsonFraming

/-!
# BvexLink.Wire.Alignment

Which messages get through when a stream is cut anywhere and each read result is decoded on its
own: those that are read results of their own, and nothing else is ever delivered.

* `Aligned`: the reader takes nothing that begins inside a message, wherever it ends.
* `delivered`: what is delivered.
* `aligned_of_key`: JSON objects with a member at the top that is nowhere below.
-/

namespace Wire
namespace Framing

section Alignment

variable {α M E : Type} {enc : M → List α} {rx : List α → Rx M E}

/-- What begins inside a message is not delivered, wherever it ends. -/
structure Aligned (enc : M → List α) (rx : List α → Rx M E) : Prop extends Frames enc rx where
  across : ∀ m ms a u r b m', a ≠ [] → u ≠ [] → r ≠ [] → enc m = a ++ u →
    u ++ stream enc ms = r ++ b → rx r ≠ .deliver m'

theorem stream_append (ms ms' : List M) :
    stream enc (ms ++ ms') = stream enc ms ++ stream enc ms' := by
  simp [stream]

theorem stream_split {ms : List M} {i : Nat} {m : M} (h : ms[i]? = some m) :
    stream enc ms = stream enc (ms.take i) ++ (enc m ++ stream enc (ms.drop (i + 1))) := by
  obtain ⟨hi, rfl⟩ := List.getElem?_eq_some_iff.mp h
  conv_lhs => rw [← List.take_append_drop i ms, ← List.cons_getElem_drop_succ (h := hi)]
  rw [stream_append, stream_cons]

theorem stream_take_succ {ms : List M} {i : Nat} {m : M} (h : ms[i]? = some m) :
    stream enc (ms.take (i + 1)) = stream enc (ms.take i) ++ enc m := by
  rw [List.take_add_one, h, Option.toList_some, stream_append, stream_cons, stream_nil,
    List.append_nil]

/-- The place of a message follows from the bytes before it. -/
theorem stream_take_le (hne : ∀ m, enc m ≠ []) {ms : List M} {i j : Nat} (hi : i ≤ ms.length)
    (h : (stream enc (ms.take i)).length ≤ (stream enc (ms.take j)).length) : i ≤ j := by
  by_contra hlt
  have hj : j < ms.length := by omega
  have hnext : stream enc (ms.take (j + 1)) = stream enc (ms.take j) ++ enc ms[j] :=
    stream_take_succ (List.getElem?_eq_getElem hj)
  have hsplit : ms.take i = ms.take (j + 1) ++ (ms.take i).drop (j + 1) := by
    conv_lhs => rw [← List.take_append_drop (j + 1) (ms.take i)]
    rw [List.take_take, Nat.min_eq_left (by omega)]
  have hpos := List.length_pos_iff.mpr (hne ms[j])
  rw [hsplit, stream_append, hnext] at h
  simp only [List.length_append] at h
  omega

/-- What has been read of a stream ends between two messages or inside one. -/
theorem prefix_cases (ms : List M) {p : List α} (h : p <+: stream enc ms) :
    ∃ i, i ≤ ms.length ∧ (p = stream enc (ms.take i) ∨ ∃ m a u, ms[i]? = some m ∧ a ≠ [] ∧ u ≠ [] ∧
      enc m = a ++ u ∧ p = stream enc (ms.take i) ++ a) := by
  induction ms generalizing p with
  | nil =>
    rw [stream_nil, List.prefix_nil] at h
    exact ⟨0, le_refl _, .inl h⟩
  | cons m ms ih =>
    obtain ⟨s, hs⟩ := h
    rw [stream_cons, List.append_eq_append_iff] at hs
    rcases hs with ⟨u, hm, _⟩ | ⟨c, rfl, hc⟩
    · by_cases hp : p = []
      · exact ⟨0, Nat.zero_le _, .inl hp⟩
      · by_cases hu : u = []
        · refine ⟨1, by simp, .inl ?_⟩
          rw [List.take_one, List.head?_cons, Option.toList_some, stream_cons, hm, hu]
          simp
        · exact ⟨0, Nat.zero_le _, .inr ⟨m, p, u, rfl, hp, hu, hm, rfl⟩⟩
    · obtain ⟨i, hi, h | ⟨m', a, u, hget, ha, hu, hmu, h⟩⟩ := ih (p := c) ⟨s, hc.symm⟩
      · exact ⟨i + 1, by simpa using hi, .inl (by rw [h]; rfl)⟩
      · refine ⟨i + 1, by simpa using hi, .inr ⟨m', a, u, by simpa using hget, ha, hu, hmu, ?_⟩⟩
        rw [h, List.take_succ_cons, stream_cons, List.append_assoc]

/-- What the reader makes of one of these messages is that message, or nothing. -/
def Own (enc : M → List α) (rx : List α → Rx M E) (ms : List M) : Prop :=
  ∀ m ∈ ms, ∀ m', rx (enc m) = .deliver m' → m' = m

/-- Message `i` of the stream is one that the reader takes, it is a read result of its own, and the
reader has got that far. -/
def Through (enc : M → List α) (rx : List α → Rx M E) (ms : List M) (rs : List (List α))
    (i : Nat) : Prop :=
  ∃ m rs₁ rs₂, ms[i]? = some m ∧ rx (enc m) = .deliver m ∧ rs = rs₁ ++ enc m :: rs₂ ∧
    rs₁.flatten = stream enc (ms.take i) ∧ (receive rx rs₁).2 = none

theorem through_snoc {ms : List M} {rs : List (List α)} {r : List α} {i : Nat} :
    Through enc rx ms (rs ++ [r]) i ↔ Through enc rx ms rs i ∨
      (∃ m, ms[i]? = some m ∧ rx r = .deliver m ∧ r = enc m) ∧
        rs.flatten = stream enc (ms.take i) ∧ (receive rx rs).2 = none := by
  constructor
  · rintro ⟨m, rs₁, rs₂, hm, hd, hrs, hpos, hrx⟩
    rcases List.eq_nil_or_concat rs₂ with rfl | ⟨rs₂, r', rfl⟩
    · obtain ⟨rfl, hr⟩ := List.append_inj' hrs rfl
      cases hr
      exact .inr ⟨⟨m, hm, hd, rfl⟩, hpos, hrx⟩
    · rw [List.concat_eq_append, ← List.cons_append, ← List.append_assoc] at hrs
      obtain ⟨rfl, _⟩ := List.append_inj' hrs rfl
      exact .inl ⟨m, rs₁, rs₂, hm, hd, rfl, hpos, hrx⟩
  · rintro (⟨m, rs₁, rs₂, hm, hd, rfl, hpos, hrx⟩ | ⟨⟨m, hm, hd, rfl⟩, hpos, hrx⟩)
    · exact ⟨m, rs₁, rs₂ ++ [r], hm, hd, by simp, hpos, hrx⟩
    · exact ⟨m, rs, [], hm, hd, rfl, hpos, hrx⟩

theorem Through.bound {ms : List M} {rs : List (List α)} {i : Nat} (h : Through enc rx ms rs i) :
    i < ms.length ∧ (stream enc (ms.take (i + 1))).length ≤ rs.flatten.length := by
  obtain ⟨m, rs₁, rs₂, hm, _, rfl, hpos, _⟩ := h
  refine ⟨(List.getElem?_eq_some_iff.mp hm).1, ?_⟩
  rw [stream_take_succ hm, ← hpos, List.flatten_append, List.flatten_cons]
  simp only [List.length_append]
  omega

theorem deliver_place (A : Aligned enc rx) {ms : List M} (hown : Own enc rx ms) {p r : List α}
    (hr : r ≠ []) (h : p ++ r <+: stream enc ms) {m : M} (hd : rx r = .deliver m) :
    ∃ i, ms[i]? = some m ∧ p = stream enc (ms.take i) ∧ r = enc m := by
  obtain ⟨b, hb⟩ := h
  rw [List.append_assoc] at hb
  obtain ⟨i, hi, hp | ⟨m', a, u, hget, ha, hu, hmu, hp⟩⟩ := prefix_cases ms ⟨r ++ b, hb⟩
  · have hrest : r ++ b = stream enc (ms.drop i) := by
      rw [← List.take_append_drop i ms, stream_append, ← hp] at hb
      exact List.append_cancel_left hb
    cases hdrop : ms.drop i with
    | nil =>
      rw [hdrop, stream_nil] at hrest
      exact absurd (List.append_eq_nil_iff.mp hrest).1 hr
    | cons m' ms' =>
      rw [hdrop, stream_cons] at hrest
      have hget : ms[i]? = some m' := by
        rw [← List.head?_drop, hdrop, List.head?_cons]
      have he : r = enc m' := A.first m' ms' r b m hrest hd
      subst he
      obtain rfl := hown m' (List.mem_of_getElem? hget) m hd
      exact ⟨i, hget, hp, rfl⟩
  · -- the read result begins inside a message
    rw [stream_split hget, hmu, hp] at hb
    simp only [List.append_assoc, List.append_cancel_left_eq] at hb
    exact absurd hd (A.across m' _ a u r b m ha hu hr hmu hb.symm)

theorem receive_singleton (r : List α) :
    (receive rx [r]).1 = match rx r with
      | .deliver m => [m]
      | _ => [] := by
  cases h : rx r <;> simp [receive, h]

/-- What is delivered of a stream, however it is cut: in their order, the messages that are read
results of their own and that the reader takes. -/
theorem delivered (A : Aligned enc rx) {ms : List M} (hown : Own enc rx ms)
    {rs : List (List α)} (hr : ∀ r ∈ rs, r ≠ []) (h : rs.flatten <+: stream enc ms) :
    ∃ is : List Nat, is.Pairwise (· < ·) ∧ (∀ i, i ∈ is ↔ Through enc rx ms rs i) ∧
      (receive rx rs).1 = is.filterMap (ms[·]?) := by
  induction rs using List.reverseRecOn with
  | nil =>
    refine ⟨[], .nil, fun i => iff_of_false (by simp) ?_, rfl⟩
    rintro ⟨m, rs₁, rs₂, _, _, h, _⟩
    simp at h
  | append_singleton rs r ih =>
    rw [List.flatten_append, List.flatten_singleton] at h
    have hr' : ∀ x ∈ rs, x ≠ [] := fun x hx => hr x (List.mem_append_left _ hx)
    have hr0 : r ≠ [] := hr r (by simp)
    obtain ⟨is, hsort, hmem, hrx⟩ := ih hr' ((List.prefix_append _ _).trans h)
    by_cases hnone : (receive rx rs).2 = none
    · rw [receive_append hnone, receive_singleton]
      by_cases hd : ∃ m, rx r = .deliver m
      · obtain ⟨m, hd⟩ := hd
        obtain ⟨i, hget, hpos, rfl⟩ := deliver_place A hown hr0 h hd
        have hi : i < ms.length := (List.getElem?_eq_some_iff.mp hget).1
        refine ⟨is ++ [i], ?_, fun j => ?_, by simp [hrx, hd, hget]⟩
        · refine List.pairwise_append.mpr ⟨hsort, List.pairwise_singleton _ _, ?_⟩
          intro j hj k hk
          rw [List.mem_singleton.mp hk]
          obtain ⟨hjlt, hjle⟩ := ((hmem j).mp hj).bound
          rw [hpos] at hjle
          exact stream_take_le A.ne_nil hjlt hjle
        · rw [List.mem_append, hmem, through_snoc, List.mem_singleton]
          refine or_congr_right ⟨?_, ?_⟩
          · rintro rfl
            exact ⟨⟨m, hget, hd, rfl⟩, hpos, hnone⟩
          · rintro ⟨⟨m', hm', _⟩, hjpos, _⟩
            have hjlt : j < ms.length := (List.getElem?_eq_some_iff.mp hm').1
            have heq := congrArg List.length (hjpos.symm.trans hpos)
            exact le_antisymm (stream_take_le A.ne_nil hjlt.le heq.le)
              (stream_take_le A.ne_nil hi.le heq.ge)
      · refine ⟨is, hsort, fun i => ?_, ?_⟩
        · rw [hmem, through_snoc]
          refine (or_iff_left ?_).symm
          rintro ⟨⟨m, _, hm, _⟩, _⟩
          exact hd ⟨m, hm⟩
        · rw [hrx]
          split
          · rename_i m hm
            exact absurd ⟨m, hm⟩ hd
          · exact List.append_nil _
    · rw [receive_append_abort hnone]
      refine ⟨is, hsort, fun i => ?_, hrx⟩
      rw [hmem, through_snoc]
      exact (or_iff_left fun hx => hnone hx.2.2).symm

theorem sublist_of_places {ms : List M} {is : List Nat} (hsort : is.Pairwise (· < ·)) {k : Nat}
    (hk : ∀ i ∈ is, k ≤ i) : List.Sublist (is.filterMap (ms[·]?)) (ms.drop k) := by
  induction is generalizing k with
  | nil => exact List.nil_sublist _
  | cons i is ih =>
    obtain ⟨hlt, hsort⟩ := List.pairwise_cons.mp hsort
    have hrest := ih hsort (k := i + 1) hlt
    have hdrop : List.Sublist (ms.drop i) (ms.drop k) :=
      List.drop_sublist_drop_left _ (hk i (List.mem_cons_self ..))
    cases hget : ms[i]? with
    | none =>
      rw [List.filterMap_cons_none hget]
      exact (hrest.trans (List.drop_sublist_drop_left _ (Nat.le_succ i))).trans hdrop
    | some m =>
      obtain ⟨hi, rfl⟩ := List.getElem?_eq_some_iff.mp hget
      rw [List.filterMap_cons_some hget]
      rw [← List.cons_getElem_drop_succ (h := hi)] at hdrop
      exact (hrest.cons_cons _).trans hdrop

/-- What is delivered are messages of the stream, each at most as often as it is there, in their
order. -/
theorem delivered_sublist (A : Aligned enc rx) {ms : List M} (hown : Own enc rx ms)
    {rs : List (List α)} (hr : ∀ r ∈ rs, r ≠ []) (h : rs.flatten <+: stream enc ms) :
    List.Sublist (receive rx rs).1 ms := by
  obtain ⟨is, hsort, _, hrx⟩ := delivered A hown hr h
  rw [hrx]
  exact sublist_of_places hsort (k := 0) fun i _ => Nat.zero_le i

end Alignment

end Framing

namespace Json

open Framing

/-! ## JSON objects -/

theorem printMembers_last (ms : List (String × Json)) : ∃ s, printMembers ms = s ++ ['}'] := by
  induction ms with
  | nil => exact ⟨[], rfl⟩
  | cons m ms ih =>
    obtain ⟨s, hs⟩ := ih
    exact ⟨',' :: (printStr m.1 ++ ':' :: (print m.2 ++ s)), by simp [printMembers, hs]⟩

theorem print_obj_last (ms : List (String × Json)) : ∃ s, print (.obj ms) = s ++ ['}'] := by
  cases ms with
  | nil => exact ⟨['{'], rfl⟩
  | cons m ms =>
    obtain ⟨s, hs⟩ := printMembers_last ms
    exact ⟨'{' :: (printStr m.1 ++ ':' :: (print m.2 ++ s)), by simp [print, hs]⟩

theorem struct_stream {M : Type} (members : M → List (String × Json)) (l : List M) :
    Struct (l.map fun m => print (.obj (members m))).flatten := by
  induction l with
  | nil => exact .nil
  | cons m l ih => exact struct_print (.obj (members m)) ih

/-- An object that begins inside a printed one has no member `k`, also if it ends in what follows:
it is a part of the printed one, or it begins in a string and its keys are punctuation. -/
theorem across_lacks_key {k : String} {ms ms' : List (String × Json)} {a x y b t : List Char}
    (hl : ∀ m ∈ ms, lacksKey k m.2 = true) (hk : ∃ c ∈ k.toList, structural c = false)
    (ha : a ≠ []) (hx : x ≠ []) (h : print (.obj ms) = a ++ x) (ht : Struct t)
    (hxt : x ++ t = y ++ b) (hp : parseDoc y = some (.obj ms')) : ∀ m ∈ ms', m.1 ≠ k := by
  obtain ⟨w, hv, _⟩ := parseDoc_eq_some hp
  obtain ⟨u, hu⟩ := parseValue_obj_head hv
  rw [← parseValue_skipWs, hu] at hv
  have hy : y = y.takeWhile isWs ++ '{' :: u := by
    rw [← hu, skipWs, List.takeWhile_append_dropWhile]
  -- the object's brace comes before the last one of the printed object
  obtain ⟨e, hxe, he⟩ : ∃ e, x = y.takeWhile isWs ++ '{' :: e ∧ u ++ b = e ++ t := by
    rw [hy, List.append_assoc, List.cons_append] at hxt
    rcases occ_append hxt with ⟨e, hxe, he⟩ | ⟨a', hws, _⟩
    · exact ⟨e, hxe, he⟩
    · obtain ⟨s, hs⟩ := print_obj_last ms
      have hlast : x.getLast? = some '}' := by
        rw [← List.getLast?_append_of_ne_nil a hx, ← h, hs, List.getLast?_concat]
      have hmem : '}' ∈ y.takeWhile isWs := by
        rw [hws]
        exact List.mem_append_left _ (List.mem_of_getLast? hlast)
      exact absurd (List.mem_takeWhile_imp hmem) (by decide)
  have hopens : Opens k ('{' :: (e ++ t)) := by
    cases a with
    | nil => exact absurd rfl ha
    | cons z a =>
      have hz : z = '{' := by
        obtain ⟨v, hv'⟩ := print_obj_head ms
        rw [h, List.cons_append, List.cons.injEq] at hv'
        exact hv'.1
      subst hz
      refine opensIn_tail hl (t := a ++ x) h (a ++ y.takeWhile isWs) e t ht ?_
      rw [hxe, List.append_assoc]
  rw [← he, ← List.cons_append] at hopens
  rcases hopens with ⟨mo, r, hlo, hr⟩ | ⟨s, v, b', hs, hstruct⟩
  · have hmo := (parseValue_unique hv rfl rfl hr).1
    cases hmo
    exact fun m hm => (lacksKeyMembers_mem hlo m hm).1
  · have hin : Inside ('{' :: u) := ⟨s, v, b ++ b', by rw [← hs, List.append_assoc], hstruct⟩
    have hkeys := ((staysInside _).value _ _ _ hin hv).2 ms' rfl
    obtain ⟨c, hc, hcs⟩ := hk
    rintro m hm rfl
    rw [hkeys m hm c hc] at hcs
    cases hcs

variable {M E : Type} {members : M → List (String × Json)} {rx : Bytes → Rx M E} {k : String}

/-- Messages with a member `k` at the top and none below it are aligned for a reader that asks for
the member. -/
theorem aligned_of_key (hrx : TakesObjects k rx) (hk : ∃ c ∈ k.toList, structural c = false)
    (hl : ∀ m, ∀ x ∈ members m, lacksKey k x.2 = true) :
    Aligned (fun m => encodeObj (members m)) rx where
  toFrames := frames_of_key hrx hk hl
  across := by
    intro m ms a u r b m' ha hu hr hm h hd
    obtain ⟨s, ms', hs, hp, x, hx, hxk⟩ := hrx r m' hd
    rw [← Utf8.encode_of_decode hs] at h hr
    have hne : s.toList ≠ [] := by
      intro he
      rw [Utf8.encode, he] at hr
      exact hr rfl
    rw [stream_eq] at h
    have hall : Utf8.encodeChars (print (.obj (members m)) ++
        (ms.map fun m => print (.obj (members m))).flatten) =
        a ++ Utf8.encodeChars s.toList ++ b := by
      rw [Utf8.encodeChars_append, ← encodeObj_eq, hm, List.append_assoc, h, Utf8.encode,
        List.append_assoc]
    obtain ⟨l, t, he, hla, _⟩ := Utf8.encode_infix hne hall
    have hl0 : l ≠ [] := by
      rintro rfl
      exact ha hla.symm
    obtain ⟨v, hv, hv0, hvs⟩ : ∃ v, print (.obj (members m)) = l ++ v ∧ v ≠ [] ∧
        v ++ (ms.map fun m => print (.obj (members m))).flatten = s.toList ++ t := by
      rw [List.append_assoc, List.append_eq_append_iff] at he
      rcases he with ⟨z, rfl, hz⟩ | ⟨v, hv, hvs⟩
      · -- the read result would begin behind the message
        rw [Utf8.encodeChars_append, ← encodeObj_eq, hm] at hla
        have hlen := congrArg List.length hla
        have hpos := List.length_pos_iff.mpr hu
        simp only [List.length_append] at hlen
        omega
      · refine ⟨v, hv, ?_, hvs.symm⟩
        rintro rfl
        rw [List.append_nil] at hv
        rw [← hv, ← encodeObj_eq, hm] at hla
        exact hu (List.self_eq_append_right.mp hla.symm)
    exact across_lacks_key (hl m) hk hl0 hv0 hv (struct_stream members ms) hvs hp x hx hxk

end Json
end Wire
