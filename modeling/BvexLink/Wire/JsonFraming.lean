import BvexLink.Wire.JsonInfix
import BvexLink.Wire.JsonLimits
import BvexLink.Wire.Framing

/-!
# BvexLink.Wire.JsonFraming

Messages sent as JSON objects in UTF-8, one after the other, to a reader that takes a read result
only for an object with a member `k`. If every message has its member `k` at the top and none
below, the encoding delimits itself for that reader (`frames_of_key`): a cut inside a message, be
it inside a character, a string or a nested object, leaves nothing the reader accepts.
-/

namespace Wire
namespace Json

open Framing

/-- An object on the wire. -/
def encodeObj (ms : List (String × Json)) : Bytes := Utf8.encode (String.ofList (print (.obj ms)))

/-- The reader decodes a read result, and takes it only for an object with a member `k`. -/
def TakesObjects {M E : Type} (k : String) (rx : Bytes → Rx M E) : Prop :=
  ∀ r m, rx r = .deliver m → ∃ s ms, Utf8.decode r = some s ∧
    parseDoc s.toList = some (.obj ms) ∧ ∃ x ∈ ms, x.1 = k

section Frames

variable {M E : Type} {members : M → List (String × Json)} {rx : Bytes → Rx M E} {k : String}

theorem encodeObj_eq (ms : List (String × Json)) :
    encodeObj ms = Utf8.encodeChars (print (.obj ms)) := by
  rw [encodeObj, Utf8.encode, String.toList_ofList]

/-- What is encoded in few bytes is within the limits of the parser. -/
theorem withinLimits_of_encodeObj {ms : List (String × Json)} (hd : depthMembers ms ≤ 200)
    (h : (encodeObj ms).length ≤ 4300) : withinLimits (.obj ms) = true := by
  have hle := Utf8.length_le_encodeChars (print (.obj ms))
  rw [encodeObj_eq] at h
  exact withinLimits_of_length hd (Nat.le_trans hle h)

theorem print_obj_head (ms : List (String × Json)) : ∃ t, print (.obj ms) = '{' :: t := by
  cases ms with
  | nil => exact ⟨_, rfl⟩
  | cons m ms => exact ⟨_, rfl⟩

theorem encodeObj_ne_nil (ms : List (String × Json)) : encodeObj ms ≠ [] := by
  intro h
  rw [encodeObj_eq] at h
  obtain ⟨t, ht⟩ := print_obj_head ms
  rw [ht] at h
  exact absurd (Utf8.encodeChars_eq_nil h) (List.cons_ne_nil _ _)

theorem stream_eq (l : List M) :
    stream (fun m => encodeObj (members m)) l =
      Utf8.encodeChars (l.map fun m => print (.obj (members m))).flatten := by
  induction l with
  | nil => rfl
  | cons m l ih =>
    rw [stream_cons, ih, encodeObj_eq, ← Utf8.encodeChars_append]
    rfl

theorem printed_head (l : List M) (c : Char) (t : List Char)
    (h : (l.map fun m => print (.obj (members m))).flatten = c :: t) : isWs c = false := by
  cases l with
  | nil => cases h
  | cons m l =>
    obtain ⟨u, hu⟩ := print_obj_head (members m)
    rw [List.map_cons, List.flatten_cons, hu, List.cons_append, List.cons.injEq] at h
    rw [← h.1]
    decide

theorem frames_of_key (hrx : TakesObjects k rx) (hk : ∃ c ∈ k.toList, structural c = false)
    (hl : ∀ m, ∀ x ∈ members m, lacksKey k x.2 = true) :
    Frames (fun m => encodeObj (members m)) rx where
  ne_nil m := encodeObj_ne_nil (members m)
  first := by
    intro m ms r b m' h hd
    obtain ⟨s, ms', hs, hp, _⟩ := hrx r m' hd
    have hr := Utf8.encode_of_decode hs
    rw [← hr] at h ⊢
    rw [stream_eq, encodeObj_eq, ← Utf8.encodeChars_append] at h
    rw [encodeObj_eq]
    obtain ⟨es, he, _⟩ := Utf8.encodeChars_prefix h
    rw [Utf8.encode, (parseDoc_stream hp rfl rfl (printed_head ms) he.symm).1]
  inner := by
    intro m a r b m' ha hr h hd
    obtain ⟨s, ms', hs, hp, x, hx, hxk⟩ := hrx r m' hd
    rw [← Utf8.encode_of_decode hs] at h hr
    have hne : s.toList ≠ [] := by
      intro he
      rw [Utf8.encode, he] at hr
      exact hr rfl
    simp only [encodeObj_eq, Utf8.encode] at h
    obtain ⟨l, t, he, hla, _⟩ := Utf8.encode_infix hne h
    have hl0 : l ≠ [] := by
      rintro rfl
      exact ha hla.symm
    exact infix_lacks_key (hl m) hk hl0 he hp x hx hxk

end Frames

end Json
end Wire
