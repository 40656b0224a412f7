import Mathlib

/-!
# BvexLink.Wire.Framing

Messages sent over a byte stream and received by a reader that decodes each read result on its
own. The stream may be cut anywhere, so such a reader recovers the messages exactly when every
read result is one whole message (`receive_iff`). What it takes is `Frames`: at the start of a
message the reader accepts nothing but that message, and it accepts nothing that lies inside a
message behind its first element.
-/

namespace Wire
namespace Framing

/-- What a reader does with one read result. -/
inductive Rx (M E : Type) where
  | deliver (m : M)
  | skip
  | abort (e : E)
  deriving DecidableEq

section Receive

variable {α M E : Type}

/-- The messages delivered from successive read results, and the error that stopped it. -/
def receive (rx : List α → Rx M E) : List (List α) → List M × Option E
  | [] => ([], none)
  | r :: rs =>
    match rx r with
    | .deliver m => (m :: (receive rx rs).1, (receive rx rs).2)
    | .skip => receive rx rs
    | .abort e => ([], some e)

def stream (enc : M → List α) (ms : List M) : List α := (ms.map enc).flatten

@[simp] theorem stream_nil (enc : M → List α) : stream enc [] = [] := rfl

@[simp] theorem stream_cons (enc : M → List α) (m : M) (ms : List M) :
    stream enc (m :: ms) = enc m ++ stream enc ms := rfl

/-- `rs` is a way to cut a stream into results of `read(n)`. -/
structure Cut (n : Nat) (rs : List (List α)) (s : List α) : Prop where
  flatten : rs.flatten = s
  ne_nil : ∀ r ∈ rs, r ≠ []
  length : ∀ r ∈ rs, r.length ≤ n

/-- How the encoding delimits itself for the reader. -/
structure Frames (enc : M → List α) (rx : List α → Rx M E) : Prop where
  ne_nil : ∀ m, enc m ≠ []
  first : ∀ m ms r b m', r ++ b = enc m ++ stream enc ms → rx r = .deliver m' → r = enc m
  inner : ∀ m a r b m', a ≠ [] → r ≠ [] → enc m = a ++ r ++ b → rx r ≠ .deliver m'

variable {enc : M → List α} {rx : List α → Rx M E}

/-- `u` is what is left of a message of which the start is gone. -/
def Rest (enc : M → List α) (u : List α) : Prop := u = [] ∨ ∃ m a, a ≠ [] ∧ enc m = a ++ u

theorem Rest.drop {r u : List α} (h : Rest enc (r ++ u)) : Rest enc u := by
  rcases h with h | ⟨m, a, ha, he⟩
  · exact .inl (List.append_eq_nil_iff.mp h).2
  · exact .inr ⟨m, a ++ r, by simp [ha], by rw [he, List.append_assoc]⟩

/-- Taking a non-empty run off a stream takes the start of a message with it. -/
theorem stream_drop {ms : List M} {c t : List α} (hc : c ≠ []) (h : stream enc ms = c ++ t) :
    ∃ u ms', t = u ++ stream enc ms' ∧ ms'.length < ms.length ∧ Rest enc u := by
  induction ms generalizing c with
  | nil =>
    rw [stream_nil] at h
    exact absurd (List.append_eq_nil_iff.mp h.symm).1 hc
  | cons m ms ih =>
    rw [stream_cons, List.append_eq_append_iff] at h
    rcases h with ⟨a', rfl, ht⟩ | ⟨c', hm, rfl⟩
    · by_cases ha : a' = []
      · subst ha
        exact ⟨[], ms, ht.symm, by simp, .inl rfl⟩
      · obtain ⟨u, ms', ht', hl, hu⟩ := ih ha ht
        exact ⟨u, ms', ht', by simp; omega, hu⟩
    · exact ⟨c', ms, rfl, by simp, .inr ⟨m, c, hc, hm⟩⟩

theorem receive_length_cons {r : List α} {rs : List (List α)} {k : Nat}
    (hn : ∀ m', rx r ≠ .deliver m') (h : (receive rx rs).1.length ≤ k) :
    (receive rx (r :: rs)).1.length ≤ k := by
  cases hx : rx r with
  | deliver m' => exact absurd hx (hn m')
  | skip => simpa [receive, hx] using h
  | abort e => simp [receive, hx]

/-- A reader that starts after the start of a message delivers at most the later messages. -/
theorem receive_length (F : Frames enc rx) {rs : List (List α)} (hr : ∀ r ∈ rs, r ≠ []) :
    ∀ {u : List α} {ms : List M}, Rest enc u → rs.flatten = u ++ stream enc ms →
      (receive rx rs).1.length ≤ ms.length := by
  induction rs with
  | nil => intro u ms _ _; simp [receive]
  | cons r rs ih =>
    intro u ms hu h
    have hr0 : r ≠ [] := hr r (by simp)
    have hrs : ∀ x ∈ rs, x ≠ [] := fun x hx => hr x (by simp [hx])
    rw [List.flatten_cons, List.append_eq_append_iff] at h
    rcases h with ⟨a', rfl, ht⟩ | ⟨c', rfl, hs⟩
    · -- the read result lies in what is left of the message
      refine receive_length_cons ?_ (ih hrs hu.drop ht)
      rcases hu with hu | ⟨m, a, ha, he⟩
      · exact absurd (List.append_eq_nil_iff.mp hu).1 hr0
      · exact fun m' => F.inner m a r a' m' ha hr0 (by rw [he, List.append_assoc])
    · by_cases hc : c' = []
      · subst hc
        rw [List.append_nil] at hr0 ⊢
        refine receive_length_cons ?_ (ih hrs (u := []) (.inl rfl) hs.symm)
        rcases hu with hu | ⟨m, a, ha, he⟩
        · exact absurd hu hr0
        · exact fun m' => F.inner m a u [] m' ha hr0 (by rw [he, List.append_nil])
      · -- it reaches the start of a later message
        obtain ⟨u', ms', ht, hl, hu'⟩ := stream_drop hc hs
        have := ih hrs hu' ht
        cases hx : rx (u ++ c') with
        | deliver m' => simp [receive, hx]; omega
        | skip => simp [receive, hx]; omega
        | abort e => simp [receive, hx]

theorem receive_map {ms : List M} (h : ∀ m ∈ ms, rx (enc m) = .deliver m) :
    receive rx (ms.map enc) = (ms, none) := by
  induction ms with
  | nil => rfl
  | cons m ms ih =>
    have := ih fun x hx => h x (by simp [hx])
    simp [receive, h m (by simp), this]

theorem receive_eq (F : Frames enc rx) {rs : List (List α)} (hr : ∀ r ∈ rs, r ≠ []) :
    ∀ {ms : List M}, rs.flatten = stream enc ms → (receive rx rs).1 = ms →
      rs = ms.map enc ∧ ∀ m ∈ ms, rx (enc m) = .deliver m := by
  induction rs with
  | nil =>
    intro ms _ hm
    subst hm
    simp [receive]
  | cons r rs ih =>
    intro ms h hm
    have hr0 : r ≠ [] := hr r (by simp)
    have hrs : ∀ x ∈ rs, x ≠ [] := fun x hx => hr x (by simp [hx])
    cases ms with
    | nil =>
      rw [List.flatten_cons, stream_nil] at h
      exact absurd (List.append_eq_nil_iff.mp h).1 hr0
    | cons m ms =>
      rw [List.flatten_cons] at h
      cases hx : rx r with
      | deliver m' =>
        have he : r = enc m := F.first m ms r rs.flatten m' h hx
        subst he
        simp only [receive, hx, List.cons.injEq] at hm
        obtain ⟨rfl, hm⟩ := hm
        rw [stream_cons, List.append_cancel_left_eq] at h
        obtain ⟨hrs', hall⟩ := ih hrs h hm
        refine ⟨by rw [hrs', List.map_cons], ?_⟩
        intro x hx'
        rcases List.mem_cons.mp hx' with rfl | hx'
        · exact hx
        · exact hall x hx'
      | skip =>
        -- the first message is cut: too few are left
        simp only [receive, hx] at hm
        obtain ⟨u, ms', ht, hl, hu⟩ := @stream_drop _ _ enc _ _ _ hr0 h.symm
        have := receive_length F hrs hu ht
        rw [hm] at this
        omega
      | abort e => simp [receive, hx] at hm

theorem receive_append {rs ts : List (List α)} (h : (receive rx rs).2 = none) :
    receive rx (rs ++ ts) = ((receive rx rs).1 ++ (receive rx ts).1, (receive rx ts).2) := by
  induction rs with
  | nil => rfl
  | cons r rs ih =>
    cases hx : rx r with
    | deliver m =>
      simp only [receive, hx] at h
      simp [receive, hx, ih h]
    | skip =>
      simp only [receive, hx] at h
      simp [receive, hx, ih h]
    | abort e => simp [receive, hx] at h

theorem receive_append_abort {rs ts : List (List α)} (h : (receive rx rs).2 ≠ none) :
    receive rx (rs ++ ts) = receive rx rs := by
  induction rs with
  | nil => exact absurd rfl h
  | cons r rs ih =>
    cases hx : rx r with
    | deliver m =>
      simp only [receive, hx] at h
      simp [receive, hx, ih h]
    | skip =>
      simp only [receive, hx] at h
      simp [receive, hx, ih h]
    | abort e => simp [receive, hx]

/-- The messages come through exactly when every read result is one message, each of which the
reader takes for itself. -/
theorem receive_iff (F : Frames enc rx) {rs : List (List α)} {ms : List M}
    (hr : ∀ r ∈ rs, r ≠ []) (h : rs.flatten = stream enc ms) :
    (receive rx rs).1 = ms ↔ rs = ms.map enc ∧ ∀ m ∈ ms, rx (enc m) = .deliver m := by
  constructor
  · exact receive_eq F hr h
  · rintro ⟨rfl, hm⟩
    rw [receive_map hm]

end Receive

end Framing
end Wire
