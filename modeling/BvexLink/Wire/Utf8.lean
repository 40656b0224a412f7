import Mathlib

/-!
# BvexLink.Wire.Utf8

UTF-8 between strings and byte lists, strict as Python's `str.encode` and `bytes.decode` are.

* `decode_encode`, `encode_of_decode`: `decode` is exactly the partial inverse of `encode`.
* `encode_infix`: self-synchronisation. A decodable run of bytes inside an encoded text starts and
  ends at character boundaries, so it is the encoding of a run of characters of that text.
-/

namespace Wire

abbrev Bytes := List UInt8

namespace Utf8

def encodeChars (cs : List Char) : Bytes := cs.flatMap String.utf8EncodeChar

/-- `str.encode()`. -/
def encode (s : String) : Bytes := encodeChars s.toList

/-- `bytes.decode()`: `none` is `UnicodeDecodeError`. -/
def decode (b : Bytes) : Option String := String.fromUTF8? b.toByteArray

@[simp] theorem encodeChars_nil : encodeChars [] = [] := rfl

@[simp] theorem encodeChars_cons (c : Char) (cs : List Char) :
    encodeChars (c :: cs) = String.utf8EncodeChar c ++ encodeChars cs := rfl

@[simp] theorem encodeChars_append (cs ds : List Char) :
    encodeChars (cs ++ ds) = encodeChars cs ++ encodeChars ds := by
  simp [encodeChars]

/-- Every character takes a byte at least. -/
theorem length_le_encodeChars (cs : List Char) : cs.length ≤ (encodeChars cs).length := by
  induction cs with
  | nil => exact Nat.le_refl 0
  | cons c cs ih =>
    have hpos := c.utf8Size_pos
    rw [encodeChars_cons, List.length_append, List.length_cons, String.length_utf8EncodeChar]
    omega

theorem utf8Encode_eq (cs : List Char) : cs.utf8Encode = (encodeChars cs).toByteArray := rfl

theorem encode_toByteArray (s : String) : (encode s).toByteArray = s.toByteArray := by
  rw [encode, ← utf8Encode_eq, String.utf8Encode_toList]

@[simp] theorem decode_encode (s : String) : decode (encode s) = some s := by
  have hv : (encode s).toByteArray.IsValidUTF8 := by
    rw [encode_toByteArray]; exact s.isValidUTF8
  rw [decode, String.fromUTF8?, dif_pos hv]
  congr 1
  rw [← String.toByteArray_inj]
  exact encode_toByteArray s

theorem encode_of_decode {b : Bytes} {s : String} (h : decode b = some s) : encode s = b := by
  rw [decode, String.fromUTF8?] at h
  split at h
  · simp only [Option.some.injEq] at h
    subst h
    have := encode_toByteArray (String.fromUTF8 b.toByteArray ‹_›)
    exact List.toByteArray_inj.mp this
  · cases h

theorem encode_injective {s t : String} (h : encode s = encode t) : s = t := by
  have := congrArg decode h
  simpa using this

theorem encodeChars_injective {cs ds : List Char} (h : encodeChars cs = encodeChars ds) :
    cs = ds := by
  have := encode_injective (s := String.ofList cs) (t := String.ofList ds) (by simpa [encode] using h)
  simpa using congrArg String.toList this

theorem encodeChars_eq_nil {cs : List Char} (h : encodeChars cs = []) : cs = [] :=
  @encodeChars_injective cs [] h

/-! ## Character boundaries -/

/-- The first byte of an encoded text is a first byte. -/
theorem first_byte {cs : List Char} {b : UInt8} {t : Bytes} (h : encodeChars cs = b :: t) :
    b.IsUTF8FirstByte := by
  cases cs with
  | nil => simp at h
  | cons c cs =>
    have h0 := UInt8.isUTF8FirstByte_getElem_zero_utf8EncodeChar (c := c)
    cases hc : String.utf8EncodeChar c with
    | nil => exact absurd hc String.utf8EncodeChar_ne_nil
    | cons x xs =>
      simp only [encodeChars_cons, hc, List.cons_append, List.cons.injEq] at h
      obtain ⟨rfl, _⟩ := h
      simpa [hc] using h0

/-- No byte strictly inside an encoded character is a first byte. -/
theorem inner_byte {c : Char} {pre post : Bytes} {b : UInt8} (hne : pre ≠ [])
    (h : String.utf8EncodeChar c = pre ++ b :: post) : ¬ b.IsUTF8FirstByte := by
  have hi : pre.length < (String.utf8EncodeChar c).length := by simp [h]
  have := @UInt8.isUTF8FirstByte_getElem_utf8EncodeChar c pre.length hi
  simp only [h, List.getElem_append_right (Nat.le_refl _), Nat.sub_self, List.getElem_cons_zero,
    List.length_eq_zero_iff] at this
  exact fun hb => hne (this.mp hb)

theorem encodeChars_prefix {cs ds : List Char} {b : Bytes}
    (h : encodeChars cs ++ b = encodeChars ds) : ∃ es, ds = cs ++ es ∧ encodeChars es = b := by
  have hp : cs <+: ds := by
    apply List.isPrefix_of_utf8Encode_append_eq_utf8Encode b.toByteArray
    rw [utf8Encode_eq, utf8Encode_eq, ← List.toByteArray_append, h]
  obtain ⟨es, rfl⟩ := hp
  refine ⟨es, rfl, ?_⟩
  rw [encodeChars_append, List.append_cancel_left_eq] at h
  exact h.symm

/-- A suffix of an encoded text that starts with a first byte starts at a character. -/
theorem encodeChars_suffix {ds : List Char} {a t : Bytes} {b : UInt8} (hb : b.IsUTF8FirstByte)
    (h : encodeChars ds = a ++ b :: t) :
    ∃ l r, ds = l ++ r ∧ encodeChars l = a ∧ encodeChars r = b :: t := by
  induction ds generalizing a with
  | nil => simp at h
  | cons d ds ih =>
    rw [encodeChars_cons, List.append_eq_append_iff] at h
    rcases h with ⟨a', ha, hr⟩ | ⟨c', hc, hr⟩
    · obtain ⟨l, r, rfl, hl, hr'⟩ := ih hr
      exact ⟨d :: l, r, rfl, by simp [hl, ha], hr'⟩
    · -- the cut falls inside the character `d`, so at its start
      cases c' with
      | nil =>
        obtain ⟨l, r, rfl, hl, hr'⟩ := ih (a := []) (by simpa using hr.symm)
        exact ⟨d :: l, r, rfl, by simpa [hl] using hc, hr'⟩
      | cons x xs =>
        simp only [List.cons_append, List.cons.injEq] at hr
        obtain ⟨rfl, rfl⟩ := hr
        by_cases ha : a = []
        · subst ha
          exact ⟨[], d :: ds, rfl, rfl, by rw [encodeChars_cons, hc]; rfl⟩
        · exact absurd hb (inner_byte ha hc)

theorem encode_infix {cs ds : List Char} {a b : Bytes} (hne : cs ≠ [])
    (h : encodeChars ds = a ++ encodeChars cs ++ b) :
    ∃ l r, ds = l ++ cs ++ r ∧ encodeChars l = a ∧ encodeChars r = b := by
  cases hc : encodeChars cs with
  | nil => exact absurd (encodeChars_eq_nil hc) hne
  | cons x xs =>
    have hx := first_byte hc
    rw [hc, List.append_assoc, List.cons_append] at h
    obtain ⟨l, r, rfl, hl, hr⟩ := encodeChars_suffix hx h
    rw [← List.cons_append, ← hc] at hr
    obtain ⟨es, rfl, hes⟩ := encodeChars_prefix hr.symm
    exact ⟨l, es, by simp, hl, hes⟩

end Utf8
end Wire
