import BvexLink.Wire.JsonDumps

/-!
# BvexLink.Wire.JsonText

The texts of a JSON value: white space between any two tokens, and any escape that is read back as
its character. The parser is complete for them.

* `parseValue_text`: a text of a value is read as that value, and the rest is left.
* `text_dumpsValue`: what `json.dumps` prints is a text of its value.
* `loads_dumps`: `json.loads` undoes `json.dumps`.
-/

namespace Wire

theorem Utf8.encode_ascii {s : String} (h : ∀ c ∈ s.toList, c.toNat < 128) :
    ∀ b ∈ Utf8.encode s, b.toNat < 128 := by
  intro b hb
  obtain ⟨c, hc, hb⟩ := List.mem_flatMap.mp hb
  have hlt := h c hc
  have hsize : c.val ≤ 0x7f := by
    rw [UInt32.le_iff_toNat_le]
    exact Nat.le_of_lt_succ hlt
  rw [String.utf8EncodeChar_eq_singleton (Char.utf8Size_eq_one_iff.mpr hsize),
    List.mem_singleton] at hb
  rw [hb]
  exact Nat.lt_of_le_of_lt (Nat.mod_le _ _) hlt

namespace Json

/-! ## Texts -/

def Ws (w : List Char) : Prop := ∀ c ∈ w, isWs c = true

/-- A raw character or an escape. -/
structure UnitText (c : Char) (u : List Char) : Prop where
  head : ∃ x xs, u = x :: xs ∧ x ≠ '"'
  reads : ∀ r, parseUnit (u ++ r) = some (c, r)

inductive StrText : List Char → List Char → Prop where
  | nil : StrText [] []
  | cons {c : Char} {cs u t : List Char} (hu : UnitText c u) (ht : StrText cs t) :
    StrText (c :: cs) (u ++ t)

mutual
inductive Text : Json → List Char → Prop where
  | null : Text .null ['n', 'u', 'l', 'l']
  | true : Text (.bool true) ['t', 'r', 'u', 'e']
  | false : Text (.bool false) ['f', 'a', 'l', 's', 'e']
  | int (z : Int) : Text (.int z) (printInt z)
  | float (l : FloatLit) : Text (.float l) l.text
  | constant (c : Constant) : Text (.constant c) c.text
  | str {s : String} {t : List Char} (ht : StrText s.toList t) :
    Text (.str s) ('"' :: (t ++ ['"']))
  | arrNil {w : List Char} (hw : Ws w) : Text (.arr []) ('[' :: (w ++ [']']))
  | arr {js : List Json} {t : List Char} (ht : ItemsText js t) : Text (.arr js) ('[' :: t)
  | objNil {w : List Char} (hw : Ws w) : Text (.obj []) ('{' :: (w ++ ['}']))
  | obj {ms : List (String × Json)} {t : List Char} (ht : MembersText ms t) :
    Text (.obj ms) ('{' :: t)
/-- One or more items and the closing bracket. -/
inductive ItemsText : List Json → List Char → Prop where
  | last {j : Json} {w t w' : List Char} (hw : Ws w) (ht : Text j t) (hw' : Ws w') :
    ItemsText [j] (w ++ (t ++ (w' ++ [']'])))
  | cons {j : Json} {js : List Json} {w t w' u : List Char} (hw : Ws w) (ht : Text j t)
    (hw' : Ws w') (hu : ItemsText js u) : ItemsText (j :: js) (w ++ (t ++ (w' ++ ',' :: u)))
/-- One or more members and the closing brace. -/
inductive MembersText : List (String × Json) → List Char → Prop where
  | last {k : String} {v : Json} {w s w₁ w₂ t w' : List Char} (hw : Ws w)
    (hs : StrText k.toList s) (hw₁ : Ws w₁) (hw₂ : Ws w₂) (ht : Text v t) (hw' : Ws w') :
    MembersText [(k, v)] (w ++ '"' :: (s ++ '"' :: (w₁ ++ ':' :: (w₂ ++ (t ++ (w' ++ ['}']))))))
  | cons {k : String} {v : Json} {ms : List (String × Json)} {w s w₁ w₂ t w' u : List Char}
    (hw : Ws w) (hs : StrText k.toList s) (hw₁ : Ws w₁) (hw₂ : Ws w₂) (ht : Text v t) (hw' : Ws w')
    (hu : MembersText ms u) :
    MembersText ((k, v) :: ms)
      (w ++ '"' :: (s ++ '"' :: (w₁ ++ ':' :: (w₂ ++ (t ++ (w' ++ ',' :: u))))))
end

/-! ## White space -/

@[simp] theorem ws_nil : Ws [] := by simp [Ws]

@[simp] theorem ws_space : Ws [' '] := by simp [Ws, isWs]

theorem skipWs_ws {w : List Char} (hw : Ws w) (r : List Char) : skipWs (w ++ r) = skipWs r := by
  rw [skipWs, List.dropWhile_append_of_pos hw, skipWs]

theorem not_numChar_of_isWs {c : Char} (h : isWs c = true) : numChar c = false := by
  simp only [isWs, Bool.or_eq_true, beq_iff_eq] at h
  rcases h with ((rfl | rfl) | rfl) | rfl <;> decide

theorem numEnd_ws {w r : List Char} (hw : Ws w) (hr : NumEnd r) : NumEnd (w ++ r) := by
  cases w with
  | nil => exact hr
  | cons c w => exact numEnd_cons (not_numChar_of_isWs (hw c (List.mem_cons_self ..)))

theorem parseValue_ws {w : List Char} (hw : Ws w) (n : Nat) (r : List Char) :
    parseValue n (w ++ r) = parseValue n r := by
  cases n with
  | zero => rfl
  | succ n => rw [parseValue, parseValue, skipWs_ws hw]

/-! ## Strings -/

theorem parseStr_text {cs t : List Char} (h : StrText cs t) (r : List Char) {n : Nat}
    (hn : t.length < n) : parseStr n (t ++ '"' :: r) = some (cs, r) := by
  induction h generalizing n with
  | nil =>
    obtain ⟨m, rfl⟩ : ∃ m, n = m + 1 := ⟨n - 1, by omega⟩
    rfl
  | @cons c cs u t hu ht ih =>
    obtain ⟨m, rfl⟩ : ∃ m, n = m + 1 := ⟨n - 1, by omega⟩
    obtain ⟨x, xs, rfl, hx⟩ := hu.head
    have hread := hu.reads (t ++ '"' :: r)
    simp only [List.length_append, List.length_cons] at hn
    rw [List.cons_append] at hread
    rw [List.append_assoc, List.cons_append, parseStr_unit hx hread, ih (by omega)]
    rfl

/-! ## Values -/

theorem text_head {j : Json} {t : List Char} (h : Text j t) :
    ∃ c u, t = c :: u ∧ isWs c = false ∧ c ≠ ']' ∧ c ≠ '}' := by
  have hnum : ∀ {t : List Char}, (isFloatToken t = true ∨ ∃ z, intToken t = some z) →
      ∃ c u, t = c :: u ∧ isWs c = false ∧ c ≠ ']' ∧ c ≠ '}' := by
    intro t ht
    obtain ⟨c, u, rfl, hc⟩ := number_head ht
    exact ⟨c, u, rfl, start_not_ws hc, start_ne hc (by decide), start_ne hc (by decide)⟩
  cases h with
  | int z => exact hnum (.inr ⟨z, intToken_printInt z⟩)
  | float l => exact hnum (.inl l.ok)
  | constant c => cases c <;> exact ⟨_, _, rfl, by decide⟩
  | _ => exact ⟨_, _, rfl, by decide⟩

/-- What the three parsers do with fuel `n` on the texts of values. -/
structure Complete (n : Nat) : Prop where
  value : ∀ j t r, Text j t → t.length ≤ n → Delim j r → parseValue n (t ++ r) = some (j, r)
  members : ∀ ms t r, MembersText ms t → t.length ≤ n → parseMembers n (t ++ r) = some (ms, r)
  items : ∀ js t r, ItemsText js t → t.length ≤ n → parseItems n (t ++ r) = some (js, r)

/-- The items do not start with the bracket that ends an empty array. -/
theorem itemsText_head {js : List Json} {t : List Char} (h : ItemsText js t) (r : List Char) :
    ∃ c u, skipWs (t ++ r) = c :: u ∧ c ≠ ']' := by
  have hskip : ∀ {j : Json} {w t : List Char} (u : List Char), Ws w → Text j t →
      ∃ c v, skipWs (w ++ (t ++ u)) = c :: v ∧ c ≠ ']' := by
    intro j w t u hw ht
    obtain ⟨c, v, rfl, hws, hb, _⟩ := text_head ht
    exact ⟨c, v ++ u, by rw [skipWs_ws hw, List.cons_append, skipWs_cons hws], hb⟩
  cases h with
  | last hw ht _ =>
    simp only [List.append_assoc]
    exact hskip _ hw ht
  | cons hw ht _ _ =>
    simp only [List.append_assoc]
    exact hskip _ hw ht

theorem membersText_head {ms : List (String × Json)} {t : List Char} (h : MembersText ms t)
    (r : List Char) : ∃ u, skipWs (t ++ r) = '"' :: u := by
  cases h with
  | last hw _ _ _ _ _ =>
    rw [List.append_assoc, skipWs_ws hw, List.cons_append, skipWs_cons (by decide)]
    exact ⟨_, rfl⟩
  | cons hw _ _ _ _ _ _ =>
    rw [List.append_assoc, skipWs_ws hw, List.cons_append, skipWs_cons (by decide)]
    exact ⟨_, rfl⟩

theorem parseItems_skip {n : Nat} {s t : List Char} (h : skipWs s = t) :
    parseItems n s = parseItems n t := by
  cases n with
  | zero => rfl
  | succ n =>
    have hidem : skipWs t = t := by
      subst h
      simp [skipWs, List.dropWhile_idempotent]
    cases n with
    | zero => rw [parseItems, parseItems]; rfl
    | succ n =>
      have hv : parseValue (n + 1) s = parseValue (n + 1) t := by
        rw [parseValue, parseValue, h, hidem]
      rw [parseItems, parseItems, hv]

theorem parseMembers_skip {n : Nat} {s t : List Char} (h : skipWs s = t) :
    parseMembers n s = parseMembers n t := by
  cases n with
  | zero => rfl
  | succ n =>
    have hidem : skipWs t = t := by
      subst h
      simp [skipWs, List.dropWhile_idempotent]
    rw [parseMembers, parseMembers, h, hidem]

theorem complete_value {n : Nat} (ih : Complete n) {j : Json} {t : List Char} (r : List Char)
    (ht : Text j t) (hn : t.length ≤ n + 1) (hd : Delim j r) :
    parseValue (n + 1) (t ++ r) = some (j, r) := by
  cases ht with
  | null => rfl
  | true => rfl
  | false => rfl
  | int z =>
    obtain ⟨c, ds, he, hc⟩ := number_head (.inr ⟨z, intToken_printInt z⟩)
    exact parseValue_number ⟨c, ds ++ r, by rw [he, List.cons_append], hc⟩
      (parseNumber_int z (hd rfl))
  | float l =>
    obtain ⟨c, ds, he, hc⟩ := number_head (.inl l.ok)
    exact parseValue_number ⟨c, ds ++ r, by rw [he, List.cons_append], hc⟩
      (parseNumber_float l (hd rfl))
  | constant c => exact parseValue_constant c r
  | @str s t hs =>
    simp only [List.length_cons, List.length_append, List.length_nil] at hn
    have hread := parseStr_text hs r (n := n) (by omega)
    simp only [List.cons_append, List.append_assoc, List.nil_append]
    rw [parseValue, skipWs_cons (by decide)]
    simp [hread]
  | arrNil hw =>
    simp only [List.cons_append, List.append_assoc, List.nil_append]
    rw [parseValue, skipWs_cons (by decide)]
    simp only [skipWs_ws hw, skipWs_cons (c := ']') (by decide)]
  | @arr js t ht =>
    rw [List.length_cons] at hn
    have hitems := ih.items js t r ht (by omega)
    obtain ⟨c, u, hskip, hc⟩ := itemsText_head ht r
    rw [parseItems_skip hskip] at hitems
    rw [List.cons_append, parseValue, skipWs_cons (by decide)]
    simp only [hskip]
    split
    · simp_all
    · rw [hitems]
  | objNil hw =>
    simp only [List.cons_append, List.append_assoc, List.nil_append]
    rw [parseValue, skipWs_cons (by decide)]
    simp only [skipWs_ws hw, skipWs_cons (c := '}') (by decide)]
  | @obj ms t ht =>
    rw [List.length_cons] at hn
    have hmembers := ih.members ms t r ht (by omega)
    obtain ⟨u, hskip⟩ := membersText_head ht r
    rw [parseMembers_skip hskip] at hmembers
    rw [List.cons_append, parseValue, skipWs_cons (by decide)]
    simp only [hskip]
    split
    · simp_all
    · rw [hmembers]

theorem complete_items {n : Nat} (ih : Complete n) {js : List Json} {t : List Char} (r : List Char)
    (ht : ItemsText js t) (hn : t.length ≤ n + 1) :
    parseItems (n + 1) (t ++ r) = some (js, r) := by
  cases ht with
  | @last j w t w' hw ht hw' =>
    simp only [List.length_append, List.length_singleton] at hn
    have hend : NumEnd (w' ++ ']' :: r) := numEnd_ws hw' (numEnd_cons rfl)
    have hv := ih.value j t (w' ++ ']' :: r) ht (by omega) (delim_of_numEnd j hend)
    simp only [List.append_assoc, List.cons_append, List.nil_append]
    rw [parseItems, parseValue_ws hw, hv]
    simp only [skipWs_ws hw', skipWs_cons (c := ']') (by decide)]
  | @cons j js w t w' u hw ht hw' hu =>
    simp only [List.length_append, List.length_cons] at hn
    have hend : NumEnd (w' ++ ',' :: (u ++ r)) := numEnd_ws hw' (numEnd_cons rfl)
    have hv := ih.value j t (w' ++ ',' :: (u ++ r)) ht (by omega) (delim_of_numEnd j hend)
    have hrest := ih.items js u r hu (by omega)
    simp only [List.append_assoc, List.cons_append]
    rw [parseItems, parseValue_ws hw, hv]
    simp only [skipWs_ws hw', skipWs_cons (c := ',') (by decide), hrest]

theorem complete_members {n : Nat} (ih : Complete n) {ms : List (String × Json)} {t : List Char}
    (r : List Char) (ht : MembersText ms t) (hn : t.length ≤ n + 1) :
    parseMembers (n + 1) (t ++ r) = some (ms, r) := by
  cases ht with
  | @last k v w s w₁ w₂ t w' hw hs hw₁ hw₂ ht hw' =>
    simp only [List.length_append, List.length_cons, List.length_nil] at hn
    have hend : NumEnd (w' ++ '}' :: r) := numEnd_ws hw' (numEnd_cons rfl)
    have hv := ih.value v t (w' ++ '}' :: r) ht (by omega) (delim_of_numEnd v hend)
    have hk := parseStr_text hs (w₁ ++ ':' :: (w₂ ++ (t ++ (w' ++ '}' :: r)))) (n := n) (by omega)
    simp only [List.append_assoc, List.cons_append, List.nil_append]
    rw [parseMembers, skipWs_ws hw, skipWs_cons (by decide)]
    simp only [hk, skipWs_ws hw₁, skipWs_cons (c := ':') (by decide), parseValue_ws hw₂, hv,
      skipWs_ws hw', skipWs_cons (c := '}') (by decide), String.ofList_toList]
  | @cons k v ms w s w₁ w₂ t w' u hw hs hw₁ hw₂ ht hw' hu =>
    simp only [List.length_append, List.length_cons] at hn
    have hend : NumEnd (w' ++ ',' :: (u ++ r)) := numEnd_ws hw' (numEnd_cons rfl)
    have hv := ih.value v t (w' ++ ',' :: (u ++ r)) ht (by omega) (delim_of_numEnd v hend)
    have hk := parseStr_text hs (w₁ ++ ':' :: (w₂ ++ (t ++ (w' ++ ',' :: (u ++ r))))) (n := n)
      (by omega)
    have hrest := ih.members ms u r hu (by omega)
    simp only [List.append_assoc, List.cons_append]
    rw [parseMembers, skipWs_ws hw, skipWs_cons (by decide)]
    simp only [hk, skipWs_ws hw₁, skipWs_cons (c := ':') (by decide), parseValue_ws hw₂, hv,
      skipWs_ws hw', skipWs_cons (c := ',') (by decide), hrest, String.ofList_toList]

theorem complete (n : Nat) : Complete n := by
  induction n with
  | zero =>
    refine ⟨?_, ?_, ?_⟩
    · intro j t r ht hn
      obtain ⟨c, u, rfl, _⟩ := text_head ht
      simp at hn
    · intro ms t r ht hn
      cases ht <;> simp at hn
    · intro js t r ht hn
      cases ht <;> simp at hn
  | succ n ih =>
    exact ⟨fun _ _ r => complete_value ih r, fun _ _ r => complete_members ih r,
      fun _ _ r => complete_items ih r⟩

theorem parseValue_text {j : Json} {t : List Char} (ht : Text j t) (r : List Char) {n : Nat}
    (hn : t.length ≤ n) (hd : Delim j r) : parseValue n (t ++ r) = some (j, r) :=
  (complete n).value j t r ht hn hd

/-- White space before and after is no part of the value. -/
theorem parseDoc_text {j : Json} {w t w' : List Char} (hw : Ws w) (ht : Text j t) (hw' : Ws w') :
    parseDoc (w ++ (t ++ w')) = some j := by
  have hend : NumEnd w' := by
    have h := numEnd_ws hw' numEnd_nil
    rwa [List.append_nil] at h
  have hskip : skipWs w' = [] := by
    have h := skipWs_ws hw' []
    rwa [List.append_nil] at h
  rw [parseDoc, parseValue_ws hw, parseValue_text ht w' _ (delim_of_numEnd j hend)]
  · simp [hskip]
  · simp only [List.length_append]
    omega

/-! ## What `json.dumps` prints -/

theorem hex4_hexDigits {n : Nat} (h : n < 65536) (r : List Char) :
    hex4 (hexDigit (n / 4096) :: hexDigit (n / 256 % 16) :: hexDigit (n / 16 % 16) ::
      hexDigit (n % 16) :: r) = some (n, r) := by
  have h3 := hexVal_hexDigit (n / 4096) (by omega)
  have h2 := hexVal_hexDigit (n / 256 % 16) (by omega)
  have h1 := hexVal_hexDigit (n / 16 % 16) (by omega)
  have h0 := hexVal_hexDigit (n % 16) (by omega)
  have hsum : n / 4096 * 4096 + n / 256 % 16 * 256 + n / 16 % 16 * 16 + n % 16 = n := by omega
  simp only [hex4, h3, h2, h1, h0, hsum]

theorem hex4_unicodeEscape (u : UInt16) (r : List Char) :
    ∃ t, unicodeEscape u ++ r = '\\' :: 'u' :: t ∧ hex4 t = some (u.toNat, r) :=
  ⟨_, rfl, hex4_hexDigits u.toNat_lt r⟩

/-- One escape, or the two of a surrogate pair. -/
theorem parseUnit_escapes (c : Char) (r : List Char) :
    parseUnit ((Utf16.encodeChar c).flatMap unicodeEscape ++ r) = some (c, r) := by
  have hc := Utf16.char_range c
  rw [Utf16.encodeChar]
  split
  · rename_i h
    obtain ⟨t, ht, hhex⟩ := hex4_unicodeEscape (UInt16.ofNat c.toNat) r
    rw [Utf16.toNat_ofNat h] at hhex
    have hhigh : ¬ (0xD800 ≤ c.toNat ∧ c.toNat < 0xDC00) := by omega
    have hlow : ¬ (0xDC00 ≤ c.toNat ∧ c.toNat < 0xE000) := by omega
    rw [List.flatMap_singleton, ht]
    simp only [parseUnit, parseEscape, parseHex, hhex, if_neg hhigh, if_neg hlow, Char.ofNat_toNat]
  · rename_i h
    have hu := Utf16.toNat_ofNat (n := 0xD800 + (c.toNat - 0x10000) / 0x400) (by omega)
    have hv := Utf16.toNat_ofNat (n := 0xDC00 + (c.toNat - 0x10000) % 0x400) (by omega)
    obtain ⟨t', ht', hhex'⟩ :=
      hex4_unicodeEscape (UInt16.ofNat (0xDC00 + (c.toNat - 0x10000) % 0x400)) r
    obtain ⟨t, ht, hhex⟩ := hex4_unicodeEscape
      (UInt16.ofNat (0xD800 + (c.toNat - 0x10000) / 0x400)) ('\\' :: 'u' :: t')
    rw [hu] at hhex
    rw [hv] at hhex'
    have hhigh : 0xD800 ≤ 0xD800 + (c.toNat - 0x10000) / 0x400 ∧
      0xD800 + (c.toNat - 0x10000) / 0x400 < 0xDC00 := by omega
    have hlow : 0xDC00 ≤ 0xDC00 + (c.toNat - 0x10000) % 0x400 ∧
      0xDC00 + (c.toNat - 0x10000) % 0x400 < 0xE000 := by omega
    have hsum : 0x10000 + (0xD800 + (c.toNat - 0x10000) / 0x400 - 0xD800) * 0x400 +
        (0xDC00 + (c.toNat - 0x10000) % 0x400 - 0xDC00) = c.toNat := by omega
    rw [List.flatMap_cons, List.flatMap_singleton, List.append_assoc, ht', ht]
    simp only [parseUnit, parseEscape, parseHex, hhex, hhex', if_pos hhigh, if_pos hlow, hsum,
      Char.ofNat_toNat]

theorem unitText_asciiChar (c : Char) : UnitText c (asciiChar c) := by
  rw [asciiChar]
  split
  · exact ⟨escChar_head c, parseUnit_escChar c⟩
  · refine ⟨?_, parseUnit_escapes c⟩
    rw [Utf16.encodeChar]
    split <;> exact ⟨_, _, rfl, by decide⟩

theorem strText_asciiChars (cs : List Char) : StrText cs (cs.flatMap asciiChar) := by
  induction cs with
  | nil => exact .nil
  | cons c cs ih =>
    rw [List.flatMap_cons]
    exact .cons (unitText_asciiChar c) ih

mutual
theorem text_dumpsValue : ∀ j : Json, Text j (dumpsValue j)
  | .null => .null
  | .bool true => .true
  | .bool false => .false
  | .int z => .int z
  | .float l => .float l
  | .constant c => .constant c
  | .str s => .str (strText_asciiChars s.toList)
  | .arr [] => .arrNil ws_nil
  | .arr (j :: js) => .arr (itemsText_dumps ws_nil (text_dumpsValue j) js)
  | .obj [] => .objNil ws_nil
  | .obj ((k, v) :: ms) => .obj (membersText_dumps ws_nil k (text_dumpsValue v) ms)
theorem itemsText_dumps {w t : List Char} {j : Json} (hw : Ws w) (ht : Text j t) :
    ∀ js : List Json, ItemsText (j :: js) (w ++ (t ++ dumpsItems js))
  | [] => .last hw ht ws_nil
  | j' :: js => .cons hw ht ws_nil (itemsText_dumps ws_space (text_dumpsValue j') js)
theorem membersText_dumps {w t : List Char} {v : Json} (hw : Ws w) (k : String) (ht : Text v t) :
    ∀ ms : List (String × Json), MembersText ((k, v) :: ms)
      (w ++ (asciiStr k ++ ':' :: ' ' :: (t ++ dumpsMembers ms)))
  | [] => by
    have h := MembersText.last hw (strText_asciiChars k.toList) ws_nil ws_space ht ws_nil
    simpa [asciiStr, dumpsMembers] using h
  | (k', v') :: ms => by
    have h := MembersText.cons hw (strText_asciiChars k.toList) ws_nil ws_space ht ws_nil
      (membersText_dumps ws_space k' (text_dumpsValue v') ms)
    simpa [asciiStr, dumpsMembers] using h
end

/-- `json.loads` of bytes, without the limit on the digits of an integer (`withinDigits`). A lone
surrogate, which Python reads, is refused here. -/
def loads (b : Bytes) : Option Json := (Utf8.decode b).bind fun s => parseDoc s.toList

theorem loads_dumps (j : Json) : loads (Utf8.encode (dumps j)) = some j := by
  have h := parseDoc_text ws_nil (text_dumpsValue j) ws_nil
  rw [List.nil_append, List.append_nil] at h
  rw [loads, Utf8.decode_encode, Option.bind_some, dumps, String.toList_ofList, h]

theorem dumps_inj {j j' : Json} (h : dumps j = dumps j') : j = j' := by
  have hj := loads_dumps j
  rw [h, loads_dumps] at hj
  exact (Option.some.inj hj).symm

end Json
end Wire
