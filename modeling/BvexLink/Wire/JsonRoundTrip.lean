import BvexLink.Wire.Json

/-!
# BvexLink.Wire.JsonRoundTrip

The parser inverts the printer, and what it accepts delimits itself.

* `parseValue_print`: after any white space, a printed value is read back and the rest is left.
* `parseDoc_print`: a printed value is one complete document.
* `parseValue_append`: a value other than a number is read the same whatever follows it, so no
  proper prefix of a document is continued by reading on.
-/

namespace Wire
namespace Json

/-! ## Numbers -/

theorem numChar_of_isDigit {c : Char} (h : c.isDigit = true) : numChar c = true := by
  simp [numChar, h]

theorem toDigits_all (n : Nat) : (Nat.toDigits 10 n).all Char.isDigit = true := by
  rw [List.all_eq_true]
  exact fun c hc => Nat.isDigit_of_mem_toDigits (by omega) (by omega) hc

/-- The digits of a positive number have no leading zero. -/
theorem toDigits_head {n : Nat} (h : 0 < n) :
    ∃ d ds, Nat.toDigits 10 n = d :: ds ∧ d ≠ '0' := by
  induction n using Nat.strongRecOn with
  | ind n ih =>
    by_cases hn : n < 10
    · refine ⟨n.digitChar, [], Nat.toDigits_of_lt_base hn, ?_⟩
      interval_cases n <;> decide
    · obtain ⟨d, ds, hd, hne⟩ := ih (n / 10) (by omega) (by omega)
      rw [Nat.toDigits_of_base_le (by omega) (by omega), hd]
      exact ⟨d, ds ++ [(n % 10).digitChar], rfl, hne⟩

theorem isNatToken_toDigits (n : Nat) : isNatToken (Nat.toDigits 10 n) = true := by
  by_cases hn : n = 0
  · subst hn; rw [Nat.toDigits_zero]; rfl
  · obtain ⟨d, ds, hd, hne⟩ := toDigits_head (n := n) (by omega)
    have hall := toDigits_all n
    rw [hd] at hall ⊢
    unfold isNatToken
    split <;> simp_all

theorem isDigits_of_isNatToken {t : List Char} (h : isNatToken t = true) : isDigits t = true := by
  unfold isNatToken at h
  split at h
  · cases h
  · rfl
  · simp only [Bool.and_eq_true] at h
    simpa [isDigits] using h.2

/-- A run of digits starts with a digit, so with no sign. -/
theorem isDigits_cons {t : List Char} (h : isDigits t = true) :
    ∃ d ds, t = d :: ds ∧ d.isDigit = true := by
  cases t with
  | nil => cases h
  | cons d ds => exact ⟨d, ds, rfl, by simp [isDigits] at h; exact h.1⟩

theorem digit_ne_minus {d : Char} (h : d.isDigit = true) : d ≠ '-' := by
  rintro rfl; revert h; decide

theorem stripMinus_digits {t : List Char} (h : isDigits t = true) : stripMinus t = t := by
  obtain ⟨d, ds, rfl, hd⟩ := isDigits_cons h
  have := digit_ne_minus hd
  unfold stripMinus
  split <;> simp_all

theorem intToken_digits {t : List Char} (h : isNatToken t = true) :
    intToken t = some (Nat.ofDigitChars 10 t 0 : Int) := by
  obtain ⟨d, ds, rfl, hd⟩ := isDigits_cons (isDigits_of_isNatToken h)
  have := digit_ne_minus hd
  unfold intToken
  split <;> simp_all

theorem intToken_printInt (z : Int) : intToken (printInt z) = some z := by
  cases z with
  | ofNat n => rw [printInt, intToken_digits (isNatToken_toDigits n)]; simp
  | negSucc n =>
    simp only [printInt, intToken, isNatToken_toDigits, if_true, Nat.ofDigitChars_ten_toDigits]
    rfl

theorem not_float_digits {t : List Char} (h : isDigits t = true) :
    isFracExp (t.dropWhile Char.isDigit) = false := by
  have hd : t.dropWhile Char.isDigit = [] := by
    simp only [isDigits, Bool.and_eq_true, List.all_eq_true] at h
    exact List.dropWhile_eq_nil_iff.mpr h.2
  rw [hd]; rfl

theorem not_float_printInt (z : Int) : isFloatToken (printInt z) = false := by
  cases z with
  | ofNat n =>
    have h := isDigits_of_isNatToken (isNatToken_toDigits n)
    simp [isFloatToken, printInt, stripMinus_digits h, not_float_digits h]
  | negSucc n =>
    have h := isDigits_of_isNatToken (isNatToken_toDigits (n + 1))
    simp [isFloatToken, printInt, stripMinus, not_float_digits h]

theorem isDigits_numChar {t : List Char} (h : isDigits t = true) : ∀ c ∈ t, numChar c = true := by
  simp only [isDigits, Bool.and_eq_true, List.all_eq_true] at h
  exact fun c hc => numChar_of_isDigit (h.2 c hc)

theorem stripSign_numChar {t : List Char} (h : ∀ c ∈ stripSign t, numChar c = true) :
    ∀ c ∈ t, numChar c = true := by
  unfold stripSign at h
  split at h
  · intro c hc
    rcases List.mem_cons.mp hc with rfl | hc
    · rfl
    · exact h c hc
  · intro c hc
    rcases List.mem_cons.mp hc with rfl | hc
    · rfl
    · exact h c hc
  · exact h

theorem isExpToken_numChar {t : List Char} (h : isExpToken t = true) :
    ∀ c ∈ t, numChar c = true := by
  unfold isExpToken at h
  split at h
  · intro c hc
    rcases List.mem_cons.mp hc with rfl | hc
    · rfl
    · exact stripSign_numChar (isDigits_numChar h) c hc
  · intro c hc
    rcases List.mem_cons.mp hc with rfl | hc
    · rfl
    · exact stripSign_numChar (isDigits_numChar h) c hc
  · cases h

theorem isFracExp_numChar {t : List Char} (h : isFracExp t = true) :
    ∀ c ∈ t, numChar c = true := by
  unfold isFracExp at h
  split at h
  · rename_i r
    simp only [Bool.and_eq_true, Bool.or_eq_true, List.isEmpty_iff] at h
    intro c hc
    rcases List.mem_cons.mp hc with rfl | hc
    · rfl
    · rw [← List.takeWhile_append_dropWhile (p := Char.isDigit) (l := r), List.mem_append] at hc
      rcases hc with hc | hc
      · exact isDigits_numChar h.1 c hc
      · rcases h.2 with he | he
        · rw [he] at hc; cases hc
        · exact isExpToken_numChar he c hc
  · exact isExpToken_numChar h

theorem stripMinus_numChar {t : List Char} (h : ∀ c ∈ stripMinus t, numChar c = true) :
    ∀ c ∈ t, numChar c = true := by
  unfold stripMinus at h
  split at h
  · intro c hc
    rcases List.mem_cons.mp hc with rfl | hc
    · rfl
    · exact h c hc
  · exact h

theorem float_numChar (l : FloatLit) : ∀ c ∈ l.text, numChar c = true := by
  have h := l.ok
  simp only [isFloatToken, Bool.and_eq_true] at h
  apply stripMinus_numChar
  intro c hc
  rw [← List.takeWhile_append_dropWhile (p := Char.isDigit) (l := stripMinus l.text),
    List.mem_append] at hc
  rcases hc with hc | hc
  · exact isDigits_numChar (isDigits_of_isNatToken h.1) c hc
  · exact isFracExp_numChar h.2 c hc

theorem printInt_numChar (z : Int) : ∀ c ∈ printInt z, numChar c = true := by
  cases z with
  | ofNat n => exact isDigits_numChar (isDigits_of_isNatToken (isNatToken_toDigits n))
  | negSucc n =>
    intro c hc
    rcases List.mem_cons.mp hc with rfl | hc
    · rfl
    · exact isDigits_numChar (isDigits_of_isNatToken (isNatToken_toDigits (n + 1))) c hc

/-- `r` does not go on with a number. -/
def NumEnd (r : List Char) : Prop := ∀ c t, r = c :: t → numChar c = false

theorem numEnd_nil : NumEnd [] := by intro c t h; cases h

theorem numEnd_cons {c : Char} {t : List Char} (h : numChar c = false) : NumEnd (c :: t) := by
  intro c' t' h'; cases h'; exact h

theorem span_numChar {t r : List Char} (ht : ∀ c ∈ t, numChar c = true) (hr : NumEnd r) :
    (t ++ r).takeWhile numChar = t ∧ (t ++ r).dropWhile numChar = r := by
  have hr' : r.takeWhile numChar = [] ∧ r.dropWhile numChar = r := by
    cases r with
    | nil => simp
    | cons c r => simp [hr c r rfl]
  rw [List.takeWhile_append_of_pos ht, List.dropWhile_append_of_pos ht, hr'.1, hr'.2]
  simp

theorem parseNumber_int (z : Int) {r : List Char} (hr : NumEnd r) :
    parseNumber (printInt z ++ r) = some (.int z, r) := by
  obtain ⟨ht, hd⟩ := span_numChar (printInt_numChar z) hr
  simp [parseNumber, ht, hd, not_float_printInt, intToken_printInt]

theorem parseNumber_float (l : FloatLit) {r : List Char} (hr : NumEnd r) :
    parseNumber (l.text ++ r) = some (.float l, r) := by
  obtain ⟨ht, hd⟩ := span_numChar (float_numChar l) hr
  simp [parseNumber, ht, hd, l.ok]

/-! ## Strings -/

theorem hexVal_hexDigit : ∀ d, d < 16 → hexVal (hexDigit d) = some d := by decide

theorem parseUnit_escChar (c : Char) (r : List Char) : parseUnit (escChar c ++ r) = some (c, r) := by
  unfold escChar
  split
  · subst_vars; rfl
  split
  · subst_vars; rfl
  split
  · subst_vars; rfl
  split
  · subst_vars; rfl
  split
  · subst_vars; rfl
  split
  · subst_vars; rfl
  split
  · subst_vars; rfl
  split
  · rename_i h
    have h1 := hexVal_hexDigit (c.toNat / 16) (by omega)
    have h2 := hexVal_hexDigit (c.toNat % 16) (by omega)
    have h0 : hexVal '0' = some 0 := rfl
    have e : c.toNat / 16 * 16 + c.toNat % 16 = c.toNat := by omega
    have hs : ¬ (0xD800 ≤ c.toNat ∧ c.toNat < 0xDC00) := by omega
    have hl : ¬ (0xDC00 ≤ c.toNat ∧ c.toNat < 0xE000) := by omega
    simp [parseUnit, parseEscape, parseHex, hex4, h0, h1, h2, e, hs, hl, Char.ofNat_toNat]
  · rename_i h1 h2 _ _ _ _ _ h8
    simp only [List.singleton_append, parseUnit]
    rw [if_neg h8]

theorem escChar_head (c : Char) : ∃ x xs, escChar c = x :: xs ∧ x ≠ '"' := by
  unfold escChar
  split
  · exact ⟨_, _, rfl, by decide⟩
  split
  · exact ⟨_, _, rfl, by decide⟩
  split
  · exact ⟨_, _, rfl, by decide⟩
  split
  · exact ⟨_, _, rfl, by decide⟩
  split
  · exact ⟨_, _, rfl, by decide⟩
  split
  · exact ⟨_, _, rfl, by decide⟩
  split
  · exact ⟨_, _, rfl, by decide⟩
  split
  · exact ⟨_, _, rfl, by decide⟩
  · exact ⟨_, _, rfl, ‹_›⟩

theorem parseStr_unit {n : Nat} {x : Char} {xs r : List Char} {c : Char} (hx : x ≠ '"')
    (h : parseUnit (x :: xs) = some (c, r)) :
    parseStr (n + 1) (x :: xs) = (parseStr n r).map fun p => (c :: p.1, p.2) := by
  rw [parseStr, h]
  · cases hp : parseStr n r <;> simp [hp]
  · intro r hr; cases hr; exact hx rfl

theorem parseStr_escChars (cs : List Char) (r : List Char) :
    ∀ n, cs.length < n → parseStr n (escChars cs ++ '"' :: r) = some (cs, r) := by
  induction cs with
  | nil =>
    intro n hn
    obtain ⟨m, rfl⟩ : ∃ m, n = m + 1 := ⟨n - 1, by simp at hn; omega⟩
    rfl
  | cons c cs ih =>
    intro n hn
    obtain ⟨m, rfl⟩ : ∃ m, n = m + 1 := ⟨n - 1, by simp at hn; omega⟩
    have hu := parseUnit_escChar c (escChars cs ++ '"' :: r)
    obtain ⟨x, xs, he, hx⟩ := escChar_head c
    have e : escChars (c :: cs) ++ '"' :: r = x :: (xs ++ (escChars cs ++ '"' :: r)) := by
      simp [escChars, he]
    rw [he, List.cons_append] at hu
    rw [e, parseStr_unit hx hu, ih m (by simp at hn; omega)]
    rfl

theorem escChars_length (cs : List Char) : cs.length ≤ (escChars cs).length := by
  induction cs with
  | nil => simp
  | cons c cs ih =>
    obtain ⟨x, xs, he, _⟩ := escChar_head c
    simp only [escChars, List.flatMap_cons, List.length_append, List.length_cons, he] at ih ⊢
    omega

theorem parseStr_printStr (s : String) (r : List Char) {n : Nat} (hn : (printStr s).length ≤ n + 1) :
    parseStr n (escChars s.toList ++ '"' :: r) = some (s.toList, r) := by
  have := escChars_length s.toList
  apply parseStr_escChars
  simp only [printStr, List.length_cons, List.length_append, List.length_nil] at hn
  omega

/-! ## Values -/

@[simp] theorem skipWs_nil : skipWs [] = [] := rfl

theorem skipWs_cons {c : Char} {t : List Char} (h : isWs c = false) : skipWs (c :: t) = c :: t := by
  simp [skipWs, h]

/-- A value whose text says where it ends: any but a number. -/
def closed : Json → Bool
  | .int _ => false
  | .float _ => false
  | _ => true

/-- What follows `j` is not taken for a part of it. -/
def Delim (j : Json) (r : List Char) : Prop := closed j = false → NumEnd r

theorem delim_of_numEnd {r : List Char} (j : Json) (h : NumEnd r) : Delim j r := fun _ => h

theorem delim_of_closed {j : Json} (r : List Char) (h : closed j = true) : Delim j r := by
  intro h'; rw [h] at h'; cases h'

theorem numEnd_printMembers (ms : List (String × Json)) (r : List Char) :
    NumEnd (printMembers ms ++ r) := by
  rcases ms with _ | ⟨⟨k, v⟩, ms⟩ <;> exact numEnd_cons rfl

/-- A number token starts with a sign or a digit. -/
theorem number_head {t : List Char} (h : isFloatToken t = true ∨ ∃ z, intToken t = some z) :
    ∃ c ds, t = c :: ds ∧ (c = '-' ∨ c.isDigit = true) := by
  cases t with
  | nil => rcases h with h | ⟨z, h⟩ <;> cases h
  | cons c ds =>
    refine ⟨c, ds, rfl, ?_⟩
    by_cases hc : c = '-'
    · exact .inl hc
    · right
      rcases h with h | ⟨z, h⟩
      · have hs : stripMinus (c :: ds) = c :: ds := by unfold stripMinus; split <;> simp_all
        simp only [isFloatToken, hs, Bool.and_eq_true] at h
        obtain ⟨d, rest, hd, hdig⟩ := isDigits_cons (isDigits_of_isNatToken h.1)
        by_contra hcd
        simp [hcd] at hd
      · unfold intToken at h
        split at h
        · simp_all
        · split at h
          · obtain ⟨d, rest, hd, hdig⟩ := isDigits_cons (isDigits_of_isNatToken ‹_›)
            cases hd; exact hdig
          · cases h

theorem start_ne {c x : Char} (hc : c = '-' ∨ c.isDigit = true)
    (hx : x ≠ '-' ∧ x.isDigit = false) : c ≠ x := by
  rintro rfl
  rcases hc with h | h
  · exact hx.1 h
  · rw [hx.2] at h; cases h

theorem start_not_ws {c : Char} (hc : c = '-' ∨ c.isDigit = true) : isWs c = false := by
  simp only [isWs, Bool.or_eq_false_iff, beq_eq_false_iff_ne]
  exact ⟨⟨⟨start_ne hc (by decide), start_ne hc (by decide)⟩, start_ne hc (by decide)⟩,
    start_ne hc (by decide)⟩

/-- The start of a number or of one of the three words. -/
def AtomStart (c : Char) : Prop := c = '-' ∨ c.isDigit = true ∨ c = 'N' ∨ c = 'I'

theorem atomStart_of_number {c : Char} (hc : c = '-' ∨ c.isDigit = true) : AtomStart c :=
  hc.elim .inl fun hd => .inr (.inl hd)

theorem AtomStart.ne {c x : Char} (hc : AtomStart c)
    (hx : x ≠ '-' ∧ x.isDigit = false ∧ x ≠ 'N' ∧ x ≠ 'I') : c ≠ x := by
  rintro rfl
  rcases hc with h | h | h | h
  · exact hx.1 h
  · rw [hx.2.1] at h; cases h
  · exact hx.2.2.1 h
  · exact hx.2.2.2 h

theorem AtomStart.not_ws {c : Char} (hc : AtomStart c) : isWs c = false := by
  simp only [isWs, Bool.or_eq_false_iff, beq_eq_false_iff_ne]
  exact ⟨⟨⟨hc.ne (by decide), hc.ne (by decide)⟩, hc.ne (by decide)⟩, hc.ne (by decide)⟩

theorem parseValue_atom {n : Nat} {c : Char} {t : List Char} (hc : AtomStart c) :
    parseValue (n + 1) (c :: t) = (parseNumber (c :: t)).or (parseConstant (c :: t)) := by
  have h1 : c ≠ '{' := hc.ne (by decide)
  have h2 : c ≠ '[' := hc.ne (by decide)
  have h3 : c ≠ '"' := hc.ne (by decide)
  have h4 : c ≠ 'n' := hc.ne (by decide)
  have h5 : c ≠ 't' := hc.ne (by decide)
  have h6 : c ≠ 'f' := hc.ne (by decide)
  rw [parseValue, skipWs_cons hc.not_ws]
  split <;> simp_all

theorem parseValue_number {n : Nat} {s r : List Char} {j : Json}
    (hs : ∃ c t, s = c :: t ∧ (c = '-' ∨ c.isDigit = true)) (h : parseNumber s = some (j, r)) :
    parseValue (n + 1) s = some (j, r) := by
  obtain ⟨c, t, rfl, hc⟩ := hs
  rw [parseValue_atom (atomStart_of_number hc), h, Option.some_or]

/-! ## Constants -/

theorem constant_head (c : Constant) : ∃ x t, c.text = x :: t ∧ AtomStart x := by
  cases c with
  | nan => exact ⟨'N', _, rfl, .inr (.inr (.inl rfl))⟩
  | infinity => exact ⟨'I', _, rfl, .inr (.inr (.inr rfl))⟩
  | negInfinity => exact ⟨'-', _, rfl, .inl rfl⟩

theorem parseConstant_text (c : Constant) (r : List Char) :
    parseConstant (c.text ++ r) = some (.constant c, r) := by
  cases c <;> rfl

/-- A word is no number: its number characters, if any, are a minus sign alone. -/
theorem parseNumber_constant (c : Constant) (r : List Char) : parseNumber (c.text ++ r) = none := by
  cases c <;> rfl

theorem parseConstant_eq_some {s r : List Char} {v : Json} (h : parseConstant s = some (v, r)) :
    ∃ c : Constant, s = c.text ++ r ∧ v = .constant c := by
  unfold parseConstant at h
  split at h
  · cases h; exact ⟨.nan, rfl, rfl⟩
  · cases h; exact ⟨.infinity, rfl, rfl⟩
  · cases h; exact ⟨.negInfinity, rfl, rfl⟩
  · cases h

theorem parseValue_constant {n : Nat} (c : Constant) (r : List Char) :
    parseValue (n + 1) (c.text ++ r) = some (.constant c, r) := by
  have hnum := parseNumber_constant c r
  have hread := parseConstant_text c r
  obtain ⟨x, t, hx, hstart⟩ := constant_head c
  rw [hx, List.cons_append] at hnum hread ⊢
  rw [parseValue_atom hstart, hnum, hread]
  rfl

theorem print_head (j : Json) : ∃ c t, print j = c :: t ∧ isWs c = false ∧ c ≠ ']' ∧ c ≠ '}' := by
  have hnum : ∀ t : List Char, (isFloatToken t = true ∨ ∃ z, intToken t = some z) →
      ∃ c ds, t = c :: ds ∧ isWs c = false ∧ c ≠ ']' ∧ c ≠ '}' := by
    intro t ht
    obtain ⟨c, ds, rfl, hc⟩ := number_head ht
    exact ⟨c, ds, rfl, start_not_ws hc, start_ne hc (by decide), start_ne hc (by decide)⟩
  cases j with
  | null => exact ⟨_, _, rfl, by decide⟩
  | bool b => cases b <;> exact ⟨_, _, rfl, by decide⟩
  | int z => exact hnum _ (.inr ⟨z, intToken_printInt z⟩)
  | float l => exact hnum _ (.inl l.ok)
  | constant c => cases c <;> exact ⟨_, _, rfl, by decide⟩
  | str s => exact ⟨_, _, rfl, by decide⟩
  | arr js => cases js <;> exact ⟨_, _, by rw [print], by decide⟩
  | obj ms => rcases ms with _ | ⟨⟨k, v⟩, ms⟩ <;> exact ⟨_, _, by rw [print], by decide⟩

/-- What the three parsers do on printed text with fuel `n`. -/
structure ReadsBack (n : Nat) : Prop where
  value : ∀ j r, (print j).length ≤ n → Delim j r → parseValue n (print j ++ r) = some (j, r)
  members : ∀ k v ms r, (printStr k ++ ':' :: (print v ++ printMembers ms)).length ≤ n →
    parseMembers n (printStr k ++ ':' :: (print v ++ (printMembers ms ++ r))) =
      some ((k, v) :: ms, r)
  items : ∀ j js r, (print j ++ printItems js).length ≤ n →
    parseItems n (print j ++ (printItems js ++ r)) = some (j :: js, r)

theorem readsBack_value {n : Nat} (ih : ReadsBack n) (j : Json) (r : List Char)
    (hn : (print j).length ≤ n + 1) (hd : Delim j r) :
    parseValue (n + 1) (print j ++ r) = some (j, r) := by
  cases j with
  | null => rfl
  | bool b => cases b <;> rfl
  | int z =>
    obtain ⟨c, ds, he, hc⟩ := number_head (.inr ⟨z, intToken_printInt z⟩)
    rw [print]
    exact parseValue_number ⟨c, ds ++ r, by rw [he, List.cons_append], hc⟩
      (parseNumber_int z (hd rfl))
  | float l =>
    obtain ⟨c, ds, he, hc⟩ := number_head (.inl l.ok)
    rw [print]
    exact parseValue_number ⟨c, ds ++ r, by rw [he, List.cons_append], hc⟩
      (parseNumber_float l (hd rfl))
  | constant c => exact parseValue_constant c r
  | str s =>
    simp only [print] at hn ⊢
    simp only [printStr, List.cons_append, List.append_assoc, List.nil_append]
    rw [parseValue, skipWs_cons (by decide)]
    simp [parseStr_printStr s r hn]
  | arr js =>
    cases js with
    | nil => rfl
    | cons j js =>
      simp only [print, List.cons_append, List.append_assoc, List.length_cons] at hn ⊢
      obtain ⟨c, t, hp, hw, hb, _⟩ := print_head j
      have h := ih.items j js r (by omega)
      rw [parseValue, skipWs_cons (by decide)]
      rw [hp, List.cons_append] at h ⊢
      simp only [skipWs_cons hw]
      split
      · simp_all
      · rw [h]
  | obj ms =>
    rcases ms with _ | ⟨⟨k, v⟩, ms⟩
    · rfl
    · simp only [print, List.cons_append, List.append_assoc, List.length_cons] at hn ⊢
      have h := ih.members k v ms r (by omega)
      rw [parseValue, skipWs_cons (by decide)]
      simp only [printStr, List.cons_append] at h ⊢
      simp only [skipWs_cons (c := '"') (by decide)]
      split
      · simp_all
      · rw [h]

theorem readsBack_members {n : Nat} (ih : ReadsBack n) (k : String) (v : Json)
    (ms : List (String × Json)) (r : List Char)
    (hn : (printStr k ++ ':' :: (print v ++ printMembers ms)).length ≤ n + 1) :
    parseMembers (n + 1) (printStr k ++ ':' :: (print v ++ (printMembers ms ++ r))) =
      some ((k, v) :: ms, r) := by
  rw [List.length_append, List.length_cons, List.length_append] at hn
  simp only [printStr, List.cons_append, List.append_assoc, List.nil_append]
  have hk := parseStr_printStr k (':' :: (print v ++ (printMembers ms ++ r))) (n := n) (by omega)
  have hv := ih.value v (printMembers ms ++ r) (by omega)
    (delim_of_numEnd v (numEnd_printMembers ms r))
  rw [parseMembers, skipWs_cons (by decide)]
  simp only [hk, skipWs_cons (c := ':') (by decide), hv]
  rcases ms with _ | ⟨⟨k', v'⟩, ms⟩
  · simp only [printMembers, List.cons_append, List.nil_append, skipWs_cons (c := '}') (by decide)]
    simp
  · simp only [printMembers, List.length_cons] at hn
    have h := ih.members k' v' ms r (by omega)
    simp only [printMembers, List.cons_append, List.append_assoc,
      skipWs_cons (c := ',') (by decide), h]
    simp

theorem readsBack_items {n : Nat} (ih : ReadsBack n) (j : Json) (js : List Json) (r : List Char)
    (hn : (print j ++ printItems js).length ≤ n + 1) :
    parseItems (n + 1) (print j ++ (printItems js ++ r)) = some (j :: js, r) := by
  rw [List.length_append] at hn
  cases js with
  | nil =>
    simp only [printItems, List.length_cons] at hn
    have hv := ih.value j (']' :: r) (by omega) (delim_of_numEnd j (numEnd_cons rfl))
    rw [parseItems]
    simp only [printItems, List.cons_append, List.nil_append, hv,
      skipWs_cons (c := ']') (by decide)]
  | cons j' js =>
    simp only [printItems, List.length_cons] at hn
    have hv := ih.value j (',' :: (print j' ++ (printItems js ++ r))) (by omega)
      (delim_of_numEnd j (numEnd_cons rfl))
    have h := ih.items j' js r (by omega)
    rw [parseItems]
    simp only [printItems, List.cons_append, List.append_assoc, hv,
      skipWs_cons (c := ',') (by decide), h]

theorem readsBack (n : Nat) : ReadsBack n := by
  induction n with
  | zero =>
    refine ⟨?_, ?_, ?_⟩
    · intro j r hn
      obtain ⟨c, t, hp, _⟩ := print_head j
      simp [hp] at hn
    · intro k v ms r hn; simp [printStr] at hn
    · intro j js r hn
      obtain ⟨c, t, hp, _⟩ := print_head j
      simp [hp] at hn
  | succ n ih => exact ⟨readsBack_value ih, readsBack_members ih, readsBack_items ih⟩

theorem parseValue_print (j : Json) (r : List Char) {n : Nat} (hn : (print j).length ≤ n)
    (hd : Delim j r) : parseValue n (print j ++ r) = some (j, r) :=
  (readsBack n).value j r hn hd

theorem parseDoc_print (j : Json) : parseDoc (print j) = some j := by
  have h := parseValue_print j [] (n := (print j).length + 1) (by omega)
    (delim_of_numEnd j numEnd_nil)
  rw [List.append_nil] at h
  simp [parseDoc, h]

/-! ## Reading on -/

theorem skipWs_append {s : List Char} {c : Char} {t : List Char} (z : List Char)
    (h : skipWs s = c :: t) : skipWs (s ++ z) = c :: (t ++ z) := by
  induction s with
  | nil => cases h
  | cons x xs ih =>
    simp only [skipWs, List.dropWhile_cons, List.cons_append] at h ih ⊢
    split at h
    · rw [if_pos ‹_›]; exact ih h
    · rw [if_neg ‹_›]; cases h; rfl

theorem hex4_append {s r : List Char} {u : Nat} (z : List Char) (h : hex4 s = some (u, r)) :
    hex4 (s ++ z) = some (u, r ++ z) := by
  unfold hex4 at h
  split at h
  · rename_i a b c d t
    simp only [List.cons_append, hex4]
    split at h
    · simp_all
    · cases h
  · cases h

theorem parseHex_append {s r : List Char} {c : Char} (z : List Char)
    (h : parseHex s = some (c, r)) : parseHex (s ++ z) = some (c, r ++ z) := by
  unfold parseHex at h ⊢
  split at h
  · cases h
  · rename_i u t hu
    rw [hex4_append z hu]
    simp only []
    split at h
    · rw [if_pos ‹_›]
      split at h
      · rename_i t'
        simp only [List.cons_append]
        split at h
        · cases h
        · rename_i v t'' hv
          rw [hex4_append z hv]
          simp only []
          split at h
          · rename_i hv'
            simp only [Option.some.injEq, Prod.mk.injEq] at h
            rw [if_pos hv', h.1, h.2]
          · cases h
      · cases h
    · rw [if_neg ‹_›]
      split at h
      · cases h
      · rename_i hl
        simp only [Option.some.injEq, Prod.mk.injEq] at h
        rw [if_neg hl, h.1, h.2]

theorem parseUnit_append {s r : List Char} {c : Char} (z : List Char)
    (h : parseUnit s = some (c, r)) : parseUnit (s ++ z) = some (c, r ++ z) := by
  unfold parseUnit at h
  split at h
  · cases h
  · rename_i t
    unfold parseEscape at h
    split at h
    · cases h; rfl
    · cases h; rfl
    · cases h; rfl
    · cases h; rfl
    · cases h; rfl
    · cases h; rfl
    · cases h; rfl
    · cases h; rfl
    · exact parseHex_append z h
    · cases h
  · rename_i x t hx
    split at h
    · cases h
    · rename_i hc
      cases h
      simp only [List.cons_append]
      rw [parseUnit]
      · rw [if_neg hc]
      · exact hx

theorem parseStr_append {n m : Nat} {s cs r : List Char} (z : List Char)
    (h : parseStr n s = some (cs, r)) (hm : n ≤ m) : parseStr m (s ++ z) = some (cs, r ++ z) := by
  induction n generalizing m s cs with
  | zero => cases h
  | succ n ih =>
    obtain ⟨m, rfl⟩ : ∃ k, m = k + 1 := ⟨m - 1, by omega⟩
    cases s with
    | nil => simp [parseStr, parseUnit] at h
    | cons x xs =>
      by_cases hx : x = '"'
      · subst hx
        simp only [parseStr, Option.some.injEq, Prod.mk.injEq] at h
        obtain ⟨rfl, rfl⟩ := h
        rfl
      · cases hu : parseUnit (x :: xs) with
        | none =>
          rw [parseStr, hu] at h
          · cases h
          · intro r hr; cases hr; exact hx rfl
        | some p =>
          obtain ⟨c, t⟩ := p
          rw [parseStr_unit hx hu, Option.map_eq_some_iff] at h
          obtain ⟨⟨cs', r'⟩, hp, he⟩ := h
          cases he
          have hu' := parseUnit_append z hu
          rw [List.cons_append] at hu' ⊢
          rw [parseStr_unit hx hu', ih hp (by omega)]
          rfl

theorem parseNumber_rest {s r : List Char} {v : Json} (h : parseNumber s = some (v, r)) :
    s.dropWhile numChar = r := by
  unfold parseNumber at h
  simp only [] at h
  split at h
  · cases h; rfl
  · split at h
    · cases h; rfl
    · cases h

theorem parseNumber_append {s r : List Char} {v : Json} (z : List Char)
    (h : parseNumber s = some (v, r)) (hr : r ≠ []) : parseNumber (s ++ z) = some (v, r ++ z) := by
  have hdrop := parseNumber_rest h
  have hend : NumEnd (r ++ z) := by
    cases r with
    | nil => exact absurd rfl hr
    | cons c t =>
      apply numEnd_cons
      have := List.head?_dropWhile_not numChar s
      rw [hdrop] at this
      simpa using this
  have htok : ∀ c ∈ s.takeWhile numChar, numChar c = true :=
    fun c hc => List.all_eq_true.mp List.all_takeWhile c hc
  have hs : s ++ z = s.takeWhile numChar ++ (r ++ z) := by
    rw [← List.append_assoc, ← hdrop, List.takeWhile_append_dropWhile]
  obtain ⟨ht, hd⟩ := span_numChar htok hend
  unfold parseNumber at h ⊢
  simp only [hs, ht, hd]
  simp only [hdrop] at h
  split at h
  · rw [dif_pos ‹_›]; cases h; rfl
  · rw [dif_neg ‹_›]
    split at h
    · cases h; rfl
    · cases h

theorem parseNumber_head {s r : List Char} {v : Json} (h : parseNumber s = some (v, r)) :
    (∃ c t, s = c :: t ∧ (c = '-' ∨ c.isDigit = true)) ∧ closed v = false := by
  have key : ∀ c ds, s.takeWhile numChar = c :: ds → ∃ t, s = c :: t := by
    intro c ds hs
    have := List.takeWhile_append_dropWhile (p := numChar) (l := s)
    rw [hs] at this
    exact ⟨_, this.symm⟩
  unfold parseNumber at h
  simp only [] at h
  split at h
  · rename_i hf
    obtain ⟨c, ds, hs, hc⟩ := number_head (.inl hf)
    obtain ⟨t, rfl⟩ := key c ds hs
    cases h
    exact ⟨⟨c, t, rfl, hc⟩, rfl⟩
  · split at h
    · rename_i z hz
      obtain ⟨c, ds, hs, hc⟩ := number_head (.inr ⟨z, hz⟩)
      obtain ⟨t, rfl⟩ := key c ds hs
      cases h
      exact ⟨⟨c, t, rfl, hc⟩, rfl⟩
    · cases h

theorem parseMembers_nil (n : Nat) : parseMembers n [] = none := by cases n <;> rfl

theorem parseValue_nil (n : Nat) : parseValue n [] = none := by cases n <;> rfl

theorem parseItems_nil (n : Nat) : parseItems n [] = none := by
  cases n with
  | zero => rfl
  | succ n => rw [parseItems, parseValue_nil]

/-- What the three parsers do with fuel `n` and more text behind. -/
structure ReadsOn (n : Nat) : Prop where
  value : ∀ s v r m z, parseValue n s = some (v, r) → n ≤ m → (r ≠ [] ∨ closed v = true) →
    parseValue m (s ++ z) = some (v, r ++ z)
  members : ∀ s ms r m z, parseMembers n s = some (ms, r) → n ≤ m →
    parseMembers m (s ++ z) = some (ms, r ++ z)
  items : ∀ s js r m z, parseItems n s = some (js, r) → n ≤ m →
    parseItems m (s ++ z) = some (js, r ++ z)

theorem readsOn_value {n : Nat} (ih : ReadsOn n) (s : List Char) (v : Json) (r : List Char)
    (m : Nat) (z : List Char) (h : parseValue (n + 1) s = some (v, r)) (hm : n + 1 ≤ m)
    (hc : r ≠ [] ∨ closed v = true) : parseValue m (s ++ z) = some (v, r ++ z) := by
  obtain ⟨m, rfl⟩ : ∃ k, m = k + 1 := ⟨m - 1, by omega⟩
  rw [parseValue] at h
  split at h
  · rename_i t hs
    rw [parseValue, skipWs_append z hs]
    simp only []
    split at h
    · rename_i t' ht
      rw [skipWs_append z ht]
      cases h; rfl
    · rename_i hne
      split at h
      · rename_i ms t' hms
        cases h
        cases ht : skipWs t with
        | nil => rw [ht, parseMembers_nil] at hms; cases hms
        | cons c t₁ =>
          have hon := ih.members _ _ _ m z hms (by omega)
          rw [ht, List.cons_append] at hon
          rw [skipWs_append z ht]
          split
          · rename_i he; cases he; exact absurd ht (hne _)
          · rw [hon]
      · cases h
  · rename_i t hs
    rw [parseValue, skipWs_append z hs]
    simp only []
    split at h
    · rename_i t' ht
      rw [skipWs_append z ht]
      cases h; rfl
    · rename_i hne
      split at h
      · rename_i js t' hjs
        cases h
        cases ht : skipWs t with
        | nil => rw [ht, parseItems_nil] at hjs; cases hjs
        | cons c t₁ =>
          have hon := ih.items _ _ _ m z hjs (by omega)
          rw [ht, List.cons_append] at hon
          rw [skipWs_append z ht]
          split
          · rename_i he; cases he; exact absurd ht (hne _)
          · rw [hon]
      · cases h
  · rename_i t hs
    rw [parseValue, skipWs_append z hs]
    simp only []
    split at h
    · rename_i cs t' ht
      cases h
      rw [parseStr_append z ht (by omega)]
    · cases h
  · rename_i hs; rw [parseValue, skipWs_append z hs]; cases h; rfl
  · rename_i hs; rw [parseValue, skipWs_append z hs]; cases h; rfl
  · rename_i hs; rw [parseValue, skipWs_append z hs]; cases h; rfl
  · rw [Option.or_eq_some_iff] at h
    rcases h with h | ⟨_, h⟩
    · obtain ⟨⟨c, t, hs, hstart⟩, hv⟩ := parseNumber_head h
      have hr : r ≠ [] := by
        rcases hc with hr | hc
        · exact hr
        · rw [hv] at hc; cases hc
      have hnum := parseNumber_append z h hr
      rw [hs, List.cons_append] at hnum
      have hread := parseValue_number (n := m) ⟨c, t ++ z, rfl, hstart⟩ hnum
      rw [← hread, parseValue, parseValue, skipWs_append z hs, skipWs_cons (start_not_ws hstart)]
    · obtain ⟨c, hs, rfl⟩ := parseConstant_eq_some h
      obtain ⟨x, t, hx, hstart⟩ := constant_head c
      have hread := parseValue_constant (n := m) c (r ++ z)
      rw [hx, List.cons_append] at hs hread
      rw [← hread, parseValue, parseValue, skipWs_append z hs, skipWs_cons hstart.not_ws,
        List.append_assoc]

theorem readsOn_members {n : Nat} (ih : ReadsOn n) (s : List Char) (ms : List (String × Json))
    (r : List Char) (m : Nat) (z : List Char) (h : parseMembers (n + 1) s = some (ms, r))
    (hm : n + 1 ≤ m) : parseMembers m (s ++ z) = some (ms, r ++ z) := by
  obtain ⟨m, rfl⟩ : ∃ k, m = k + 1 := ⟨m - 1, by omega⟩
  rw [parseMembers] at h ⊢
  split at h
  · rename_i t hs
    rw [skipWs_append z hs]
    simp only []
    split at h
    · cases h
    · rename_i k t₁ hk
      rw [parseStr_append z hk (show n ≤ m by omega)]
      simp only []
      split at h
      · rename_i t₂ ht₂
        rw [skipWs_append z ht₂]
        simp only []
        split at h
        · cases h
        · rename_i v t₃ hv
          split at h
          · rename_i t₄ ht₄
            have hne : t₃ ≠ [] := by rintro rfl; cases ht₄
            rw [ih.value _ _ _ m z hv (by omega) (.inl hne)]
            simp only [skipWs_append z ht₄]
            split at h
            · rename_i ms' t' hms
              cases h
              rw [ih.members _ _ _ m z hms (by omega)]
            · cases h
          · rename_i t₄ ht₄
            have hne : t₃ ≠ [] := by rintro rfl; cases ht₄
            rw [ih.value _ _ _ m z hv (by omega) (.inl hne)]
            simp only [skipWs_append z ht₄]
            cases h; rfl
          · cases h
      · cases h
  · cases h

theorem readsOn_items {n : Nat} (ih : ReadsOn n) (s : List Char) (js : List Json)
    (r : List Char) (m : Nat) (z : List Char) (h : parseItems (n + 1) s = some (js, r))
    (hm : n + 1 ≤ m) : parseItems m (s ++ z) = some (js, r ++ z) := by
  obtain ⟨m, rfl⟩ : ∃ k, m = k + 1 := ⟨m - 1, by omega⟩
  rw [parseItems] at h ⊢
  split at h
  · cases h
  · rename_i v t hv
    split at h
    · rename_i t' ht'
      have hne : t ≠ [] := by rintro rfl; cases ht'
      rw [ih.value _ _ _ m z hv (by omega) (.inl hne)]
      simp only [skipWs_append z ht']
      split at h
      · rename_i js' t'' hjs
        cases h
        rw [ih.items _ _ _ m z hjs (by omega)]
      · cases h
    · rename_i t' ht'
      have hne : t ≠ [] := by rintro rfl; cases ht'
      rw [ih.value _ _ _ m z hv (by omega) (.inl hne)]
      simp only [skipWs_append z ht']
      cases h; rfl
    · cases h

theorem readsOn (n : Nat) : ReadsOn n := by
  induction n with
  | zero => refine ⟨?_, ?_, ?_⟩ <;> (intro _ _ _ _ _ h; cases h)
  | succ n ih => exact ⟨readsOn_value ih, readsOn_members ih, readsOn_items ih⟩

theorem parseValue_append {n m : Nat} {s r : List Char} {v : Json} (z : List Char)
    (h : parseValue n s = some (v, r)) (hm : n ≤ m) (hc : r ≠ [] ∨ closed v = true) :
    parseValue m (s ++ z) = some (v, r ++ z) :=
  (readsOn n).value s v r m z h hm hc

end Json
end Wire
