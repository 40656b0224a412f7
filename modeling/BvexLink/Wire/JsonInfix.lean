import BvexLink.Wire.JsonRoundTrip

/-!
# BvexLink.Wire.JsonInfix

Where a document can be found inside a printed one.

* `parseDoc_stream`: at the start of a stream of printed values, the only prefix that is a
  complete document is the first value's text.
* `infix_lacks_key`: a run of characters that starts after the first one of a printed object and is
  itself an object has no member `k`, if no object nested in the printed one has and `k` is not
  spelt with punctuation only. Such a run starts either at a nested object, and is then that object
  (`parseValue_append`), or inside a string. In the second case the reader takes the quotes the
  wrong way round (`Inside`): every string it reads is the punctuation between two real strings.
-/

namespace Wire
namespace Json

/-! ## The first document of a stream -/

theorem parseValue_skipWs (n : Nat) (s : List Char) : parseValue n (skipWs s) = parseValue n s := by
  cases n with
  | zero => rfl
  | succ n =>
    have h : skipWs (skipWs s) = skipWs s := List.dropWhile_idempotent isWs s
    rw [parseValue, parseValue, h]

theorem parseDoc_eq_some {s : List Char} {j : Json} (h : parseDoc s = some j) :
    ∃ w, parseValue (s.length + 1) s = some (j, w) ∧ skipWs w = [] := by
  unfold parseDoc at h
  split at h
  · split at h
    · cases h; exact ⟨_, ‹_›, ‹_›⟩
    · cases h
  · cases h

/-- A value that starts a longer text and is followed there by `b` is what the longer text
starts with. -/
theorem parseValue_unique {n : Nat} {y w b r : List Char} {v j : Json}
    (h : parseValue n y = some (v, w)) (hv : closed v = true) (hj : closed j = true)
    (he : y ++ b = print j ++ r) : v = j ∧ w ++ b = r := by
  have h1 := parseValue_append b h (Nat.le_max_left n (print j).length) (.inr hv)
  have h2 := parseValue_print j r (Nat.le_max_right n (print j).length) (delim_of_closed r hj)
  rw [he, h2, Option.some.injEq, Prod.mk.injEq] at h1
  exact ⟨h1.1.symm, h1.2.symm⟩

theorem parseDoc_stream {y b r : List Char} {v j : Json} (h : parseDoc y = some v)
    (hv : closed v = true) (hj : closed j = true) (hr : ∀ c t, r = c :: t → isWs c = false)
    (he : y ++ b = print j ++ r) : y = print j ∧ v = j := by
  obtain ⟨w, hp, hw⟩ := parseDoc_eq_some h
  obtain ⟨rfl, hb⟩ := parseValue_unique hp hv hj he
  refine ⟨?_, rfl⟩
  cases w with
  | nil =>
    subst hb
    exact List.append_cancel_right he
  | cons c t =>
    have hc := hr c (t ++ b) hb.symm
    rw [skipWs_cons hc] at hw
    cases hw

/-! ## Texts between and inside strings -/

/-- A character printed outside strings. -/
def structural (c : Char) : Bool :=
  numChar c || ['{', '}', '[', ']', ':', ',', 'n', 'u', 'l', 't', 'r', 'f', 'a', 's', 'N', 'I', 'i',
    'y'].contains c

theorem structural_plain {c : Char} (h : structural c = true) :
    c ≠ '"' ∧ c ≠ '\\' ∧ ¬ c.toNat < 32 := by
  simp only [structural, numChar, Bool.or_eq_true, beq_iff_eq, List.contains_iff_mem,
    List.mem_cons, List.not_mem_nil, or_false] at h
  rcases h with (((((h | rfl) | rfl) | rfl) | rfl) | rfl) | h
  · refine ⟨?_, ?_, ?_⟩
    · rintro rfl; revert h; decide
    · rintro rfl; revert h; decide
    · simp only [Char.isDigit, Bool.and_eq_true, decide_eq_true_eq] at h
      have := h.1
      intro hlt
      have h48 : 48 ≤ c.toNat := this
      omega
  · decide
  · decide
  · decide
  · decide
  · decide
  · rcases h with rfl | rfl | rfl | rfl | rfl | rfl | rfl | rfl | rfl | rfl | rfl | rfl | rfl | rfl |
      rfl | rfl | rfl | rfl <;> decide

/-- Structural characters and whole printed strings. -/
inductive Struct : List Char → Prop where
  | nil : Struct []
  | char {c : Char} {t : List Char} : structural c = true → Struct t → Struct (c :: t)
  | str (s : List Char) {t : List Char} : Struct t → Struct ('"' :: (escChars s ++ '"' :: t))

theorem Struct.chars {l t : List Char} (hl : ∀ c ∈ l, structural c = true) (ht : Struct t) :
    Struct (l ++ t) := by
  induction l with
  | nil => exact ht
  | cons c l ih => exact .char (hl c (by simp)) (ih fun x hx => hl x (by simp [hx]))

theorem Struct.printStr {s : String} {t : List Char} (ht : Struct t) :
    Struct (printStr s ++ t) := by
  simpa [Json.printStr] using Struct.str s.toList ht

theorem structural_of_numChar {c : Char} (h : numChar c = true) : structural c = true := by
  simp [structural, h]

theorem structural_of_constant (k : Constant) : ∀ c ∈ k.text, structural c = true := by
  cases k <;> simp [Constant.text, structural, numChar]

mutual
theorem struct_print : ∀ (j : Json) {r : List Char}, Struct r → Struct (print j ++ r)
  | .null, _, hr => .char rfl (.char rfl (.char rfl (.char rfl hr)))
  | .bool true, _, hr => .char rfl (.char rfl (.char rfl (.char rfl hr)))
  | .bool false, _, hr => .char rfl (.char rfl (.char rfl (.char rfl (.char rfl hr))))
  | .int z, _, hr => .chars (fun c hc => structural_of_numChar (printInt_numChar z c hc)) hr
  | .float l, _, hr => .chars (fun c hc => structural_of_numChar (float_numChar l c hc)) hr
  | .constant k, _, hr => .chars (structural_of_constant k) hr
  | .str _, _, hr => .printStr hr
  | .arr [], _, hr => .char rfl (.char rfl hr)
  | .arr (j :: js), r, hr => by
    have := struct_print j (struct_printItems js hr)
    simpa [print] using Struct.char (c := '[') rfl this
  | .obj [], _, hr => .char rfl (.char rfl hr)
  | .obj ((k, v) :: ms), r, hr => by
    have := struct_print v (struct_printMembers ms hr)
    simpa [print] using
      Struct.char (c := '{') rfl (Struct.printStr (s := k) (Struct.char (c := ':') rfl this))
theorem struct_printItems : ∀ (js : List Json) {r : List Char}, Struct r →
    Struct (printItems js ++ r)
  | [], _, hr => .char rfl hr
  | j :: js, r, hr => by
    have := struct_print j (struct_printItems js hr)
    simpa [printItems] using Struct.char (c := ',') rfl this
theorem struct_printMembers : ∀ (ms : List (String × Json)) {r : List Char}, Struct r →
    Struct (printMembers ms ++ r)
  | [], _, hr => .char rfl hr
  | (k, v) :: ms, r, hr => by
    have := struct_print v (struct_printMembers ms hr)
    simpa [printMembers] using
      Struct.char (c := ',') rfl (Struct.printStr (s := k) (Struct.char (c := ':') rfl this))
end

/-- `y` starts inside a string of a printed text, between two characters of it. -/
def Inside (y : List Char) : Prop :=
  ∃ s t b, y ++ b = escChars s ++ '"' :: t ∧ Struct t

theorem escChar_cases (c : Char) : escChar c = [c] ∨ ∃ xs, escChar c = '\\' :: xs := by
  unfold escChar
  repeat' split
  all_goals first | exact .inl rfl | exact .inr ⟨_, rfl⟩

theorem Inside.tail {c : Char} {y : List Char} (h : Inside (c :: y)) (hq : c ≠ '"')
    (hb : c ≠ '\\') : Inside y := by
  obtain ⟨s, t, b, he, ht⟩ := h
  cases s with
  | nil =>
    simp only [escChars, List.flatMap_nil, List.nil_append, List.cons_append, List.cons.injEq] at he
    exact absurd he.1 hq
  | cons d s =>
    rcases escChar_cases d with hd | ⟨xs, hd⟩
    · simp only [escChars, List.flatMap_cons, hd, List.cons_append, List.nil_append,
        List.cons.injEq] at he
      exact ⟨s, t, b, he.2, ht⟩
    · simp only [escChars, List.flatMap_cons, hd, List.cons_append, List.cons.injEq] at he
      exact absurd he.1 hb

theorem Inside.dropWhile {p : Char → Bool} {y : List Char} (h : Inside y)
    (hp : ∀ c, p c = true → c ≠ '"' ∧ c ≠ '\\') : Inside (y.dropWhile p) := by
  induction y with
  | nil => exact h
  | cons c y ih =>
    rw [List.dropWhile_cons]
    split
    · rename_i hc
      exact ih (h.tail (hp c hc).1 (hp c hc).2)
    · exact h

theorem isWs_plain (c : Char) (h : isWs c = true) : c ≠ '"' ∧ c ≠ '\\' := by
  constructor <;> (rintro rfl; revert h; decide)

theorem Inside.skipWs {y : List Char} (h : Inside y) : Inside (skipWs y) := h.dropWhile isWs_plain

theorem Inside.number {y : List Char} (h : Inside y) : Inside (y.dropWhile numChar) := by
  apply h.dropWhile
  intro c hc
  have := structural_plain (structural_of_numChar hc)
  exact ⟨this.1, this.2.1⟩

theorem parseUnit_plain {c : Char} {t : List Char} (h : structural c = true) :
    parseUnit (c :: t) = some (c, t) := by
  obtain ⟨_, hb, hc⟩ := structural_plain h
  rw [parseUnit]
  · rw [if_neg hc]
  · exact hb

/-- Reading a string in the punctuation after a real one: it ends where the next one starts. -/
theorem parseStr_struct {t : List Char} (ht : Struct t) :
    ∀ {n : Nat} {y b k r : List Char}, y ++ b = t → parseStr n y = some (k, r) →
      Inside r ∧ ∀ c ∈ k, structural c = true := by
  induction ht with
  | nil =>
    intro n y b k r he h
    have hy : y = [] := by simp_all
    subst hy
    cases n <;> simp [parseStr, parseUnit] at h
  | @char c t hc _ ih =>
    intro n y b k r he h
    cases n with
    | zero => cases h
    | succ n =>
      cases y with
      | nil => simp [parseStr, parseUnit] at h
      | cons x y =>
        simp only [List.cons_append, List.cons.injEq] at he
        obtain ⟨rfl, he⟩ := he
        rw [parseStr_unit (structural_plain hc).1 (parseUnit_plain hc), Option.map_eq_some_iff] at h
        obtain ⟨⟨k', r'⟩, hp, hk⟩ := h
        cases hk
        obtain ⟨hr, hk'⟩ := ih he hp
        refine ⟨hr, ?_⟩
        intro d hd
        rcases List.mem_cons.mp hd with rfl | hd
        · exact hc
        · exact hk' d hd
  | @str s t ht _ =>
    intro n y b k r he h
    cases n with
    | zero => cases h
    | succ n =>
      cases y with
      | nil => simp [parseStr, parseUnit] at h
      | cons x y =>
        simp only [List.cons_append, List.cons.injEq] at he
        obtain ⟨rfl, he⟩ := he
        simp only [parseStr, Option.some.injEq, Prod.mk.injEq] at h
        obtain ⟨rfl, rfl⟩ := h
        exact ⟨⟨s, t, b, he, ht⟩, by simp⟩

theorem Inside.string {n : Nat} {y k r : List Char} (h : Inside ('"' :: y))
    (hp : parseStr n y = some (k, r)) : Inside r ∧ ∀ c ∈ k, structural c = true := by
  obtain ⟨s, t, b, he, ht⟩ := h
  cases s with
  | nil =>
    simp only [escChars, List.flatMap_nil, List.nil_append, List.cons_append, List.cons.injEq,
      true_and] at he
    exact parseStr_struct ht he hp
  | cons d s =>
    obtain ⟨x, xs, hx, hne⟩ := escChar_head d
    simp only [escChars, List.flatMap_cons, hx, List.cons_append, List.cons.injEq] at he
    exact absurd he.1.symm hne

/-- Every key is spelt with structural characters only. -/
def KeysStructural (ms : List (String × Json)) : Prop :=
  ∀ m ∈ ms, ∀ c ∈ m.1.toList, structural c = true

/-- What the three parsers do inside a string, with fuel `n`. -/
structure StaysInside (n : Nat) : Prop where
  value : ∀ y v r, Inside y → parseValue n y = some (v, r) →
    Inside r ∧ ∀ ms, v = .obj ms → KeysStructural ms
  members : ∀ y ms r, Inside y → parseMembers n y = some (ms, r) → Inside r ∧ KeysStructural ms
  items : ∀ y js r, Inside y → parseItems n y = some (js, r) → Inside r

theorem Inside.drop_append {l y : List Char} (h : Inside (l ++ y))
    (hl : ∀ c ∈ l, c ≠ '"' ∧ c ≠ '\\') : Inside y := by
  induction l with
  | nil => exact h
  | cons c l ih =>
    obtain ⟨hq, hb⟩ := hl c (List.mem_cons_self ..)
    exact ih (Inside.tail h hq hb) fun x hx => hl x (List.mem_cons_of_mem _ hx)

/-- After blanks and a literal. -/
theorem Inside.drop_literal {y t : List Char} (l : List Char) (h : Inside y)
    (hs : Json.skipWs y = l ++ t) (hl : ∀ c ∈ l, c ≠ '"' ∧ c ≠ '\\') : Inside t := by
  have hi := h.skipWs
  rw [hs] at hi
  exact hi.drop_append hl

theorem Inside.drop_head {y t : List Char} {c : Char} (h : Inside y) (hs : Json.skipWs y = c :: t)
    (hc : c ≠ '"' ∧ c ≠ '\\') : Inside t :=
  h.drop_literal [c] hs (by simpa using hc)

theorem staysInside_value {n : Nat} (ih : StaysInside n) (y : List Char) (v : Json)
    (r : List Char) (hy : Inside y) (h : parseValue (n + 1) y = some (v, r)) :
    Inside r ∧ ∀ ms, v = .obj ms → KeysStructural ms := by
  rw [parseValue] at h
  split at h
  · rename_i t hs
    have ht : Inside t := hy.drop_head hs (by decide)
    split at h
    · rename_i t' ht'
      cases h
      refine ⟨ht.drop_head ht' (by decide), ?_⟩
      intro ms hms; cases hms
      intro m hm; cases hm
    · split at h
      · rename_i ms t' hms
        cases h
        obtain ⟨hr, hk⟩ := ih.members _ _ _ ht.skipWs hms
        refine ⟨hr, ?_⟩
        intro ms' he; cases he
        exact hk
      · cases h
  · rename_i t hs
    have ht : Inside t := hy.drop_head hs (by decide)
    split at h
    · rename_i t' ht'
      cases h
      exact ⟨ht.drop_head ht' (by decide), fun _ he => by cases he⟩
    · split at h
      · rename_i js t' hjs
        cases h
        exact ⟨ih.items _ _ _ ht.skipWs hjs, fun _ he => by cases he⟩
      · cases h
  · rename_i t hs
    have ht := hy.skipWs
    rw [hs] at ht
    split at h
    · rename_i cs t' hcs
      cases h
      exact ⟨(ht.string hcs).1, fun _ he => by cases he⟩
    · cases h
  · rename_i hs
    cases h
    exact ⟨hy.drop_literal ['n', 'u', 'l', 'l'] hs (by simp), fun _ he => by cases he⟩
  · rename_i hs
    cases h
    exact ⟨hy.drop_literal ['t', 'r', 'u', 'e'] hs (by simp), fun _ he => by cases he⟩
  · rename_i hs
    cases h
    exact ⟨hy.drop_literal ['f', 'a', 'l', 's', 'e'] hs (by simp), fun _ he => by cases he⟩
  · rw [Option.or_eq_some_iff] at h
    rcases h with h | ⟨_, h⟩
    · have hv := (parseNumber_head h).2
      have hr : (skipWs y).dropWhile numChar = r := parseNumber_rest h
      refine ⟨hr ▸ hy.skipWs.number, ?_⟩
      rintro ms rfl
      cases hv
    · obtain ⟨c, hs, rfl⟩ := parseConstant_eq_some h
      have hc : ∀ x ∈ c.text, x ≠ '"' ∧ x ≠ '\\' := fun x hx =>
        have hplain := structural_plain (structural_of_constant c x hx)
        ⟨hplain.1, hplain.2.1⟩
      exact ⟨hy.drop_literal c.text hs hc, fun _ he => by cases he⟩

theorem staysInside_members {n : Nat} (ih : StaysInside n) (y : List Char)
    (ms : List (String × Json)) (r : List Char) (hy : Inside y)
    (h : parseMembers (n + 1) y = some (ms, r)) : Inside r ∧ KeysStructural ms := by
  rw [parseMembers] at h
  split at h
  · rename_i t hs
    have ht := hy.skipWs
    rw [hs] at ht
    split at h
    · cases h
    · rename_i k t₁ hk
      obtain ⟨ht₁, hkeys⟩ := ht.string hk
      split at h
      · rename_i t₂ ht₂
        have hi₂ : Inside t₂ := ht₁.drop_head ht₂ (by decide)
        split at h
        · cases h
        · rename_i v t₃ hv
          have hi₃ := (ih.value _ _ _ hi₂ hv).1
          split at h
          · rename_i t₄ ht₄
            have hi₄ : Inside t₄ := hi₃.drop_head ht₄ (by decide)
            split at h
            · rename_i ms' t' hms
              cases h
              obtain ⟨hr, hks⟩ := ih.members _ _ _ hi₄ hms
              refine ⟨hr, ?_⟩
              intro m hm
              rcases List.mem_cons.mp hm with rfl | hm
              · simpa using hkeys
              · exact hks m hm
            · cases h
          · rename_i t₄ ht₄
            cases h
            refine ⟨hi₃.drop_head ht₄ (by decide), ?_⟩
            intro m hm
            rcases List.mem_cons.mp hm with rfl | hm
            · simpa using hkeys
            · cases hm
          · cases h
      · cases h
  · cases h

theorem staysInside_items {n : Nat} (ih : StaysInside n) (y : List Char) (js : List Json)
    (r : List Char) (hy : Inside y) (h : parseItems (n + 1) y = some (js, r)) : Inside r := by
  rw [parseItems] at h
  split at h
  · cases h
  · rename_i v t hv
    have ht := (ih.value _ _ _ hy hv).1
    split at h
    · rename_i t' ht'
      split at h
      · rename_i js' t'' hjs
        cases h
        exact ih.items _ _ _ (ht.drop_head ht' (by decide)) hjs
      · cases h
    · rename_i t' ht'
      cases h
      exact ht.drop_head ht' (by decide)
    · cases h

theorem staysInside (n : Nat) : StaysInside n := by
  induction n with
  | zero => refine ⟨?_, ?_, ?_⟩ <;> (intro _ _ _ _ h; cases h)
  | succ n ih => exact ⟨staysInside_value ih, staysInside_members ih, staysInside_items ih⟩

/-! ## Where an object can start in a printed value -/

mutual
/-- No object in the value, at any depth, has a member `k`. -/
def lacksKey (k : String) : Json → Bool
  | .arr js => lacksKeyItems k js
  | .obj ms => lacksKeyMembers k ms
  | _ => true
def lacksKeyItems (k : String) : List Json → Bool
  | [] => true
  | j :: js => lacksKey k j && lacksKeyItems k js
def lacksKeyMembers (k : String) : List (String × Json) → Bool
  | [] => true
  | (k', v) :: ms => k' != k && (lacksKey k v && lacksKeyMembers k ms)
end

theorem lacksKeyMembers_mem {k : String} {ms : List (String × Json)}
    (h : lacksKeyMembers k ms = true) : ∀ m ∈ ms, m.1 ≠ k ∧ lacksKey k m.2 = true := by
  induction ms with
  | nil => intro m hm; cases hm
  | cons m ms ih =>
    obtain ⟨k', v⟩ := m
    simp only [lacksKeyMembers, Bool.and_eq_true, bne_iff_ne] at h
    intro m hm
    rcases List.mem_cons.mp hm with rfl | hm
    · exact ⟨h.1, h.2.1⟩
    · exact ih h.2.2 m hm

/-- A text that starts with a printed object without `k`, or inside a string. -/
def Opens (k : String) (s : List Char) : Prop :=
  (∃ ms r, lacksKeyMembers k ms = true ∧ s = print (.obj ms) ++ r) ∨ Inside s

theorem occ_append {x y a e : List Char} {c : Char} (h : x ++ y = a ++ c :: e) :
    (∃ e', x = a ++ c :: e' ∧ e = e' ++ y) ∨ (∃ a', a = x ++ a' ∧ y = a' ++ c :: e) := by
  rw [List.append_eq_append_iff] at h
  rcases h with ⟨a', ha, hy⟩ | ⟨c', hx, hc⟩
  · exact .inr ⟨a', ha, hy⟩
  · cases c' with
    | nil => exact .inr ⟨[], by simpa using hx.symm, hc.symm⟩
    | cons d ds =>
      rw [List.cons_append, List.cons.injEq] at hc
      obtain ⟨rfl, rfl⟩ := hc
      exact .inl ⟨ds, hx, rfl⟩

theorem hexDigit_ne : ∀ d, d < 16 → hexDigit d ≠ '{' := by decide

theorem escChar_brace {c : Char} (h : '{' ∈ escChar c) : c = '{' := by
  unfold escChar at h
  repeat' split at h
  all_goals try (simp at h; done)
  · rename_i hc
    simp only [List.mem_cons, Char.reduceEq, List.not_mem_nil, false_or, or_false] at h
    rcases h with h | h
    · exact absurd h.symm (hexDigit_ne _ (by omega))
    · exact absurd h.symm (hexDigit_ne _ (by omega))
  · exact (List.mem_singleton.mp h).symm

theorem escChars_occ {s a e : List Char} (h : escChars s = a ++ '{' :: e) :
    ∃ s', '{' :: e = escChars s' := by
  induction s generalizing a with
  | nil => simp [escChars] at h
  | cons c s ih =>
    rw [escChars, List.flatMap_cons] at h
    rcases occ_append h with ⟨e', hc, he⟩ | ⟨a', _, hs⟩
    · have hb : c = '{' := escChar_brace (by rw [hc]; simp)
      subst hb
      have ha : a = [] ∧ e' = [] := by
        have : escChar '{' = ['{'] := rfl
        rw [this] at hc
        cases a with
        | nil => simp at hc; exact ⟨rfl, hc⟩
        | cons x a => simp at hc
      obtain ⟨rfl, rfl⟩ := ha
      exact ⟨'{' :: s, by rw [escChars, List.flatMap_cons, he]; rfl⟩
    · exact ih hs

/-- Every brace in `x` is one that opens. -/
def OpensIn (k : String) (x : List Char) : Prop :=
  ∀ a e r, Struct r → x = a ++ '{' :: e → Opens k ('{' :: (e ++ r))

theorem OpensIn.append {k : String} {x y : List Char} (hx : OpensIn k x) (hy : OpensIn k y)
    (hs : ∀ r, Struct r → Struct (y ++ r)) : OpensIn k (x ++ y) := by
  intro a e r hr h
  rcases occ_append h with ⟨e', hx', rfl⟩ | ⟨a', _, hy'⟩
  · rw [List.append_assoc]
    exact hx a e' (y ++ r) (hs r hr) hx'
  · exact hy a' e r hr hy'

theorem OpensIn.cons {k : String} {x : List Char} {c : Char} (hc : c ≠ '{') (hx : OpensIn k x) :
    OpensIn k (c :: x) := by
  intro a e r hr h
  cases a with
  | nil => rw [List.nil_append, List.cons.injEq] at h; exact absurd h.1 hc
  | cons d a =>
    rw [List.cons_append, List.cons.injEq] at h
    exact hx a e r hr h.2

theorem OpensIn.of_not_mem {k : String} {x : List Char} (hx : '{' ∉ x) : OpensIn k x := by
  intro a e r _ h
  subst h; simp at hx

theorem OpensIn.numChars {k : String} {x : List Char} (h : ∀ c ∈ x, numChar c = true) :
    OpensIn k x := by
  apply OpensIn.of_not_mem
  intro hx
  have := h _ hx
  revert this; decide

theorem opensIn_printStr (k s : String) : OpensIn k (printStr s) := by
  refine .cons (by decide) ?_
  intro a e r hr h
  rcases occ_append h with ⟨e', hs, he⟩ | ⟨a', _, hq⟩
  · obtain ⟨s', hs'⟩ := escChars_occ hs
    refine .inr ⟨s', r, [], ?_, hr⟩
    rw [List.append_nil, he, ← hs']
    simp
  · cases a' with
    | nil => simp at hq
    | cons x a' => simp at hq

theorem opensIn_member {k : String} {v : Json} {ms : List (String × Json)} (k' : String)
    (hv : OpensIn k (print v)) (hms : OpensIn k (printMembers ms)) :
    OpensIn k (printStr k' ++ ':' :: (print v ++ printMembers ms)) := by
  have ht : ∀ r, Struct r → Struct (print v ++ printMembers ms ++ r) := by
    intro r hr
    rw [List.append_assoc]
    exact struct_print v (struct_printMembers ms hr)
  refine (opensIn_printStr k k').append (.cons (by decide) (hv.append hms ?_)) ?_
  · exact fun r hr => struct_printMembers ms hr
  · exact fun r hr => .char rfl (ht r hr)

mutual
theorem opensIn_print : ∀ (k : String) (j : Json), lacksKey k j = true → OpensIn k (print j)
  | _, .null, _ => .of_not_mem (by decide)
  | _, .bool true, _ => .of_not_mem (by decide)
  | _, .bool false, _ => .of_not_mem (by decide)
  | _, .int z, _ => .numChars (printInt_numChar z)
  | _, .float l, _ => .numChars (float_numChar l)
  | _, .constant c, _ => .of_not_mem (by cases c <;> decide)
  | k, .str s, _ => opensIn_printStr k s
  | _, .arr [], _ => .of_not_mem (by decide)
  | k, .arr (j :: js), hl => by
    simp only [lacksKey, lacksKeyItems, Bool.and_eq_true] at hl
    rw [print]
    exact .cons (by decide) ((opensIn_print k j hl.1).append (opensIn_printItems k js hl.2)
      fun r hr => struct_printItems js hr)
  | k, .obj [], hl => by
    intro a e r hr h
    cases a with
    | nil =>
      rw [List.nil_append] at h
      exact .inl ⟨[], r, rfl, by rw [h]; rfl⟩
    | cons x a =>
      rcases a with _ | ⟨x', a⟩ <;> simp [print] at h
  | k, .obj ((k', v) :: ms), hl => by
    have hl' : lacksKeyMembers k ((k', v) :: ms) = true := hl
    simp only [lacksKey, lacksKeyMembers, Bool.and_eq_true] at hl
    have hm := opensIn_member k' (opensIn_print k v hl.2.1)
      (opensIn_printMembers k ms fun m hm => (lacksKeyMembers_mem hl.2.2 m hm).2)
    intro a e r hr h
    cases a with
    | nil =>
      rw [List.nil_append] at h
      exact .inl ⟨_, r, hl', by rw [h]; rfl⟩
    | cons x a =>
      rw [print, List.cons_append, List.cons.injEq] at h
      exact hm a e r hr h.2
theorem opensIn_printItems : ∀ (k : String) (js : List Json), lacksKeyItems k js = true →
    OpensIn k (printItems js)
  | _, [], _ => .of_not_mem (by decide)
  | k, j :: js, hl => by
    simp only [lacksKeyItems, Bool.and_eq_true] at hl
    rw [printItems]
    exact .cons (by decide) ((opensIn_print k j hl.1).append (opensIn_printItems k js hl.2)
      fun r hr => struct_printItems js hr)
theorem opensIn_printMembers : ∀ (k : String) (ms : List (String × Json)),
    (∀ m ∈ ms, lacksKey k m.2 = true) → OpensIn k (printMembers ms)
  | _, [], _ => .of_not_mem (by decide)
  | k, (k', v) :: ms, hl => by
    rw [printMembers]
    exact .cons (by decide) (opensIn_member k' (opensIn_print k v (hl (k', v) (by simp)))
      (opensIn_printMembers k ms fun m hm => hl m (by simp [hm])))
end

/-- The braces of a printed object after the first one. -/
theorem opensIn_tail {k : String} {ms : List (String × Json)} {t : List Char}
    (hl : ∀ m ∈ ms, lacksKey k m.2 = true) (ht : print (.obj ms) = '{' :: t) : OpensIn k t := by
  rcases ms with _ | ⟨⟨k', v⟩, ms⟩
  · rw [print, List.cons.injEq] at ht
    rw [← ht.2]
    exact .of_not_mem (by decide)
  · rw [print, List.cons.injEq] at ht
    rw [← ht.2]
    exact opensIn_member k' (opensIn_print k v (hl (k', v) (by simp)))
      (opensIn_printMembers k ms fun m hm => hl m (by simp [hm]))

theorem parseValue_obj_head {n : Nat} {s r : List Char} {ms : List (String × Json)}
    (h : parseValue n s = some (.obj ms, r)) : ∃ t, skipWs s = '{' :: t := by
  cases n with
  | zero => cases h
  | succ n =>
    rw [parseValue] at h
    split at h
    · exact ⟨_, ‹_›⟩
    · split at h
      · cases h
      · split at h <;> cases h
    · split at h <;> cases h
    · cases h
    · cases h
    · cases h
    · rw [Option.or_eq_some_iff] at h
      rcases h with h | ⟨_, h⟩
      · have := (parseNumber_head h).2
        cases this
      · obtain ⟨_, _, hv⟩ := parseConstant_eq_some h
        cases hv

theorem infix_lacks_key {k : String} {ms ms' : List (String × Json)} {a y b : List Char}
    (hl : ∀ m ∈ ms, lacksKey k m.2 = true) (hk : ∃ c ∈ k.toList, structural c = false)
    (ha : a ≠ []) (h : print (.obj ms) = a ++ y ++ b) (hp : parseDoc y = some (.obj ms')) :
    ∀ m ∈ ms', m.1 ≠ k := by
  obtain ⟨w, hv, _⟩ := parseDoc_eq_some hp
  obtain ⟨t, ht⟩ := parseValue_obj_head hv
  rw [← parseValue_skipWs, ht] at hv
  have hy : y = y.takeWhile isWs ++ '{' :: t := by
    rw [← ht, skipWs, List.takeWhile_append_dropWhile]
  have hopens : Opens k ('{' :: (t ++ b ++ [])) := by
    cases a with
    | nil => exact absurd rfl ha
    | cons x a =>
      have hx : x = '{' := by
        rcases ms with _ | ⟨⟨k', v⟩, ms⟩ <;>
          (rw [print, List.cons_append, List.cons_append, List.cons.injEq] at h; exact h.1.symm)
      subst hx
      refine opensIn_tail hl (t := a ++ y ++ b) h (a ++ y.takeWhile isWs) (t ++ b) [] .nil ?_
      conv_lhs => rw [hy]
      simp
  rw [List.append_nil, ← List.cons_append] at hopens
  rcases hopens with ⟨mo, r, hlo, he⟩ | hin
  · have hmo := (parseValue_unique hv rfl rfl he).1
    cases hmo
    exact fun m hm => (lacksKeyMembers_mem hlo m hm).1
  · obtain ⟨s, u, b', he, hu⟩ := hin
    have hin' : Inside ('{' :: t) := ⟨s, u, b ++ b', by rw [← he, List.append_assoc], hu⟩
    have hkeys := ((staysInside _).value _ _ _ hin' hv).2 ms' rfl
    obtain ⟨c, hc, hcs⟩ := hk
    rintro m hm rfl
    rw [hkeys m hm c hc] at hcs
    cases hcs

end Json
end Wire
