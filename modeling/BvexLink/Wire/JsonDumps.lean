import BvexLink.Wire.JsonRoundTrip
import BvexLink.Wire.Utf16

/-!
# BvexLink.Wire.JsonDumps

`json.dumps` as Python has it by default: a comma and a colon are followed by a space, and a
character outside printable ASCII is escaped, one above U+FFFF as two units.

* `dumps_ascii`, `length_encode_dumps`: the text is ASCII, so its characters count its bytes.
* `length_dumps_arr`: the length of an array from the lengths of its items.
-/

namespace Wire

theorem Utf8.length_encode_ascii {s : String} (h : ∀ c ∈ s.toList, c.toNat < 128) :
    (Utf8.encode s).length = s.length := by
  have hchar : ∀ c ∈ s.toList, (String.utf8EncodeChar c).length = 1 := by
    intro c hc
    rw [String.length_utf8EncodeChar, Char.utf8Size_eq_one_iff, UInt32.le_iff_toNat_le]
    exact Nat.le_of_lt_succ (h c hc)
  rw [Utf8.encode, Utf8.encodeChars, ← String.length_toList]
  generalize s.toList = cs at hchar
  induction cs with
  | nil => rfl
  | cons c cs ih =>
    rw [List.flatMap_cons, List.length_append, hchar c (List.mem_cons_self ..),
      ih fun d hd => hchar d (List.mem_cons_of_mem _ hd), List.length_cons, Nat.add_comm]

namespace Json

/-! ## The printer -/

def unicodeEscape (u : UInt16) : List Char :=
  ['\\', 'u', hexDigit (u.toNat / 4096), hexDigit (u.toNat / 256 % 16),
    hexDigit (u.toNat / 16 % 16), hexDigit (u.toNat % 16)]

/-- `ensure_ascii` -/
def asciiChar (c : Char) : List Char :=
  if c.toNat < 127 then escChar c else (Utf16.encodeChar c).flatMap unicodeEscape

def asciiStr (s : String) : List Char := '"' :: (s.toList.flatMap asciiChar ++ ['"'])

mutual
def dumpsValue : Json → List Char
  | .null => ['n', 'u', 'l', 'l']
  | .bool true => ['t', 'r', 'u', 'e']
  | .bool false => ['f', 'a', 'l', 's', 'e']
  | .int z => printInt z
  | .float l => l.text
  | .constant c => c.text
  | .str s => asciiStr s
  | .arr [] => ['[', ']']
  | .arr (j :: js) => '[' :: (dumpsValue j ++ dumpsItems js)
  | .obj [] => ['{', '}']
  | .obj ((k, v) :: ms) => '{' :: (asciiStr k ++ ':' :: ' ' :: (dumpsValue v ++ dumpsMembers ms))
/-- The items after the first and the closing bracket. -/
def dumpsItems : List Json → List Char
  | [] => [']']
  | j :: js => ',' :: ' ' :: (dumpsValue j ++ dumpsItems js)
/-- The members after the first and the closing brace. -/
def dumpsMembers : List (String × Json) → List Char
  | [] => ['}']
  | (k, v) :: ms =>
    ',' :: ' ' :: (asciiStr k ++ ':' :: ' ' :: (dumpsValue v ++ dumpsMembers ms))
end

/-- `json.dumps` -/
def dumps (j : Json) : String := String.ofList (dumpsValue j)

/-! ## ASCII -/

def Ascii (cs : List Char) : Prop := ∀ c ∈ cs, c.toNat < 128

@[simp] theorem ascii_nil : Ascii [] := by simp [Ascii]

@[simp] theorem ascii_cons {c : Char} {cs : List Char} :
    Ascii (c :: cs) ↔ c.toNat < 128 ∧ Ascii cs := by
  simp [Ascii]

@[simp] theorem ascii_append {cs ds : List Char} : Ascii (cs ++ ds) ↔ Ascii cs ∧ Ascii ds := by
  simp only [Ascii, List.forall_mem_append]

theorem ascii_flatMap {α : Type} {l : List α} {f : α → List Char} (h : ∀ a ∈ l, Ascii (f a)) :
    Ascii (l.flatMap f) := by
  intro c hc
  obtain ⟨a, ha, hc⟩ := List.mem_flatMap.mp hc
  exact h a ha c hc

theorem hexDigit_ascii : ∀ d, d < 16 → (hexDigit d).toNat < 128 := by decide

theorem ascii_unicodeEscape (u : UInt16) : Ascii (unicodeEscape u) := by
  have hu : u.toNat < 65536 := u.toNat_lt
  have h3 := hexDigit_ascii (u.toNat / 4096) (by omega)
  have h2 := hexDigit_ascii (u.toNat / 256 % 16) (by omega)
  have h1 := hexDigit_ascii (u.toNat / 16 % 16) (by omega)
  have h0 := hexDigit_ascii (u.toNat % 16) (by omega)
  simp [unicodeEscape, h3, h2, h1, h0]

theorem ascii_escChar {c : Char} (hc : c.toNat < 127) : Ascii (escChar c) := by
  have h1 := hexDigit_ascii (c.toNat / 16) (by omega)
  have h0 := hexDigit_ascii (c.toNat % 16) (by omega)
  have hself : c.toNat < 128 := by omega
  unfold escChar
  repeat' split
  all_goals simp [h1, h0, hself]

theorem ascii_asciiChar (c : Char) : Ascii (asciiChar c) := by
  unfold asciiChar
  split
  · rename_i h
    exact ascii_escChar h
  · exact ascii_flatMap fun u _ => ascii_unicodeEscape u

theorem ascii_asciiStr (s : String) : Ascii (asciiStr s) := by
  have hs : Ascii (s.toList.flatMap asciiChar) := ascii_flatMap fun c _ => ascii_asciiChar c
  simp [asciiStr, hs]

theorem numChar_ascii {c : Char} (h : numChar c = true) : c.toNat < 128 := by
  simp only [numChar, Bool.or_eq_true, beq_iff_eq] at h
  rcases h with ((((h | rfl) | rfl) | rfl) | rfl) | rfl
  · have hle : c.toNat ≤ 57 := (Char.isDigit_iff_toNat.mp h).2
    omega
  all_goals decide

theorem ascii_printInt (z : Int) : Ascii (printInt z) := fun c hc =>
  numChar_ascii (printInt_numChar z c hc)

theorem ascii_float (l : FloatLit) : Ascii l.text := fun c hc =>
  numChar_ascii (float_numChar l c hc)

theorem ascii_constant (c : Constant) : Ascii c.text := by
  cases c <;> simp [Constant.text]

mutual
theorem ascii_dumpsValue : ∀ j : Json, Ascii (dumpsValue j)
  | .null | .bool true | .bool false | .arr [] | .obj [] => by simp [dumpsValue]
  | .int z => by rw [dumpsValue]; exact ascii_printInt z
  | .float l => by rw [dumpsValue]; exact ascii_float l
  | .constant c => by rw [dumpsValue]; exact ascii_constant c
  | .str s => by rw [dumpsValue]; exact ascii_asciiStr s
  | .arr (j :: js) => by simp [dumpsValue, ascii_dumpsValue j, ascii_dumpsItems js]
  | .obj ((k, v) :: ms) => by
    simp [dumpsValue, ascii_asciiStr k, ascii_dumpsValue v, ascii_dumpsMembers ms]
theorem ascii_dumpsItems : ∀ js : List Json, Ascii (dumpsItems js)
  | [] => by simp [dumpsItems]
  | j :: js => by simp [dumpsItems, ascii_dumpsValue j, ascii_dumpsItems js]
theorem ascii_dumpsMembers : ∀ ms : List (String × Json), Ascii (dumpsMembers ms)
  | [] => by simp [dumpsMembers]
  | (k, v) :: ms => by
    simp [dumpsMembers, ascii_asciiStr k, ascii_dumpsValue v, ascii_dumpsMembers ms]
end

theorem dumps_ascii (j : Json) : Ascii (dumps j).toList := by
  rw [dumps, String.toList_ofList]
  exact ascii_dumpsValue j

theorem length_encode_dumps (j : Json) : (Utf8.encode (dumps j)).length = (dumps j).length :=
  Utf8.length_encode_ascii (dumps_ascii j)

/-! ## Length -/

theorem length_dumpsItems (js : List Json) :
    (dumpsItems js).length = 1 + (js.map fun j => (dumps j).length + 2).sum := by
  induction js with
  | nil => rfl
  | cons j js ih =>
    simp only [dumpsItems, List.length_cons, List.length_append, ih, List.map_cons, List.sum_cons,
      dumps, String.length_ofList]
    omega

/-- Two brackets, the items, and a separator of two characters before every item but the first. -/
theorem length_dumps_arr (js : List Json) :
    (dumps (.arr js)).length =
      2 + (js.map fun j => (dumps j).length).sum + 2 * (js.length - 1) := by
  cases js with
  | nil => rfl
  | cons j js =>
    have hsep : (js.map fun j => (dumps j).length + 2).sum =
        (js.map fun j => (dumps j).length).sum + 2 * js.length := by
      rw [List.sum_map_add]
      simp [Nat.mul_comm]
    rw [List.map_cons, List.sum_cons, List.length_cons, dumps, String.length_ofList, dumpsValue,
      List.length_cons, List.length_append, length_dumpsItems, hsep, dumps, String.length_ofList]
    omega

example : dumps (.arr [.obj [("a\"é😀", .int (-5)), ("\n", .arr [])], .null]) =
    "[\x7b\"a\\\"\\u00e9\\ud83d\\ude00\": -5, \"\\n\": []\x7d, null]" := by decide +kernel

end Json
end Wire
