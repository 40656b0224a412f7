import BvexLink.Wire.JsonRoundTrip

/-!
# BvexLink.Wire.JsonLimits

What a reader refuses of a well-formed document: a number with too long an integer part, containers
nested too deep, an integer of too many digits, a word that is no JSON number.

* `withinLimits_of_length`: in a document as short as an integer part may be, no number is too long.
* `withinDigits_iff`: the integers of a document that `json.dumps` prints.
-/

namespace Wire
namespace Json

/-! ## The parts of a document -/

mutual
/-- The values that are no containers, at any depth. -/
def leaves : Json → List Json
  | .arr js => leavesItems js
  | .obj ms => leavesMembers ms
  | j => [j]
def leavesItems : List Json → List Json
  | [] => []
  | j :: js => leaves j ++ leavesItems js
def leavesMembers : List (String × Json) → List Json
  | [] => []
  | (_, v) :: ms => leaves v ++ leavesMembers ms
end

mutual
/-- How deep the containers that are not empty are nested. -/
def depth : Json → Nat
  | .arr js => depthItems js
  | .obj ms => depthMembers ms
  | _ => 0
def depthItems : List Json → Nat
  | [] => 0
  | j :: js => max (depth j + 1) (depthItems js)
def depthMembers : List (String × Json) → Nat
  | [] => 0
  | (_, v) :: ms => max (depth v + 1) (depthMembers ms)
end

/-- The integer part of a number and its sign. -/
def intPart : Json → List Char
  | .int z => printInt z
  | .float l => l.text.takeWhile fun c => c == '-' || c.isDigit
  | _ => []

/-! ## The limits of the readers -/

/-- The characters that `jiter` takes for an integer part. -/
def shortNumber (j : Json) : Bool := decide ((intPart j).length ≤ 4300)

/-- With the `DEFAULT_RECURSION_LIMIT` of `jiter`. -/
def withinLimits (j : Json) : Bool := decide (depth j ≤ 200) && (leaves j).all shortNumber

/-- `sys.get_int_max_str_digits()`: the digits that `int` and `str` convert, without the sign. -/
def fewDigits (z : Int) : Bool := decide ((Nat.toDigits 10 z.natAbs).length ≤ 4300)

def withinDigits (j : Json) : Bool :=
  (leaves j).all fun x => match x with
    | .int z => fewDigits z
    | _ => true

/-- The document has none of the words beyond the grammar. -/
def standard (j : Json) : Bool :=
  (leaves j).all fun x => match x with
    | .constant _ => false
    | _ => true

/-- `JSON.parse`. -/
def jsonParse (text : String) : Option Json := (parseDoc text.toList).filter standard

theorem jsonParse_print {j : Json} (h : standard j = true) :
    jsonParse (String.ofList (print j)) = some j := by
  rw [jsonParse, String.toList_ofList, parseDoc_print, Option.filter_some, if_pos h]

/-! ## Lengths -/

theorem length_intPart (j : Json) : (intPart j).length ≤ (print j).length := by
  cases j with
  | int z => exact Nat.le_refl _
  | float l => exact (List.takeWhile_sublist _).length_le
  | _ => exact Nat.zero_le _

mutual
theorem length_leaf : ∀ (j x : Json), x ∈ leaves j → (print x).length ≤ (print j).length
  | .arr [], _, h => nomatch h
  | .arr (j :: js), x, h => by
    rw [print, List.length_cons, List.length_append]
    rcases List.mem_append.mp h with hx | hx
    · have := length_leaf j x hx
      omega
    · have := length_leafItems js x hx
      omega
  | .obj [], _, h => nomatch h
  | .obj ((k, v) :: ms), x, h => by
    simp only [print, List.length_cons, List.length_append]
    rcases List.mem_append.mp h with hx | hx
    · have := length_leaf v x hx
      omega
    · have := length_leafMembers ms x hx
      omega
  | .null, _, h | .bool _, _, h | .int _, _, h | .float _, _, h | .constant _, _, h
  | .str _, _, h => by rw [List.mem_singleton.mp h]
theorem length_leafItems : ∀ (js : List Json) (x : Json), x ∈ leavesItems js →
    (print x).length ≤ (printItems js).length
  | j :: js, x, h => by
    rw [printItems, List.length_cons, List.length_append]
    rcases List.mem_append.mp h with hx | hx
    · have := length_leaf j x hx
      omega
    · have := length_leafItems js x hx
      omega
theorem length_leafMembers : ∀ (ms : List (String × Json)) (x : Json), x ∈ leavesMembers ms →
    (print x).length ≤ (printMembers ms).length
  | (k, v) :: ms, x, h => by
    simp only [printMembers, List.length_cons, List.length_append]
    rcases List.mem_append.mp h with hx | hx
    · have := length_leaf v x hx
      omega
    · have := length_leafMembers ms x hx
      omega
end

theorem withinLimits_iff {j : Json} :
    withinLimits j = true ↔ depth j ≤ 200 ∧ ∀ x ∈ leaves j, shortNumber x = true := by
  simp [withinLimits]

@[simp] theorem shortNumber_str (s : String) : shortNumber (.str s) = true := rfl

@[simp] theorem shortNumber_null : shortNumber .null = true := rfl

@[simp] theorem shortNumber_bool (b : Bool) : shortNumber (.bool b) = true := rfl

@[simp] theorem shortNumber_int (z : Int) :
    shortNumber (.int z) = true ↔ (printInt z).length ≤ 4300 :=
  decide_eq_true_iff

theorem withinLimits_obj {ms : List (String × Json)} (hd : depthMembers ms ≤ 200) :
    withinLimits (.obj ms) = true ↔ ∀ x ∈ leavesMembers ms, shortNumber x = true := by
  rw [withinLimits_iff, leaves]
  exact and_iff_right hd

/-- A tag in front adds no number. -/
theorem withinLimits_tagged {k k' tag : String} {ms : List (String × Json)}
    (hd : depthMembers ms < 200) : withinLimits (.obj [(k, .str tag), (k', .obj ms)]) = true ↔
      ∀ x ∈ leavesMembers ms, shortNumber x = true := by
  rw [withinLimits_obj]
  · simp [leavesMembers, leaves]
  · simp only [depthMembers, depth]
    omega

theorem strings_short (l : List String) :
    depthItems (l.map Json.str) ≤ 1 ∧ ∀ x ∈ leavesItems (l.map Json.str), shortNumber x = true := by
  induction l with
  | nil => exact ⟨Nat.zero_le 1, nofun⟩
  | cons s l ih =>
    obtain ⟨hdepth, hshort⟩ := ih
    refine ⟨by simp [depthItems, depth, hdepth], fun x hx => ?_⟩
    rcases List.mem_append.mp hx with hx | hx
    · rw [List.mem_singleton.mp hx, shortNumber_str]
    · exact hshort x hx

theorem withinLimits_of_length {j : Json} (hd : depth j ≤ 200) (h : (print j).length ≤ 4300) :
    withinLimits j = true := by
  refine withinLimits_iff.mpr ⟨hd, fun x hx => decide_eq_true ?_⟩
  calc (intPart x).length
      ≤ (print x).length := length_intPart x
    _ ≤ (print j).length := length_leaf j x hx
    _ ≤ 4300 := h

/-! ## Digits -/

theorem mem_leavesItems {js : List Json} {x : Json} :
    x ∈ leavesItems js ↔ ∃ j ∈ js, x ∈ leaves j := by
  induction js with
  | nil => simp [leavesItems]
  | cons j js ih => simp [leavesItems, ih]

theorem withinDigits_iff {j : Json} :
    withinDigits j = true ↔ ∀ z, .int z ∈ leaves j → fewDigits z = true := by
  rw [withinDigits, List.all_eq_true]
  constructor
  · intro h z hz
    exact h _ hz
  · intro h x hx
    cases x with
    | int z => exact h z hx
    | _ => rfl

/-- The sign is the one character that is no digit. -/
theorem length_printInt (z : Int) :
    (printInt z).length = (Nat.toDigits 10 z.natAbs).length + if z < 0 then 1 else 0 := by
  cases z with
  | ofNat n => rfl
  | negSucc n =>
    have hneg : Int.negSucc n < 0 := Int.negSucc_lt_zero n
    rw [if_pos hneg]
    rfl

/-! ## A number too long -/

theorem printInt_pow_long {k : Nat} (hk : 0 < k) : ¬(printInt (10 ^ k : Nat)).length ≤ k := by
  show ¬(Nat.toDigits 10 (10 ^ k)).length ≤ k
  rw [Nat.length_toDigits_le_iff (by omega) hk]
  omega

end Json
end Wire
