import BvexLink.Wire.Decimal
import BvexLink.Wire.JsonLimits
import Mathlib.Data.Rat.Lemmas

/-!
# BvexLink.Codec.Builtins

Python's conversions between texts and numbers: `int` and `float` of a string, `str` of an integer.
`decimal` is `unicodedata.decimal`, the digit that a character beyond ASCII stands for.

* `floatNumber_token`: a number token of JSON is a finite number for `float`.
-/

namespace BvexLink
namespace Codec

open Wire Json

/-- What a number is worth in comparisons. -/
inductive Number where
  | finite (q : ℚ)
  | infinite (negative : Bool)
  | nan
  deriving DecidableEq

/-! ## Texts -/

/-- The white space that is stripped. -/
def isSpace (c : Char) : Bool :=
  (9 ≤ c.toNat && c.toNat ≤ 13) || (0x2000 ≤ c.toNat && c.toNat ≤ 0x200a) ||
    [0x20, 0x85, 0xa0, 0x1680, 0x2028, 0x2029, 0x202f, 0x205f, 0x3000].contains c.toNat

def strip (cs : List Char) : List Char :=
  ((cs.dropWhile isSpace).reverse.dropWhile isSpace).reverse

def toAscii (decimal : Char → Option Nat) (c : Char) : Char :=
  if c.toNat < 127 then c
  else match decimal c with
    | some d => d.digitChar
    | none => '?'

/-- Underscores stand between two digits only. `prev` is the character before. -/
def dropUnderscores (prev : Char) : List Char → Option (List Char)
  | [] => if prev = '_' then none else some []
  | c :: cs =>
    if c = '_' then if prev.isDigit then dropUnderscores c cs else none
    else if prev = '_' ∧ c.isDigit = false then none
    else (dropUnderscores c cs).map (c :: ·)

/-- The text that is read, without white space around it and without underscores. -/
def literalText (decimal : Char → Option Nat) (s : String) : Option (List Char) :=
  dropUnderscores ' ' ((strip s.toList).map (toAscii decimal))

def signed (negative : Bool) (q : ℚ) : ℚ := if negative then -q else q

/-! ## Integers -/

def intOfStr (decimal : Char → Option Nat) (s : String) : Option Int :=
  match literalText decimal s with
  | none => none
  | some t =>
    let ds := stripSign t
    if isDigits ds ∧ ds.length ≤ 4300 then
      some (if t.head? = some '-' then -(Nat.ofDigitChars 10 ds 0 : Int)
        else Nat.ofDigitChars 10 ds 0)
    else none

def strOfInt (z : Int) : Except String String :=
  if fewDigits z then .ok (toString z)
  else .error ("Exceeds the limit (4300 digits) for integer string conversion; " ++
    "use sys.set_int_max_str_digits() to increase the limit")

theorem strOfInt_eq_ok {z : Int} {t : String} (h : strOfInt z = .ok t) : t.toList = printInt z := by
  unfold strOfInt at h
  split at h
  · cases h
    exact toList_toString z
  · cases h

theorem strOfInt_zero : strOfInt 0 = .ok "0" := rfl

/-! ## Floats -/

/-- An exponent, or nothing. -/
def exponentPart : List Char → Option Int
  | [] => some 0
  | e :: r =>
    if (e = 'e' ∨ e = 'E') ∧ isDigits (stripSign r) then
      some (if r.head? = some '-' then -(Nat.ofDigitChars 10 (stripSign r) 0 : Int)
        else Nat.ofDigitChars 10 (stripSign r) 0)
    else none

/-- The digits after the point, and what follows. -/
def fractionPart : List Char → List Char × List Char
  | '.' :: r => (r.takeWhile Char.isDigit, r.dropWhile Char.isDigit)
  | r => ([], r)

def decimalValue (t : List Char) : Option ℚ :=
  let whole := t.takeWhile Char.isDigit
  let fraction := (fractionPart (t.dropWhile Char.isDigit)).1
  if whole ++ fraction = [] then none
  else (exponentPart (fractionPart (t.dropWhile Char.isDigit)).2).map fun e : Int =>
    Nat.ofDigitChars 10 (whole ++ fraction) 0 * (10 : ℚ) ^ (e - fraction.length)

def floatNumber (t : List Char) : Option Number :=
  let negative : Bool := t.head? = some '-'
  let body := (stripSign t).map Char.toLower
  if body = "inf".toList ∨ body = "infinity".toList then some (.infinite negative)
  else if body = "nan".toList then some .nan
  else (decimalValue (stripSign t)).map fun q => .finite (signed negative q)

/-- What `float(s)` is asked for. -/
def floatLiteral (decimal : Char → Option Nat) (s : String) : Option Number :=
  (literalText decimal s).bind floatNumber

def constantNumber : Constant → Number
  | .nan => .nan
  | .infinity => .infinite false
  | .negInfinity => .infinite true

example : floatLiteral (fun _ => none) " -1_0.5e2\n" = some (.finite (-1050)) ∧
    intOfStr (fun _ => none) "+1_000" = some 1000 ∧ intOfStr (fun _ => none) "1__0" = none := by
  decide +kernel

/-! ## Tokens of JSON -/

theorem exponentPart_expToken {t : List Char} (h : isExpToken t = true) :
    ∃ e, exponentPart t = some e := by
  unfold isExpToken at h
  split at h
  · exact ⟨_, if_pos ⟨.inl rfl, h⟩⟩
  · exact ⟨_, if_pos ⟨.inr rfl, h⟩⟩
  · cases h

theorem exponentPart_fracExp {t : List Char} (h : isFracExp t = true) :
    ∃ e, exponentPart (fractionPart t).2 = some e := by
  unfold isFracExp at h
  split at h
  · rename_i r
    simp only [Bool.and_eq_true, Bool.or_eq_true, List.isEmpty_iff] at h
    rcases h.2 with hr | hr
    · exact ⟨0, by rw [fractionPart, hr]; rfl⟩
    · exact exponentPart_expToken hr
  · rename_i hdot
    have ht : fractionPart t = ([], t) := by
      unfold fractionPart
      split
      · exact absurd rfl (hdot _)
      · rfl
    rw [ht]
    exact exponentPart_expToken h

theorem toLower_digit {d : Char} (h : d.isDigit = true) : d.toLower = d := by
  have hle : d.toNat ≤ 57 := (Char.isDigit_iff_toNat.mp h).2
  unfold Char.toLower
  rw [dif_neg]
  rintro ⟨hup, _⟩
  have h65 : 65 ≤ d.toNat := UInt32.le_iff_toNat_le.mp hup
  omega

theorem toLower_ne {d : Char} {cs : List Char} {w : String} (hd : d.isDigit = true)
    (hw : (w.toList.head?.all fun c => !c.isDigit) = true) :
    (d :: cs).map Char.toLower ≠ w.toList := by
  intro he
  rw [← he, List.map_cons, toLower_digit hd, List.head?_cons, Option.all_some, hd] at hw
  cases hw

/-- A number token of JSON is a finite number. -/
theorem floatNumber_token {t : List Char} (h : isFloatToken t = true) :
    ∃ q, floatNumber t = some (.finite q) := by
  obtain ⟨c, ds, rfl, hc⟩ := number_head (.inl h)
  have hstrip : stripSign (c :: ds) = stripMinus (c :: ds) := by
    rcases hc with rfl | hd
    · rfl
    · have hne : c ≠ '-' ∧ c ≠ '+' := by
        constructor <;> (rintro rfl; revert hd; decide)
      unfold stripSign stripMinus
      split <;> simp_all
  simp only [isFloatToken, Bool.and_eq_true] at h
  obtain ⟨hnat, hfrac⟩ := h
  obtain ⟨d, rest, hwhole, hdigit⟩ := isDigits_cons (isDigits_of_isNatToken hnat)
  obtain ⟨e, he⟩ := exponentPart_fracExp hfrac
  obtain ⟨tail, htail⟩ : ∃ tail, stripMinus (c :: ds) = d :: tail := by
    have happ := List.takeWhile_append_dropWhile (p := Char.isDigit) (l := stripMinus (c :: ds))
    rw [hwhole] at happ
    exact ⟨_, happ.symm⟩
  simp only [floatNumber, hstrip]
  rw [if_neg, if_neg]
  · rw [decimalValue, if_neg (by rw [hwhole]; exact List.cons_ne_nil _ _), he]
    exact ⟨_, rfl⟩
  · rw [htail]
    exact toLower_ne hdigit (by decide)
  · rw [htail]
    rintro (hinf | hinf)
    · exact toLower_ne hdigit (by decide) hinf
    · exact toLower_ne hdigit (by decide) hinf

end Codec
end BvexLink
