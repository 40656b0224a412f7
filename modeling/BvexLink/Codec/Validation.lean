import BvexLink.Wire.JsonLimits

/-!
# BvexLink.Codec.Validation

Validation of JSON by models, as far as the codec uses pydantic's: required fields, each with a
validator of its value, every failing field reported with its place.

* `requiredField_eq_ok`, `both_eq_ok`, `modelValidateJson_eq_ok`: what a valid input is made of.
* `modelValidateJson_print_eq_ok`: decoding what was printed.
-/

namespace BvexLink
namespace Codec

open Wire Json

/-- What is wrong at one place. `value` is the text of a `ValueError` a validator raised. -/
inductive Problem where
  | invalidJson
  | missing
  | wrongType
  | value (message : String)
  deriving DecidableEq

structure ErrorDetails where
  loc : List String
  problem : Problem
  deriving DecidableEq

abbrev Errors := List ErrorDetails

def Errors.under (loc : String) (es : Errors) : Errors :=
  es.map fun e => { e with loc := loc :: e.loc }

/-- What the codec leaves to its libraries: `str(e)` of a `ValidationError` of a model, what an
`int` field takes a value for that is no integer, `str(e)` of a `binascii.Error`, and whether the
second of two models is taken for an object that both accept. -/
structure Pydantic where
  str : String → Errors → String
  laxInt : Json → Option Int
  binasciiError : String → String
  preferSecond : List (String × Json) → Bool

def Pydantic.strict : Pydantic where
  str _ _ := ""
  laxInt _ := none
  binasciiError _ := ""
  preferSecond _ := false

/-- An error at the value itself. -/
def fail {α : Type} (p : Problem) : Except Errors α := .error [⟨[], p⟩]

/-- Both parts are validated, and the errors of both reported. -/
def both {α β : Type} : Except Errors α → Except Errors β → Except Errors (α × β)
  | .ok a, .ok b => .ok (a, b)
  | .error e, .ok _ => .error e
  | .ok _, .error e => .error e
  | .error e, .error e' => .error (e ++ e')

/-- The members of the object given, and the validator of the value of one of them. -/
def requiredField {α : Type} (ms : List (String × Json)) (loc : String)
    (validate : Json → Except Errors α) : Except Errors α :=
  ((match field ms loc with
    | none => fail .missing
    | some j => validate j).mapError (Errors.under loc))

def strValue : Json → Except Errors String
  | .str s => .ok s
  | _ => fail .wrongType

def intValue (py : Pydantic) : Json → Except Errors Int
  | .int z => .ok z
  | j =>
    match py.laxInt j with
    | some z => .ok z
    | none => fail .wrongType

def enumValue {α : Type} (ofValue : String → Option α) : Json → Except Errors α
  | .str s =>
    match ofValue s with
    | some a => .ok a
    | none => fail .wrongType
  | _ => fail .wrongType

def objectValue {α : Type} (validate : List (String × Json) → Except Errors α) :
    Json → Except Errors α
  | .obj ms => validate ms
  | _ => fail .wrongType

def itemsValue {α : Type} (validate : Json → Except Errors α) : Nat → List Json →
    Except Errors (List α)
  | _, [] => .ok []
  | i, j :: js =>
    (both ((validate j).mapError (Errors.under (toString i))) (itemsValue validate (i + 1) js)).map
      fun x => x.1 :: x.2

def listValue {α : Type} (validate : Json → Except Errors α) : Json → Except Errors (List α)
  | .arr js => itemsValue validate 0 js
  | _ => fail .wrongType

/-- A tag and the field `data`, validated in this order. The validator of `data` sees the tag if
that is valid, and raises a `ValueError` with a text. -/
def taggedFields {W R D : Type} (which : Except Errors W) (data : Except Errors R)
    (isDataValid : R → Option W → Except String D) : Except Errors (W × D) :=
  both which (data.bind fun d => (isDataValid d which.toOption).mapError
    fun message => [⟨["data"], .value message⟩])

/-- `model_validate_json`: the text is one JSON document, within the limits of the parser, and that
is an object. -/
def modelValidateJson {α : Type} (validate : List (String × Json) → Except Errors α)
    (s : String) : Except Errors α :=
  match (parseDoc s.toList).filter withinLimits with
  | none => fail .invalidJson
  | some j => objectValue validate j

/-! ## Valid inputs -/

section Valid

variable {α β : Type}

@[simp] theorem fail_ne_ok (p : Problem) (a : α) : fail p ≠ .ok a := by
  intro h; cases h

@[simp] theorem mapError_eq_ok {E E' : Type} {f : E → E'} {x : Except E α} {a : α} :
    x.mapError f = .ok a ↔ x = .ok a := by
  cases x <;> simp [Except.mapError]

theorem map_eq_ok {E : Type} {f : α → β} {x : Except E α} {b : β} :
    x.map f = .ok b ↔ ∃ a, x = .ok a ∧ f a = b := by
  cases x <;> simp [Except.map]

theorem bind_eq_ok {E : Type} {f : α → Except E β} {x : Except E α} {b : β} :
    x.bind f = .ok b ↔ ∃ a, x = .ok a ∧ f a = .ok b := by
  cases x <;> simp [Except.bind]

theorem both_eq_ok {x : Except Errors α} {y : Except Errors β} {a : α} {b : β} :
    both x y = .ok (a, b) ↔ x = .ok a ∧ y = .ok b := by
  cases x <;> cases y <;> simp [both]

theorem requiredField_eq_ok {ms : List (String × Json)} {loc : String}
    {validate : Json → Except Errors α} {a : α} :
    requiredField ms loc validate = .ok a ↔ ∃ j, field ms loc = some j ∧ validate j = .ok a := by
  rw [requiredField, mapError_eq_ok]
  cases field ms loc with
  | none => simp
  | some j => simp

theorem requiredField_iff {ms : List (String × Json)} {loc : String} {j : Json}
    {validate : Json → Except Errors α} {a : α} (h : field ms loc = some j) :
    requiredField ms loc validate = .ok a ↔ validate j = .ok a := by
  rw [requiredField_eq_ok, h]
  simp

theorem enumValue_eq_ok {ofValue : String → Option α} {j : Json} {a : α} :
    enumValue ofValue j = .ok a ↔ ∃ s, j = .str s ∧ ofValue s = some a := by
  cases j with
  | str s =>
    simp only [enumValue, Json.str.injEq, exists_eq_left']
    cases ofValue s <;> simp
  | _ => simp [enumValue]

theorem objectValue_eq_ok {validate : List (String × Json) → Except Errors α} {j : Json}
    {a : α} : objectValue validate j = .ok a ↔ ∃ ms, j = .obj ms ∧ validate ms = .ok a := by
  cases j <;> simp [objectValue]

theorem itemsValue_map {validate : Json → Except Errors α} {encode : α → Json}
    (h : ∀ a, validate (encode a) = .ok a) (l : List α) :
    ∀ i, itemsValue validate i (l.map encode) = .ok l := by
  induction l with
  | nil => intro i; rfl
  | cons a l ih =>
    intro i
    rw [List.map_cons, itemsValue, h, ih]
    rfl

theorem taggedFields_eq_ok {W R D : Type} {which : Except Errors W} {data : Except Errors R}
    {isDataValid : R → Option W → Except String D} {w : W} {d : D} :
    taggedFields which data isDataValid = .ok (w, d) ↔
      which = .ok w ∧ ∃ r, data = .ok r ∧ isDataValid r (some w) = .ok d := by
  rw [taggedFields, both_eq_ok, bind_eq_ok]
  refine and_congr_right fun hw => ?_
  subst hw
  simp only [mapError_eq_ok]
  rfl

theorem modelValidateJson_eq_ok {validate : List (String × Json) → Except Errors α} {s : String}
    {a : α} : modelValidateJson validate s = .ok a ↔
      ∃ ms, parseDoc s.toList = some (.obj ms) ∧ withinLimits (.obj ms) = true ∧
        validate ms = .ok a := by
  unfold modelValidateJson
  constructor
  · intro h
    split at h
    · cases h
    · rename_i j hj
      obtain ⟨hparse, hlimits⟩ := Option.filter_eq_some_iff.mp hj
      obtain ⟨ms, rfl, hv⟩ := objectValue_eq_ok.mp h
      exact ⟨ms, hparse, hlimits, hv⟩
  · rintro ⟨ms, hparse, hlimits, hv⟩
    rw [Option.filter_eq_some_iff.mpr ⟨hparse, hlimits⟩]
    exact hv

/-- Decoding the text of an object is validating its members, if they are within the limits. -/
theorem modelValidateJson_print_eq_ok {validate : List (String × Json) → Except Errors α}
    {ms : List (String × Json)} {a : α} :
    modelValidateJson validate (String.ofList (print (.obj ms))) = .ok a ↔
      withinLimits (.obj ms) = true ∧ validate ms = .ok a := by
  rw [modelValidateJson_eq_ok, String.toList_ofList, parseDoc_print]
  simp

end Valid

end Codec
end BvexLink
