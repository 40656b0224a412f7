import BvexLink.Codec.Equality
import Mathlib.Algebra.Order.Floor.Ring
import Mathlib.Data.Rat.Floor

/-!
# BvexLink.Codec.Coercion

What decoding makes of the `value` of a primitive payload. `validate_value_type` converts it to the
type the payload declares, so a value of another type is rejected only where the conversion raises.

`Converts` says what the conversion gives by the values of the numbers and the texts involved. Of
`float` it relies on what is documented (`Rounding`, `FloatValues.Builtins`).

* `coerce_converts`, `coerce_error`: the conversion gives what `Converts` says, or raises.
* `decode_converts`: the decoded value of every document, and the documents that are rejected.
-/

namespace BvexLink
namespace Codec

open Wire Json

section Coercion

variable {F : Type} [Primitives F]

/-! ## The conversions -/

/-- The value of the float nearest to a number, infinite beyond the largest of them. -/
structure Rounding (v : FloatValues F) where
  nearest : ℚ → Number
  closest : ∀ q p, nearest q = .finite p →
    (∃ x, v.value x = .finite p) ∧ ∀ x r, v.value x = .finite r → |p - q| ≤ |r - q|
  beyond : ∀ q, (∀ p, nearest q ≠ .finite p) →
    nearest q = .infinite (q < 0) ∧ ∀ x r, v.value x = .finite r → |r| < |q|

def Rounding.round {v : FloatValues F} (r : Rounding v) : Number → Number
  | .finite q => r.nearest q
  | n => n

/-- Towards zero. -/
def truncate (q : ℚ) : Int := if q < 0 then ⌈q⌉ else ⌊q⌋

/-- What is documented of `float`: how numbers are read, and its conversions. -/
structure FloatValues.Builtins (v : FloatValues F) (r : Rounding v) : Prop where
  ofLit : ∀ l : FloatLit, ∃ n, floatNumber l.text = some n ∧
    v.value (Primitives.ofLit l) = r.round n
  ofConstant : ∀ c, v.value (Primitives.ofConstant c) = constantNumber c
  intOfFloat : ∀ (x : F) q, v.value x = .finite q → Primitives.intOfFloat x = .ok (truncate q)
  intOfFloat_error : ∀ x : F, Primitives.isFinite x = false →
    ∃ e, Primitives.intOfFloat x = .error e
  floatOfInt : ∀ (z : Int) (y : F), Primitives.floatOfInt z = .ok y →
    Primitives.isFinite y = true ∧ v.value y = r.nearest z
  floatOfInt_error : ∀ (z : Int) e, Primitives.floatOfInt (F := F) z = .error e →
    ∀ q, r.nearest z ≠ .finite q
  floatOfStr : ∀ s (y : F), Primitives.floatOfStr s = .ok y →
    ∃ n, floatLiteral (Primitives.decimal F) s = some n ∧ v.value y = r.round n
  floatOfStr_error : ∀ s e, Primitives.floatOfStr (F := F) s = .error e →
    floatLiteral (Primitives.decimal F) s = none
  strOfFloat : ∀ x : F, ∃ n,
    floatLiteral (Primitives.decimal F) (Primitives.strOfFloat x) = some n ∧
      r.round n = v.value x
  isTrue : ∀ x : F, Primitives.isTrue x = true ↔ v.value x ≠ .finite 0

/-- What `int(v)`, `float(v)`, `str(v)` or `bool(v)` gives. -/
inductive Converts (v : FloatValues F) (r : Rounding v) :
    WhichPrimitive → PrimitiveType F → PrimitiveType F → Prop where
  | int (z : Int) : Converts v r .int (.int z) (.int z)
  | intFloat {x : F} {q : ℚ} (h : v.value x = .finite q) :
    Converts v r .int (.float x) (.int (truncate q))
  | intStr {s : String} {z : Int} (h : intOfStr (Primitives.decimal F) s = some z) :
    Converts v r .int (.str s) (.int z)
  | intBool (b : Bool) : Converts v r .int (.bool b) (.int (if b then 1 else 0))
  | float (x : F) : Converts v r .float (.float x) (.float x)
  | floatInt {z : Int} {y : F} {q : ℚ} (hz : r.nearest z = .finite q) (h : v.value y = .finite q) :
    Converts v r .float (.int z) (.float y)
  | floatStr {s : String} {n : Number} {y : F}
    (hs : floatLiteral (Primitives.decimal F) s = some n) (h : v.value y = r.round n) :
    Converts v r .float (.str s) (.float y)
  | floatBool {b : Bool} {y : F} {q : ℚ} (hb : r.nearest (if b then 1 else 0) = .finite q)
    (h : v.value y = .finite q) : Converts v r .float (.bool b) (.float y)
  | str (s : String) : Converts v r .str (.str s) (.str s)
  | strInt {z : Int} (h : fewDigits z = true) : Converts v r .str (.int z) (.str (toString z))
  | strFloat {x : F} {s : String} {n : Number}
    (hs : floatLiteral (Primitives.decimal F) s = some n) (h : r.round n = v.value x) :
    Converts v r .str (.float x) (.str s)
  | strBool (b : Bool) : Converts v r .str (.bool b) (.str (if b then "True" else "False"))
  | bool (b : Bool) : Converts v r .bool (.bool b) (.bool b)
  | boolInt {z : Int} {b : Bool} (h : b = true ↔ z ≠ 0) : Converts v r .bool (.int z) (.bool b)
  | boolFloat {x : F} {b : Bool} (h : b = true ↔ v.value x ≠ .finite 0) :
    Converts v r .bool (.float x) (.bool b)
  | boolStr {s : String} {b : Bool} (h : b = true ↔ s ≠ "") : Converts v r .bool (.str s) (.bool b)

/-- The value that a JSON value is read as. -/
def JsonValue (v : FloatValues F) (r : Rounding v) : Json → PrimitiveType F → Prop
  | .int z, raw => raw = .int z
  | .float l, raw => ∃ x n, raw = .float x ∧ floatNumber l.text = some n ∧ v.value x = r.round n
  | .constant c, raw => ∃ x, raw = .float x ∧ v.value x = constantNumber c
  | .str s, raw => raw = .str s
  | .bool b, raw => raw = .bool b
  | _, _ => False

section Converts

variable {v : FloatValues F} {r : Rounding v}

theorem primitiveValue_jsonValue (hb : v.Builtins r) {j : Json} {raw : PrimitiveType F}
    (h : primitiveValue j = .ok raw) : JsonValue v r j raw := by
  cases j with
  | int z =>
    cases h
    rfl
  | float l =>
    cases h
    obtain ⟨n, hn, hv⟩ := hb.ofLit l
    exact ⟨_, n, rfl, hn, hv⟩
  | constant c =>
    cases h
    exact ⟨_, rfl, hb.ofConstant c⟩
  | str s =>
    cases h
    rfl
  | bool b =>
    cases h
    rfl
  | _ => cases h

theorem floatOfInt_converts (hb : v.Builtins r) {z : Int} {y : F}
    (h : Primitives.floatOfInt z = .ok y) :
    ∃ q, r.nearest z = .finite q ∧ v.value y = .finite q := by
  obtain ⟨hf, hv⟩ := hb.floatOfInt z y h
  obtain ⟨q, hq⟩ := (v.finite y).mp hf
  exact ⟨q, hv.symm.trans hq, hq⟩

theorem coe_toInt (b : Bool) : ((b.toInt : Int) : ℚ) = if b then 1 else 0 := by
  cases b <;> rfl

theorem coerce_converts (hb : v.Builtins r) {w : WhichPrimitive} {raw value : PrimitiveType F}
    (h : (coerce w raw).map Subtype.val = .ok value) : Converts v r w raw value := by
  obtain ⟨⟨value', hw⟩, hc, rfl⟩ := map_eq_ok.mp h
  cases w with
  | int =>
    cases raw with
    | int z =>
      cases hc
      exact .int z
    | float x =>
      obtain ⟨z, hz, he⟩ := map_eq_ok.mp hc
      cases he
      cases hx : Primitives.isFinite x with
      | true =>
        obtain ⟨q, hq⟩ := (v.finite x).mp hx
        obtain rfl := Except.ok.inj ((hb.intOfFloat x q hq).symm.trans hz)
        exact .intFloat hq
      | false =>
        obtain ⟨e, he⟩ := hb.intOfFloat_error x hx
        rw [he] at hz
        cases hz
    | str s =>
      obtain ⟨z, hz, he⟩ := map_eq_ok.mp hc
      cases he
      unfold intOfString at hz
      split at hz
      · cases hz
        exact .intStr ‹_›
      · cases hz
    | bool b =>
      cases hc
      cases b
      · exact .intBool false
      · exact .intBool true
  | float =>
    cases raw with
    | int z =>
      obtain ⟨y, hy, he⟩ := map_eq_ok.mp hc
      cases he
      obtain ⟨q, hq, hv⟩ := floatOfInt_converts hb hy
      exact .floatInt hq hv
    | float x =>
      cases hc
      exact .float x
    | str s =>
      obtain ⟨y, hy, he⟩ := map_eq_ok.mp hc
      cases he
      obtain ⟨n, hn, hv⟩ := hb.floatOfStr s y hy
      exact .floatStr hn hv
    | bool b =>
      obtain ⟨y, hy, he⟩ := map_eq_ok.mp hc
      cases he
      obtain ⟨q, hq, hv⟩ := floatOfInt_converts hb hy
      rw [coe_toInt] at hq
      exact .floatBool hq hv
  | str =>
    cases raw with
    | int z =>
      obtain ⟨s, hs, he⟩ := map_eq_ok.mp hc
      cases he
      unfold strOfInt at hs
      split at hs
      · cases hs
        exact .strInt ‹_›
      · cases hs
    | float x =>
      cases hc
      obtain ⟨n, hn, hv⟩ := hb.strOfFloat x
      exact .strFloat hn hv
    | str s =>
      cases hc
      exact .str s
    | bool b =>
      cases hc
      exact .strBool b
  | bool =>
    cases raw with
    | int z =>
      cases hc
      exact .boolInt bne_iff_ne
    | float x =>
      cases hc
      exact .boolFloat (hb.isTrue x)
    | str s =>
      cases hc
      exact .boolStr bne_iff_ne
    | bool b =>
      cases hc
      exact .bool b

theorem coerce_error (hb : v.Builtins r) {w : WhichPrimitive} {raw : PrimitiveType F} {e : String}
    (h : coerce w raw = .error e) (value : PrimitiveType F) : ¬Converts v r w raw value := by
  have hraise : ∀ {α β : Type} {f : α → β} {x : Except String α}, x.map f = .error e →
      x = .error e := by
    intro α β f x hx
    cases x with
    | ok a => cases hx
    | error e' =>
      cases hx
      rfl
  intro hc
  cases hc with
  | intFloat hx =>
    have hi := hraise h
    rw [hb.intOfFloat _ _ hx] at hi
    cases hi
  | intStr hs =>
    have hi := hraise h
    rw [intOfString, hs] at hi
    cases hi
  | floatInt hz _ => exact hb.floatOfInt_error _ _ (hraise h) _ hz
  | floatStr hs _ =>
    have hn := hb.floatOfStr_error _ _ (hraise h)
    rw [hn] at hs
    cases hs
  | @floatBool b _ _ hq _ =>
    rw [← coe_toInt] at hq
    exact hb.floatOfInt_error _ _ (hraise h) _ hq
  | strInt hz =>
    have hs := hraise h
    rw [strOfInt, if_pos hz] at hs
    cases hs
  | _ => cases h

end Converts

def jsonType : Json → Option WhichPrimitive
  | .int _ => some .int
  | .float _ | .constant _ => some .float
  | .str _ => some .str
  | .bool _ => some .bool
  | _ => none

/-! ## Documents -/

/-- The JSON value, converted to the declared type by the validator. -/
def Converted (w : WhichPrimitive) (j : Json) (value : PrimitiveType F) : Prop :=
  ∃ v, primitiveValue j = .ok v ∧ (coerce w v).map Subtype.val = .ok value

/-- A document that the parser takes, of a sample with the metadata `m` that say it is a primitive,
and the payload `d` that declares `w` for the value `j`. -/
structure PrimitiveDocument (text : String) (m : SampleMetadata F) (d : List (String × Json))
    (w : WhichPrimitive) (j : Json) : Prop where
  document : ∃ ms jm, (parseDoc text.toList).filter withinLimits = some (.obj ms) ∧
    field ms "metadata" = some jm ∧ objectValue SampleMetadata.validateMembers jm = .ok m ∧
      field ms "data" = some (.obj d)
  kind : m.which_data_type = .primitive
  which : field d "which_primitive" = some (.str w.value)
  value : field d "value" = some j

theorem jsonType_primitiveValue {j : Json} {v : PrimitiveType F} (h : primitiveValue j = .ok v) :
    jsonType j = some (WhichPrimitive.fromValue v) := by
  cases j with
  | int z =>
    cases h
    rfl
  | float l =>
    cases h
    rfl
  | constant c =>
    cases h
    rfl
  | str s =>
    cases h
    rfl
  | bool b =>
    cases h
    rfl
  | _ => cases h

/-- A value of the declared type is not changed. -/
theorem Converted.self {w : WhichPrimitive} {j : Json} {value : PrimitiveType F}
    (h : Converted w j value) (hw : jsonType j = some w) : primitiveValue j = .ok value := by
  obtain ⟨v, hv, hc⟩ := h
  rw [jsonType_primitiveValue hv] at hw
  cases hw
  rw [coerce_self] at hc
  cases hc
  exact hv

theorem WhichPrimitive.ofValue_eq_some {s : String} {w : WhichPrimitive} :
    ofValue s = some w ↔ s = w.value := by
  constructor
  · intro h
    unfold ofValue at h
    split_ifs at h with hint hfloat hstr hbool
    · cases h
      exact hint
    · cases h
      exact hfloat
    · cases h
      exact hstr
    · cases h
      exact hbool
  · rintro rfl
    exact ofValue_value w

theorem enumValue_which {j : Json} {w : WhichPrimitive} :
    enumValue WhichPrimitive.ofValue j = .ok w ↔ j = .str w.value := by
  simp [enumValue_eq_ok, WhichPrimitive.ofValue_eq_some]

theorem PrimitiveData.validateMembers_eq_ok {d : List (String × Json)} {p : PrimitiveData F} :
    PrimitiveData.validateMembers d = .ok p ↔
      field d "which_primitive" = some (.str p.which_primitive.value) ∧
        ∃ j, field d "value" = some j ∧ Converted p.which_primitive j p.value := by
  have hcoerce : ∀ v : PrimitiveType F, coerce p.which_primitive v = .ok ⟨p.value, p.ok⟩ ↔
      (coerce p.which_primitive v).map Subtype.val = .ok p.value := by
    intro v
    rw [map_eq_ok]
    constructor
    · intro h
      exact ⟨_, h, rfl⟩
    · rintro ⟨v', h, hv⟩
      rw [h]
      exact congrArg _ (Subtype.ext hv)
  rw [PrimitiveData.validateMembers, PrimitiveData.validate_eq_ok]
  simp only [requiredField_eq_ok, enumValue_which, hcoerce]
  constructor
  · rintro ⟨⟨_, hw, rfl⟩, v, ⟨j, hj, hv⟩, hc⟩
    exact ⟨hw, j, hj, v, hv, hc⟩
  · rintro ⟨hw, j, hj, v, hv, hc⟩
    exact ⟨⟨_, hw, rfl⟩, v, ⟨j, hj, hv⟩, hc⟩

theorem sampleDataValue_primitive {py : Pydantic} {j : Json} {p : PrimitiveData F}
    (h : sampleDataValue py j = .ok (.primitive p)) :
    ∃ d, j = .obj d ∧ PrimitiveData.validateMembers d = .ok p := by
  cases j with
  | obj d =>
    refine ⟨d, rfl, ?_⟩
    simp only [sampleDataValue, objectValue] at h
    cases hp : (PrimitiveData.validateMembers d : Except Errors (PrimitiveData F)) with
    | error e => cases hf : FileData.validateMembers py d <;> simp [hp, hf] at h
    | ok q =>
      cases hf : FileData.validateMembers py d with
      | error e =>
        simp only [hp, hf] at h
        cases h
        rfl
      | ok f =>
        simp only [hp, hf] at h
        split at h
        · cases h
        · cases h
          rfl
  | _ => cases h

theorem sampleDataValue_of_primitive {py : Pydantic} {d : List (String × Json)}
    {p : PrimitiveData F} (hp : PrimitiveData.validateMembers d = .ok p)
    (hf : ∀ f, FileData.validateMembers py d ≠ .ok f) :
    sampleDataValue py (.obj d) = .ok (.primitive p) := by
  cases he : FileData.validateMembers py d with
  | ok f => exact absurd he (hf f)
  | error e => simp only [sampleDataValue, objectValue, hp, he]

theorem Sample.modelValidateJson_members {py : Pydantic} {text : String} {s : Sample F} :
    Sample.modelValidateJson py text = .ok s ↔ ∃ ms jm jd,
      (parseDoc text.toList).filter withinLimits = some (.obj ms) ∧
      field ms "metadata" = some jm ∧
      objectValue SampleMetadata.validateMembers jm = .ok s.metadata ∧
      field ms "data" = some jd ∧ sampleDataValue py jd = .ok s.data := by
  rw [Sample.modelValidateJson, modelValidateJson_eq_ok]
  simp only [Sample.validateMembers, Sample.validate_eq_ok, requiredField_eq_ok,
    Option.filter_eq_some_iff]
  constructor
  · rintro ⟨ms, hms, hlimits, ⟨jm, hm, hmeta⟩, jd, hd, hdata⟩
    exact ⟨ms, jm, jd, ⟨hms, hlimits⟩, hm, hmeta, hd, hdata⟩
  · rintro ⟨ms, jm, jd, ⟨hms, hlimits⟩, hm, hmeta, hd, hdata⟩
    exact ⟨ms, hms, hlimits, ⟨jm, hm, hmeta⟩, jd, hd, hdata⟩

/-! ## Decoding -/

theorem Sample.decoded {py : Pydantic} {text : String} {s : Sample F} {p : PrimitiveData F}
    (h : Sample.modelValidateJson py text = .ok s) (hp : s.data = .primitive p) :
    ∃ d j, PrimitiveDocument text s.metadata d p.which_primitive j ∧
      Converted p.which_primitive j p.value := by
  obtain ⟨ms, jm, jd, hms, hm, hmeta, hd, hdata⟩ := Sample.modelValidateJson_members.mp h
  rw [hp] at hdata
  obtain ⟨d, rfl, hv⟩ := sampleDataValue_primitive hdata
  obtain ⟨hw, j, hj, hc⟩ := PrimitiveData.validateMembers_eq_ok.mp hv
  have hkind := s.ok
  rw [hp] at hkind
  exact ⟨d, j, ⟨⟨ms, jm, hms, hm, hmeta, hd⟩, hkind.symm, hw, hj⟩, hc⟩

/-- A document gives its metadata, payload, type and value. -/
theorem PrimitiveDocument.unique {text : String} {m m' : SampleMetadata F}
    {d d' : List (String × Json)} {w w' : WhichPrimitive} {j j' : Json}
    (h : PrimitiveDocument text m d w j) (h' : PrimitiveDocument text m' d' w' j') :
    d = d' ∧ w = w' ∧ j = j' := by
  obtain ⟨ms, jm, hms, _, _, hd⟩ := h.document
  obtain ⟨ms', jm', hms', _, _, hd'⟩ := h'.document
  rw [hms] at hms'
  cases hms'
  rw [hd] at hd'
  cases hd'
  have hw := h.which.symm.trans h'.which
  have hj := h.value.symm.trans h'.value
  rw [Option.some.injEq, Json.str.injEq] at hw
  refine ⟨rfl, ?_, Option.some.inj hj⟩
  have hof := congrArg WhichPrimitive.ofValue hw
  simpa using hof

/-- The decoded value has the declared type, and is the JSON value itself if that has this type. A
value of another type is converted, and the document rejected where the conversion raises, and only
there (unless the payload can be taken for a file as well). -/
theorem decode_converts {v : FloatValues F} {r : Rounding v} (hb : v.Builtins r) (py : Pydantic)
    (text : String) :
    (∀ (s : Sample F) p, Sample.modelValidateJson py text = .ok s → s.data = .primitive p →
      ∃ d j raw, PrimitiveDocument text s.metadata d p.which_primitive j ∧
        primitiveValue j = .ok raw ∧ JsonValue v r j raw ∧
        WhichPrimitive.fromValue p.value = p.which_primitive ∧
        Converts v r p.which_primitive raw p.value ∧
        (jsonType j = some p.which_primitive → p.value = raw)) ∧
    (∀ (m : SampleMetadata F) d w j, PrimitiveDocument text m d w j →
      (∀ raw value : PrimitiveType F, primitiveValue j = .ok raw → ¬Converts v r w raw value) →
        ∀ s : Sample F, Sample.modelValidateJson py text ≠ .ok s) ∧
    ∀ (m : SampleMetadata F) d w j, PrimitiveDocument text m d w j →
      (∀ f, FileData.validateMembers py d ≠ .ok f) → ∀ raw value : PrimitiveType F,
        primitiveValue j = .ok raw → Converts v r w raw value →
          ∃ s p, Sample.modelValidateJson py text = .ok s ∧ s.metadata = m ∧
            s.data = .primitive p ∧ p.which_primitive = w := by
  refine ⟨fun s p h hp => ?_, fun m d w j hdoc hnone s h => ?_,
    fun m d w j hdoc hfile raw value hraw hc => ?_⟩
  · obtain ⟨d, j, hdoc, hc⟩ := Sample.decoded h hp
    obtain ⟨raw, hraw, hcoerce⟩ := hc
    refine ⟨d, j, raw, hdoc, hraw, primitiveValue_jsonValue hb hraw, p.ok,
      coerce_converts hb hcoerce, fun hw => ?_⟩
    have hself : Converted p.which_primitive j p.value := ⟨raw, hraw, hcoerce⟩
    exact Except.ok.inj ((hself.self hw).symm.trans hraw)
  · -- what is accepted has the kind the metadata name, so it is a primitive
    obtain ⟨ms, jm, hms, hm, hmeta, _⟩ := hdoc.document
    obtain ⟨ms', jm', _, hms', hm', hmeta', _, _⟩ := Sample.modelValidateJson_members.mp h
    rw [hms] at hms'
    cases hms'
    rw [hm] at hm'
    cases hm'
    have hkind : s.data.kind = .primitive := by
      rw [s.ok, ← Except.ok.inj (hmeta.symm.trans hmeta'), hdoc.kind]
    cases hp : s.data with
    | file f =>
      rw [hp] at hkind
      cases hkind
    | primitive p =>
      obtain ⟨d', j', hdoc', raw, hraw, hcoerce⟩ := Sample.decoded h hp
      obtain ⟨_, rfl, rfl⟩ := hdoc.unique hdoc'
      exact hnone raw p.value hraw (coerce_converts hb hcoerce)
  · cases hcoerce : coerce w raw with
    | error e => exact absurd hc (coerce_error hb hcoerce value)
    | ok v' =>
      obtain ⟨ms, jm, hms, hm, hmeta, hd⟩ := hdoc.document
      have hread : PrimitiveData.validateMembers d = .ok ⟨w, v'.1, v'.2⟩ :=
        PrimitiveData.validateMembers_eq_ok.mpr
          ⟨hdoc.which, j, hdoc.value, raw, hraw, map_eq_ok.mpr ⟨v', hcoerce, rfl⟩⟩
      refine ⟨⟨m, .primitive ⟨w, v'.1, v'.2⟩, hdoc.kind.symm⟩, ⟨w, v'.1, v'.2⟩, ?_, rfl, rfl, rfl⟩
      exact Sample.modelValidateJson_members.mpr ⟨ms, jm, _, hms, hm, hmeta, hd,
        sampleDataValue_of_primitive hread hfile⟩

end Coercion

/-! ## An instance -/

/-- The floats `0.0` and `1.0`, the infinities and `nan`. -/
inductive FewFloats where
  | zero
  | one
  | infinity
  | negInfinity
  | nan

def FewFloats.number : FewFloats → Number
  | .zero => .finite 0
  | .one => .finite 1
  | .infinity => .infinite false
  | .negInfinity => .infinite true
  | .nan => .nan

/-- Halfway to the next number that would be a float, it is too large. -/
def FewFloats.round (q : ℚ) : FewFloats :=
  if 3 / 2 ≤ |q| then if q < 0 then .negInfinity else .infinity
  else if q < 1 / 2 then .zero else .one

def FewFloats.ofNumber : Number → FewFloats
  | .finite q => round q
  | .infinite false => .infinity
  | .infinite true => .negInfinity
  | .nan => .nan

def FewFloats.isFinite : FewFloats → Bool
  | .zero | .one => true
  | _ => false

@[reducible] def fewFloats : Primitives FewFloats where
  isFinite := FewFloats.isFinite
  lit _ := ⟨"0.0".toList, isFloatToken_zero⟩
  ofLit l := .ofNumber ((floatNumber l.text).getD .nan)
  ofConstant c := .ofNumber (constantNumber c)
  intOfFloat
    | .zero => .ok 0
    | .one => .ok 1
    | .nan => .error "cannot convert float NaN to integer"
    | _ => .error "cannot convert float infinity to integer"
  floatOfInt z :=
    if (FewFloats.round z).isFinite then .ok (.round z)
    else .error "int too large to convert to float"
  floatOfStr s :=
    match floatLiteral (fun _ => none) s with
    | some n => .ok (.ofNumber n)
    | none => .error "could not convert string to float"
  strOfFloat
    | .zero => "0.0"
    | .one => "1.0"
    | .infinity => "inf"
    | .negInfinity => "-inf"
    | .nan => "nan"
  isTrue
    | .zero => false
    | _ => true
  decimal _ := none
  invalidLiteral _ := "invalid literal for int() with base 10"
  laxNumber _ := none

def fewValues : @FloatValues FewFloats fewFloats :=
  @FloatValues.mk FewFloats fewFloats FewFloats.number fun x => by
    cases x with
    | zero => exact ⟨fun _ => ⟨0, rfl⟩, fun _ => rfl⟩
    | one => exact ⟨fun _ => ⟨1, rfl⟩, fun _ => rfl⟩
    | _ => exact ⟨nofun, nofun⟩

theorem FewFloats.number_eq_finite {x : FewFloats} {q : ℚ} (h : x.number = .finite q) :
    q = 0 ∨ q = 1 := by
  cases x with
  | zero => exact .inl (Number.finite.inj h).symm
  | one => exact .inr (Number.finite.inj h).symm
  | _ => cases h

theorem FewFloats.round_closest {q p : ℚ} (h : (round q).number = .finite p) :
    (∃ x : FewFloats, x.number = .finite p) ∧
      ∀ (x : FewFloats) r, x.number = .finite r → |p - q| ≤ |r - q| := by
  refine ⟨⟨_, h⟩, fun x r hr => ?_⟩
  unfold round at h
  split at h
  · split at h <;> cases h
  · split at h
    · rename_i hq
      cases h
      rcases number_eq_finite hr with rfl | rfl
      · exact le_refl _
      · rw [abs_of_pos (show (0 : ℚ) < 1 - q by linarith)]
        exact abs_le.mpr ⟨by linarith, by linarith⟩
    · rename_i hq
      cases h
      rcases number_eq_finite hr with rfl | rfl
      · rw [zero_sub, abs_neg, abs_of_pos (show (0 : ℚ) < q by linarith)]
        exact abs_le.mpr ⟨by linarith, by linarith⟩
      · exact le_refl _

theorem FewFloats.round_beyond {q : ℚ} (h : ∀ p, (round q).number ≠ .finite p) :
    (round q).number = .infinite (q < 0) ∧
      ∀ (x : FewFloats) r, x.number = .finite r → |r| < |q| := by
  unfold round at h ⊢
  split at h
  · rename_i hq
    refine ⟨?_, fun x r hr => ?_⟩
    · rw [if_pos hq]
      split
      · rename_i hneg
        simp [number, hneg]
      · rename_i hneg
        simp [number, hneg]
    · rcases number_eq_finite hr with rfl | rfl
      · rw [abs_zero]
        linarith
      · rw [abs_one]
        linarith
  · split at h
    · exact absurd rfl (h 0)
    · exact absurd rfl (h 1)

def fewRounding : @Rounding FewFloats fewFloats fewValues :=
  @Rounding.mk FewFloats fewFloats fewValues (fun q => (FewFloats.round q).number)
    (fun _ _ h => FewFloats.round_closest h) fun _ h => FewFloats.round_beyond h

theorem FewFloats.number_ofNumber (n : Number) :
    (ofNumber n).number = @Rounding.round FewFloats fewFloats fewValues fewRounding n := by
  cases n with
  | finite q => rfl
  | infinite negative => cases negative <;> rfl
  | nan => rfl

theorem FewFloats.round_zero : round 0 = .zero := by
  unfold round
  rw [abs_zero, if_neg (by norm_num), if_pos (by norm_num)]

theorem FewFloats.round_one : round 1 = .one := by
  unfold round
  rw [abs_one, if_neg (by norm_num), if_neg (by norm_num)]

theorem fewValues_builtins : @FloatValues.Builtins FewFloats fewFloats fewValues fewRounding := by
  refine @FloatValues.Builtins.mk FewFloats fewFloats fewValues fewRounding ?_ ?_ ?_ ?_ ?_ ?_ ?_ ?_
    ?_ ?_
  · intro l
    obtain ⟨q, hq⟩ := floatNumber_token l.ok
    refine ⟨_, hq, ?_⟩
    show (FewFloats.ofNumber ((floatNumber l.text).getD .nan)).number = _
    rw [hq, Option.getD_some, FewFloats.number_ofNumber]
  · intro c
    cases c <;> rfl
  · intro x q hq
    cases x with
    | zero =>
      cases hq
      rfl
    | one =>
      cases hq
      rfl
    | _ => cases hq
  · intro x hx
    cases x with
    | zero => cases hx
    | one => cases hx
    | _ => exact ⟨_, rfl⟩
  · intro z y hy
    change (if (FewFloats.round z).isFinite then _ else _) = _ at hy
    split at hy
    · rename_i hf
      cases hy
      exact ⟨hf, rfl⟩
    · cases hy
  · intro z e he q hq
    change (if (FewFloats.round z).isFinite then _ else _) = _ at he
    split at he
    · cases he
    · rename_i hf
      exact hf ((@FloatValues.finite FewFloats fewFloats fewValues _).mpr ⟨q, hq⟩)
  · intro s y hy
    change (match floatLiteral (fun _ => none) s with
      | some n => Except.ok (FewFloats.ofNumber n)
      | none => Except.error _) = _ at hy
    split at hy
    · rename_i n hn
      cases hy
      exact ⟨n, hn, FewFloats.number_ofNumber n⟩
    · cases hy
  · intro s e he
    change (match floatLiteral (fun _ => none) s with
      | some n => Except.ok (FewFloats.ofNumber n)
      | none => Except.error _) = _ at he
    split at he
    · cases he
    · assumption
  · intro x
    cases x with
    | zero =>
      refine ⟨.finite 0, by decide +kernel, ?_⟩
      exact congrArg FewFloats.number FewFloats.round_zero
    | one =>
      refine ⟨.finite 1, by decide +kernel, ?_⟩
      exact congrArg FewFloats.number FewFloats.round_one
    | infinity => exact ⟨.infinite false, by decide +kernel, rfl⟩
    | negInfinity => exact ⟨.infinite true, by decide +kernel, rfl⟩
    | nan => exact ⟨.nan, by decide +kernel, rfl⟩
  · intro x
    cases x with
    | zero => exact iff_of_false nofun fun h => h rfl
    | one => exact iff_of_true rfl fun h => one_ne_zero (Number.finite.inj h)
    | _ => exact iff_of_true rfl nofun

def payloadMembers (d : List (String × Json)) : List (String × Json) :=
  [("metadata", .obj [("metric_id", .str "temp"), ("timestamp", .int 0),
    ("which_data_type", .str "primitive")]), ("data", .obj d)]

def payloadText (d : List (String × Json)) : String :=
  String.ofList (print (.obj (payloadMembers d)))

theorem payload_document {w : WhichPrimitive} {s : String} :
    @PrimitiveDocument FewFloats fewFloats
      (payloadText [("which_primitive", .str w.value), ("value", .str s)])
      ⟨"temp", .inr 0, .primitive⟩ [("which_primitive", .str w.value), ("value", .str s)] w
      (.str s) := by
  have hparse : (parseDoc (payloadText [("which_primitive", .str w.value),
      ("value", .str s)]).toList).filter withinLimits =
        some (.obj (payloadMembers [("which_primitive", .str w.value), ("value", .str s)])) := by
    rw [payloadText, String.toList_ofList, parseDoc_print]
    rfl
  exact @PrimitiveDocument.mk FewFloats fewFloats _ _ _ _ _ ⟨_, _, hparse, rfl, rfl, rfl⟩ rfl rfl rfl

/-- The string `"x"` is decoded as itself, and rejected where an `int` is declared. -/
theorem string_decoded_or_rejected :
    (∃ p s, @Sample.modelValidateJson FewFloats fewFloats Pydantic.strict
      (payloadText [("which_primitive", .str "str"), ("value", .str "x")]) = .ok s ∧
        s.data = .primitive p ∧ p.value = .str "x") ∧
    ∀ s, @Sample.modelValidateJson FewFloats fewFloats Pydantic.strict
      (payloadText [("which_primitive", .str "int"), ("value", .str "x")]) ≠ .ok s := by
  have hall := fun text => @decode_converts FewFloats fewFloats fewValues fewRounding
    fewValues_builtins Pydantic.strict text
  constructor
  · have hfile : ∃ e, FileData.validateMembers Pydantic.strict
        [("which_primitive", .str "str"), ("value", .str "x")] = .error e := ⟨_, rfl⟩
    obtain ⟨e, hfile⟩ := hfile
    obtain ⟨s, p, h, _, hp, hw⟩ := (hall _).2.2 _ _ _ _ (@payload_document .str "x")
      (fun f hf => by cases hfile.symm.trans hf) (.str "x") (.str "x") rfl
      (@Converts.str FewFloats fewFloats fewValues fewRounding "x")
    obtain ⟨d, j, raw, hdoc, hraw, _, _, _, hself⟩ := (hall _).1 s p h hp
    obtain ⟨rfl, hw', rfl⟩ := @PrimitiveDocument.unique FewFloats fewFloats _ _ _ _ _ _ _ _ _ hdoc
      (@payload_document .str "x")
    refine ⟨p, s, h, hp, (hself ?_).trans ?_⟩
    · rw [hw]
      rfl
    · cases hraw
      rfl
  · refine (hall _).2.1 _ _ _ _ (@payload_document .int "x") ?_
    intro raw value hraw hc
    cases hraw
    cases hc with
    | intStr hs =>
      have hnone : intOfStr (fun _ => none) "x" = none := by decide +kernel
      cases hnone.symm.trans hs

/-- `"false"` declared as a `bool` is decoded as `True`. -/
theorem false_decoded_as_true : ¬∀ (text : String) (s : Sample FewFloats)
    (p : PrimitiveData FewFloats) (d : List (String × Json)) (j : Json),
    @Sample.modelValidateJson FewFloats fewFloats Pydantic.strict text = .ok s →
      s.data = .primitive p →
        @PrimitiveDocument FewFloats fewFloats text s.metadata d p.which_primitive j →
          @primitiveValue FewFloats fewFloats j = .ok p.value := by
  intro h
  have hfile : ∃ e, FileData.validateMembers Pydantic.strict
      [("which_primitive", .str "bool"), ("value", .str "false")] = .error e := ⟨_, rfl⟩
  obtain ⟨e, hfile⟩ := hfile
  have hread : @PrimitiveData.validateMembers FewFloats fewFloats
      [("which_primitive", .str "bool"), ("value", .str "false")] =
        .ok ⟨.bool, .bool true, rfl⟩ := rfl
  have hs : @Sample.modelValidateJson FewFloats fewFloats Pydantic.strict
      (payloadText [("which_primitive", .str "bool"), ("value", .str "false")]) =
        .ok ⟨⟨"temp", .inr 0, .primitive⟩, .primitive ⟨.bool, .bool true, rfl⟩, rfl⟩ := by
    obtain ⟨ms, jm, hms, hm, hmeta, hd⟩ := @PrimitiveDocument.document FewFloats fewFloats _ _ _ _ _
      (@payload_document .bool "false")
    exact (@Sample.modelValidateJson_members FewFloats fewFloats _ _ _).mpr ⟨ms, jm, _, hms, hm,
      hmeta, hd, @sampleDataValue_of_primitive FewFloats fewFloats _ _ _ hread
        fun f hf => by cases hfile.symm.trans hf⟩
  have hv := h _ _ _ _ _ hs rfl (@payload_document .bool "false")
  cases hv

end Codec
end BvexLink
