import BvexLink.Codec.Telemetry

/-!
# BvexLink.Codec.Equality

Python's `==` of samples: field by field, and by value for numbers of any type.

* `Sample.pyEq_symm`, `Sample.pyEq_trans`, `Sample.pyEq_self`: an equivalence where no number is
  `nan`.
-/

namespace BvexLink
namespace Codec

def Number.pyEq (a b : Number) : Bool := a = b ∧ a ≠ .nan

theorem Number.pyEq_iff {a b : Number} : a.pyEq b = true ↔ a = b ∧ a ≠ .nan :=
  decide_eq_true_iff

/-- The values of floats. -/
structure FloatValues (F : Type) [Primitives F] where
  value : F → Number
  finite : ∀ x, Primitives.isFinite x = true ↔ ∃ q, value x = .finite q

section Equality

variable {F : Type} [Primitives F] (v : FloatValues F)

/-- What is compared of a value: a string or a number. -/
def PrimitiveType.key : PrimitiveType F → String ⊕ Number
  | .int z => .inr (.finite z)
  | .float x => .inr (v.value x)
  | .str s => .inl s
  | .bool b => .inr (.finite b.toInt)

def PrimitiveType.pyEq (a b : PrimitiveType F) : Bool := a.key v = b.key v ∧ a.key v ≠ .inr .nan

def timestampNumber : F ⊕ Int → Number
  | .inl x => v.value x
  | .inr z => .finite z

def SampleMetadata.pyEq (a b : SampleMetadata F) : Bool :=
  a.metric_id = b.metric_id ∧ a.which_data_type = b.which_data_type ∧
    (timestampNumber v a.timestamp).pyEq (timestampNumber v b.timestamp)

def SampleData.pyEq : SampleData F → SampleData F → Bool
  | .primitive p, .primitive q => p.which_primitive = q.which_primitive ∧ p.value.pyEq v q.value
  | .file f, .file g => f = g
  | .primitive _, .file _ => false
  | .file _, .primitive _ => false

def Sample.pyEq (a b : Sample F) : Bool := a.metadata.pyEq v b.metadata ∧ a.data.pyEq v b.data

variable {v}

theorem PrimitiveType.pyEq_iff {a b : PrimitiveType F} :
    a.pyEq v b = true ↔ a.key v = b.key v ∧ a.key v ≠ .inr .nan :=
  decide_eq_true_iff

theorem SampleMetadata.pyEq_iff {a b : SampleMetadata F} : a.pyEq v b = true ↔
    a.metric_id = b.metric_id ∧ a.which_data_type = b.which_data_type ∧
      timestampNumber v a.timestamp = timestampNumber v b.timestamp ∧
        timestampNumber v a.timestamp ≠ .nan := by
  rw [← Number.pyEq_iff]
  exact decide_eq_true_iff

theorem SampleData.pyEq_primitive {p q : PrimitiveData F} :
    SampleData.pyEq v (.primitive p) (.primitive q) = true ↔
      p.which_primitive = q.which_primitive ∧ p.value.pyEq v q.value = true :=
  decide_eq_true_iff

theorem SampleData.pyEq_file {f g : FileData} :
    SampleData.pyEq v (.file f) (.file g) = true ↔ f = g :=
  decide_eq_true_iff

theorem Sample.pyEq_iff {a b : Sample F} :
    a.pyEq v b = true ↔ a.metadata.pyEq v b.metadata = true ∧ a.data.pyEq v b.data = true :=
  decide_eq_true_iff

theorem SampleData.pyEq_symm {a b : SampleData F} (h : a.pyEq v b = true) : b.pyEq v a = true := by
  cases a with
  | primitive p =>
    cases b with
    | primitive q =>
      obtain ⟨hw, hv⟩ := SampleData.pyEq_primitive.mp h
      obtain ⟨hk, hn⟩ := PrimitiveType.pyEq_iff.mp hv
      exact SampleData.pyEq_primitive.mpr
        ⟨hw.symm, PrimitiveType.pyEq_iff.mpr ⟨hk.symm, hk ▸ hn⟩⟩
    | file g => cases h
  | file f =>
    cases b with
    | primitive q => cases h
    | file g => exact SampleData.pyEq_file.mpr (SampleData.pyEq_file.mp h).symm

theorem SampleData.pyEq_trans {a b c : SampleData F} (h : a.pyEq v b = true)
    (h' : b.pyEq v c = true) : a.pyEq v c = true := by
  cases b with
  | primitive q =>
    cases a with
    | file f => cases h
    | primitive p =>
      cases c with
      | file g => cases h'
      | primitive r =>
        obtain ⟨hw, hv⟩ := SampleData.pyEq_primitive.mp h
        obtain ⟨hw', hv'⟩ := SampleData.pyEq_primitive.mp h'
        obtain ⟨hk, hn⟩ := PrimitiveType.pyEq_iff.mp hv
        have hk' := (PrimitiveType.pyEq_iff.mp hv').1
        exact SampleData.pyEq_primitive.mpr
          ⟨hw.trans hw', PrimitiveType.pyEq_iff.mpr ⟨hk.trans hk', hn⟩⟩
  | file g =>
    cases a with
    | primitive p => cases h
    | file f =>
      rw [SampleData.pyEq_file.mp h]
      exact h'

theorem Sample.pyEq_symm {a b : Sample F} (h : a.pyEq v b = true) : b.pyEq v a = true := by
  obtain ⟨hm, hd⟩ := Sample.pyEq_iff.mp h
  obtain ⟨hi, hw, ht, hn⟩ := SampleMetadata.pyEq_iff.mp hm
  exact Sample.pyEq_iff.mpr ⟨SampleMetadata.pyEq_iff.mpr ⟨hi.symm, hw.symm, ht.symm, ht ▸ hn⟩,
    SampleData.pyEq_symm hd⟩

theorem Sample.pyEq_trans {a b c : Sample F} (h : a.pyEq v b = true) (h' : b.pyEq v c = true) :
    a.pyEq v c = true := by
  obtain ⟨hm, hd⟩ := Sample.pyEq_iff.mp h
  obtain ⟨hm', hd'⟩ := Sample.pyEq_iff.mp h'
  obtain ⟨hi, hw, ht, hn⟩ := SampleMetadata.pyEq_iff.mp hm
  obtain ⟨hi', hw', ht', _⟩ := SampleMetadata.pyEq_iff.mp hm'
  exact Sample.pyEq_iff.mpr
    ⟨SampleMetadata.pyEq_iff.mpr ⟨hi.trans hi', hw.trans hw', ht.trans ht', hn⟩,
      SampleData.pyEq_trans hd hd'⟩

theorem FloatValues.ne_nan {x : F} (h : Primitives.isFinite x = true) : v.value x ≠ .nan := by
  obtain ⟨q, hq⟩ := (v.finite x).mp h
  simp [hq]

theorem PrimitiveType.pyEq_self {a : PrimitiveType F} (h : a.Finite) : a.pyEq v a = true := by
  refine PrimitiveType.pyEq_iff.mpr ⟨rfl, ?_⟩
  cases a with
  | float x => simpa [key] using FloatValues.ne_nan h
  | int z => simp [key]
  | str s => simp [key]
  | bool b => simp [key]

theorem timestampNumber_ne_nan {m : SampleMetadata F} (h : m.Finite) :
    timestampNumber v m.timestamp ≠ .nan := by
  cases ht : m.timestamp with
  | inl x => exact FloatValues.ne_nan (h x ht)
  | inr z => simp [timestampNumber]

/-- A sample whose numbers are finite equals itself. -/
theorem Sample.pyEq_self {s : Sample F} (h : s.Finite) : s.pyEq v s = true := by
  refine Sample.pyEq_iff.mpr ⟨SampleMetadata.pyEq_iff.mpr ⟨rfl, rfl, rfl,
    timestampNumber_ne_nan h.metadata⟩, ?_⟩
  have hd := h.data
  cases hs : s.data with
  | primitive p =>
    rw [hs] at hd
    exact SampleData.pyEq_primitive.mpr ⟨rfl, PrimitiveType.pyEq_self hd⟩
  | file f => exact SampleData.pyEq_file.mpr rfl

end Equality

end Codec
end BvexLink
