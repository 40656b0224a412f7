import Mathlib

/-!
# BvexLink.Trace.Run

Runs of a labelled step relation.

* `Run step s es t`: the labels `es`, in order, take `s` to `t`.
* `Run.history`: a property of the labels so far and the state, kept by every step, holds at the
  end of every run. `Run.invariant` is the case that does not look at the labels.
* `Given P step`: the steps whose state before and label satisfy `P`.
* `run_given_iff`, `run_iff_given`, `given_run_iff_given`: what holds throughout a run, or at its
  end, exactly if all its steps meet a condition.
* `keeping_iff_given`: the same of what each step keeps.
* `exec`, `run_of_exec`, `run_of_exec_given`: running a step function.
-/

namespace Trace

variable {S E : Type}

inductive Run (step : S → E → S → Prop) : S → List E → S → Prop where
  | nil {s : S} : Run step s [] s
  | cons {s t u : S} {e : E} {es : List E} :
      step s e t → Run step t es u → Run step s (e :: es) u

/-- The step relation of a step function that refuses some labels. -/
def ofFn (f : S → E → Option S) : S → E → S → Prop := fun s e t => f s e = some t

/-- The steps taken where `P` holds. -/
def Given (P : S → E → Prop) (step : S → E → S → Prop) : S → E → S → Prop :=
  fun s e t => P s e ∧ step s e t

namespace Run

variable {step : S → E → S → Prop}

theorem single {s t : S} {e : E} (h : step s e t) : Run step s [e] t := .cons h .nil

theorem append {s t u : S} {es es' : List E} (h : Run step s es t) (h' : Run step t es' u) :
    Run step s (es ++ es') u := by
  induction h with
  | nil => exact h'
  | cons hs _ ih => exact .cons hs (ih h')

/-- A run passes through a state after any of its first labels. -/
theorem of_append {s u : S} {es es' : List E} (h : Run step s (es ++ es') u) :
    ∃ t, Run step s es t ∧ Run step t es' u := by
  induction es generalizing s with
  | nil => exact ⟨s, .nil, h⟩
  | cons e es ih =>
    cases h with
    | cons hs h =>
      obtain ⟨t, ht, hu⟩ := ih h
      exact ⟨t, .cons hs ht, hu⟩

theorem history {I : List E → S → Prop} {s u : S} {es : List E} (h : Run step s es u)
    (h0 : I [] s) (hs : ∀ es t e t', I es t → step t e t' → I (es ++ [e]) t') : I es u := by
  have key : ∀ {s u : S} {es : List E}, Run step s es u → ∀ pre, I pre s → I (pre ++ es) u := by
    intro s u es h
    induction h with
    | nil => intro pre hp; simpa using hp
    | cons hst _ ih =>
      intro pre hp
      have := ih _ (hs _ _ _ _ hp hst)
      simpa using this
  simpa using key h [] h0

theorem invariant {I : S → Prop} {s u : S} {es : List E} (h : Run step s es u) (h0 : I s)
    (hs : ∀ t e t', I t → step t e t' → I t') : I u :=
  h.history (I := fun _ s => I s) h0 fun _ t e t' => hs t e t'

theorem mono {step' : S → E → S → Prop} (hm : ∀ s e t, step s e t → step' s e t) {s u : S}
    {es : List E} (h : Run step s es u) : Run step' s es u := by
  induction h with
  | nil => exact .nil
  | cons hs _ ih => exact .cons (hm _ _ _ hs) ih

/-- A run whose labels always satisfy the condition. -/
theorem given {P : S → E → Prop} {s u : S} {es : List E} (h : Run step s es u)
    (hP : ∀ e ∈ es, ∀ t, P t e) : Run (Given P step) s es u := by
  induction h with
  | nil => exact .nil
  | cons hs _ ih =>
    exact .cons ⟨hP _ (List.mem_cons_self ..) _, hs⟩ (ih fun e he => hP e (List.mem_cons_of_mem _ he))

end Run

theorem ofFn_det {f : S → E → Option S} (s : S) (e : E) (t t' : S) (h : ofFn f s e t)
    (h' : ofFn f s e t') : t = t' := by
  rw [ofFn, h] at h'
  exact Option.some.inj h'

theorem Run.det {f : S → E → Option S} {s t t' : S} {es : List E} (h : Run (ofFn f) s es t)
    (h' : Run (ofFn f) s es t') : t = t' := by
  induction h with
  | nil =>
    cases h'
    rfl
  | cons hs _ ih =>
    cases h' with
    | cons hs' h' =>
      cases ofFn_det _ _ _ _ hs hs'
      exact ih h'

/-- Where a step keeps `P` exactly if `M` holds before it, `P` holds throughout a run exactly if
every step of the run meets `M`. -/
theorem run_given_iff {f : S → E → Option S} {I P : S → Prop} {M : S → E → Prop}
    (hI : ∀ s e t, I s → f s e = some t → I t)
    (hP : ∀ s e t, I s → P s → f s e = some t → (P t ↔ M s e)) {s t : S} {es : List E}
    (h : Run (ofFn f) s es t) (hi : I s) (hp : P s) :
    (∀ es' u, es' <+: es → Run (ofFn f) s es' u → P u) ↔ Run (Given M (ofFn f)) s es t := by
  induction h with
  | nil =>
    refine iff_of_true (fun es' u hpre hu => ?_) .nil
    rw [List.prefix_nil.mp hpre] at hu
    cases hu
    exact hp
  | @cons s t u e es hst _ ih =>
    constructor
    · intro hall
      have hm : M s e := (hP s e t hi hp hst).mp (hall [e] t (List.prefix_append [e] es) (.single hst))
      refine .cons ⟨hm, hst⟩ ((ih (hI s e t hi hst) ((hP s e t hi hp hst).mpr hm)).mp ?_)
      intro es' u' hpre hu'
      exact hall (e :: es') u' (List.cons_prefix_cons.mpr ⟨rfl, hpre⟩) (.cons hst hu')
    · intro hg es' u' hpre hu'
      cases hg with
      | cons hst' hrest =>
        cases hu' with
        | nil => exact hp
        | cons hst'' hu' =>
          obtain ⟨rfl, hrest'⟩ := List.cons_prefix_cons.mp hpre
          cases ofFn_det _ _ _ _ hst hst'.2
          cases ofFn_det _ _ _ _ hst hst''
          exact (ih (hI _ _ _ hi hst) ((hP _ _ _ hi hp hst).mpr hst'.1)).mpr hrest _ _ hrest' hu'

/-- Where a step that meets `A` has `P` afterwards exactly if it had it before and `M` holds, so has
a run of such steps. -/
theorem given_run_iff_given {f : S → E → Option S} {I P : S → Prop} {A M : S → E → Prop}
    (hI : ∀ s e t, I s → A s e → f s e = some t → I t)
    (hP : ∀ s e t, I s → A s e → f s e = some t → (P t ↔ P s ∧ M s e)) {s t : S} {es : List E}
    (h : Run (Given A (ofFn f)) s es t) (hi : I s) :
    P t ↔ P s ∧ Run (Given M (ofFn f)) s es t := by
  induction h with
  | nil => exact (and_iff_left .nil).symm
  | @cons s u t e es hst _ ih =>
    obtain ⟨ha, hst⟩ := hst
    rw [ih (hI s e u hi ha hst), hP s e u hi ha hst]
    constructor
    · rintro ⟨⟨hs, hm⟩, hrun⟩
      exact ⟨hs, .cons ⟨hm, hst⟩ hrun⟩
    · rintro ⟨hs, hrun⟩
      cases hrun with
      | cons hg hrun =>
        have hu := ofFn_det s e _ _ hst hg.2
        subst hu
        exact ⟨⟨hs, hg.1⟩, hrun⟩

/-- The same of a run of any steps. -/
theorem run_iff_given {f : S → E → Option S} {I P : S → Prop} {M : S → E → Prop}
    (hI : ∀ s e t, I s → f s e = some t → I t)
    (hP : ∀ s e t, I s → f s e = some t → (P t ↔ P s ∧ M s e)) {s t : S} {es : List E}
    (h : Run (ofFn f) s es t) (hi : I s) : P t ↔ P s ∧ Run (Given M (ofFn f)) s es t :=
  given_run_iff_given (fun s e t hi _ => hI s e t hi) (fun s e t hi _ => hP s e t hi)
    (h.given (P := fun _ _ => True) fun _ _ _ => trivial) hi

/-- The steps after which `Q` holds between the two states. -/
def Keeping (Q : S → E → S → Prop) (step : S → E → S → Prop) : S → E → S → Prop :=
  fun s e t => Q s e t ∧ step s e t

/-- Where a step keeps `Q` exactly if `M` holds before it, every step of a run does exactly if every
step of it meets `M`. -/
theorem keeping_iff_given {f : S → E → Option S} {I : S → Prop} {Q : S → E → S → Prop}
    {M : S → E → Prop} (hQ : ∀ s e t, I s → f s e = some t → (Q s e t ↔ M s e))
    (hI : ∀ s e t, I s → f s e = some t → M s e → I t) {s t : S} {es : List E} (hi : I s) :
    Run (Keeping Q (ofFn f)) s es t ↔ Run (Given M (ofFn f)) s es t := by
  constructor
  · intro h
    induction h with
    | nil => exact .nil
    | @cons s u t e es hst _ ih =>
      have hm : M s e := (hQ s e u hi hst.2).mp hst.1
      exact .cons ⟨hm, hst.2⟩ (ih (hI s e u hi hst.2 hm))
  · intro h
    induction h with
    | nil => exact .nil
    | @cons s u t e es hst _ ih =>
      exact .cons ⟨(hQ s e u hi hst.2).mpr hst.1, hst.2⟩ (ih (hI s e u hi hst.2 hst.1))

/-- The state a list of labels leads to. -/
def exec (f : S → E → Option S) : S → List E → Option S
  | s, [] => some s
  | s, e :: es => (f s e).bind fun t => exec f t es

theorem run_of_exec {f : S → E → Option S} {s t : S} {es : List E} (h : exec f s es = some t) :
    Run (ofFn f) s es t := by
  induction es generalizing s with
  | nil => cases h; exact .nil
  | cons e es ih =>
    obtain ⟨u, hu, h⟩ := Option.bind_eq_some_iff.mp h
    exact .cons hu (ih h)

/-- The step function that also refuses the labels where `P` does not hold. -/
def given (P : S → E → Prop) [∀ s e, Decidable (P s e)] (f : S → E → Option S) (s : S) (e : E) :
    Option S := if P s e then f s e else none

theorem run_of_exec_given {P : S → E → Prop} [∀ s e, Decidable (P s e)] {f : S → E → Option S}
    {s t : S} {es : List E} (h : exec (given P f) s es = some t) :
    Run (Given P (ofFn f)) s es t := by
  refine (run_of_exec h).mono fun s e t ht => ?_
  rw [ofFn, given] at ht
  split at ht
  · rename_i hp
    exact ⟨hp, ht⟩
  · cases ht

end Trace
