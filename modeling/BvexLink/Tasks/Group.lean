import Mathlib

/-!
# BvexLink.Tasks.Group

Tasks of one event loop and the groups that wait for them, as `asyncio.TaskGroup` does: when a
child raises, the others that have not ended are cancelled, and the group raises when all have
ended. A group is a task again, so groups nest.

`Lawful` is what a kind of task must keep; `Leaf.lawful`, `sumLawful` and `TaskGroup.lawful` are how
such kinds are made.

* `TaskGroup.progress`, `TaskGroup.size_step`: a group can go on until it has ended, and not forever.
* `TaskGroup.returned_iff`: a group returns exactly if all its children do.
-/

namespace Tasks

inductive Outcome where
  | returned
  | raised
  | cancelled
  deriving DecidableEq

/-- Tasks with the states `α`: what an event makes of one, how it has ended, and what cancelling
makes of one that has not. -/
structure Kind (α E : Type) where
  step : α → E → Option α
  outcome : α → Option Outcome
  cancel : α → α

section Lawful

variable {α E : Type}

/-- `touched` says that a task has been cancelled, and `size` bounds the steps it has left. -/
structure Lawful (k : Kind α E) where
  Inv : α → Prop
  touched : α → Bool
  size : α → Nat
  inv_step : ∀ {c e c'}, Inv c → k.step c e = some c' → Inv c'
  inv_cancel : ∀ {c}, Inv c → k.outcome c = none → Inv (k.cancel c)
  touched_step : ∀ {c e c'}, k.step c e = some c' → touched c' = touched c
  touched_of_cancelled : ∀ {c}, Inv c → k.outcome c = some .cancelled → touched c = true
  progress : ∀ {c}, Inv c → k.outcome c = none → ∃ e c', k.step c e = some c'
  unfinished : ∀ {c e c'}, k.step c e = some c' → k.outcome c = none
  size_step : ∀ {c e c'}, k.step c e = some c' → size c' < size c
  size_cancel : ∀ c, size (k.cancel c) ≤ size c

end Lawful

/-! ## Tasks without children -/

/-- `cancelled` remembers whether the job was done before. -/
inductive Phase where
  | created
  | acted
  | returned
  | raised
  | cancelled (acted : Bool)
  deriving DecidableEq

/-- A task that does its job and returns, or raises. -/
structure Leaf (σ : Type) where
  job : σ
  fails : Bool
  phase : Phase

inductive LeafEvent where
  | act
  | ret
  | raise
  deriving DecidableEq

namespace Leaf

variable {σ : Type}

def new (job : σ) (fails : Bool) : Leaf σ := ⟨job, fails, .created⟩

def step (l : Leaf σ) : LeafEvent → Option (Leaf σ)
  | .act => if l.phase = .created ∧ l.fails = false then some { l with phase := .acted } else none
  | .ret => if l.phase = .acted then some { l with phase := .returned } else none
  | .raise => if l.phase = .created ∧ l.fails = true then some { l with phase := .raised } else none

def outcome (l : Leaf σ) : Option Outcome :=
  match l.phase with
  | .created | .acted => none
  | .returned => some .returned
  | .raised => some .raised
  | .cancelled _ => some .cancelled

def cancel (l : Leaf σ) : Leaf σ := { l with phase := .cancelled (l.phase == .acted) }

def kind (σ : Type) : Kind (Leaf σ) LeafEvent := ⟨step, outcome, cancel⟩

/-- The job has been done. -/
def Done (l : Leaf σ) : Prop := l.phase = .acted ∨ l.phase = .returned ∨ l.phase = .cancelled true

/-- A task that fails does not do its job, and one that does not fail does not raise. -/
structure Inv (l : Leaf σ) : Prop where
  done : l.Done → l.fails = false
  raised : l.phase = .raised → l.fails = true

def touched (l : Leaf σ) : Bool :=
  match l.phase with
  | .cancelled _ => true
  | _ => false

def size (l : Leaf σ) : Nat :=
  match l.phase with
  | .created => 2
  | .acted => 1
  | _ => 0

/-- What an event does, and what it takes. -/
theorem step_cases {l l' : Leaf σ} {e : LeafEvent} (h : l.step e = some l') :
    (l.phase = .created ∧ l.fails = false ∧ l' = { l with phase := .acted }) ∨
    (l.phase = .acted ∧ l' = { l with phase := .returned }) ∨
    (l.phase = .created ∧ l.fails = true ∧ l' = { l with phase := .raised }) := by
  cases e with
  | act =>
    obtain ⟨⟨hp, hf⟩, rfl⟩ : (l.phase = .created ∧ l.fails = false) ∧
        { l with phase := .acted } = l' := by simpa [step] using h
    exact .inl ⟨hp, hf, rfl⟩
  | ret =>
    obtain ⟨hp, rfl⟩ : l.phase = .acted ∧ { l with phase := .returned } = l' := by
      simpa [step] using h
    exact .inr (.inl ⟨hp, rfl⟩)
  | raise =>
    obtain ⟨⟨hp, hf⟩, rfl⟩ : (l.phase = .created ∧ l.fails = true) ∧
        { l with phase := .raised } = l' := by simpa [step] using h
    exact .inr (.inr ⟨hp, hf, rfl⟩)

theorem inv_step {l l' : Leaf σ} {e : LeafEvent} (hi : l.Inv) (h : l.step e = some l') :
    l'.Inv := by
  obtain ⟨_, hf, rfl⟩ | ⟨hp, rfl⟩ | ⟨_, hf, rfl⟩ := step_cases h
  · exact ⟨fun _ => hf, nofun⟩
  · exact ⟨fun _ => hi.done (.inl hp), nofun⟩
  · exact ⟨fun hd => by simp [Done] at hd, fun _ => hf⟩

theorem inv_cancel {l : Leaf σ} (hi : l.Inv) : l.cancel.Inv := by
  refine ⟨fun hd => hi.done (.inl ?_), nofun⟩
  simpa [Done, cancel] using hd

def lawful (σ : Type) : Lawful (kind σ) where
  Inv := Inv
  touched := touched
  size := size
  inv_step := inv_step
  inv_cancel := fun hi _ => inv_cancel hi
  touched_step := by
    intro c e c' h
    obtain ⟨hp, _, rfl⟩ | ⟨hp, rfl⟩ | ⟨hp, _, rfl⟩ := step_cases h <;> simp [touched, hp]
  touched_of_cancelled := by
    rintro ⟨job, fails, phase⟩ _ h
    cases phase <;> simp_all [kind, outcome, touched]
  progress := by
    rintro ⟨job, fails, phase⟩ _ h
    cases phase with
    | created =>
      cases fails with
      | false => exact ⟨.act, _, rfl⟩
      | true => exact ⟨.raise, _, rfl⟩
    | acted => exact ⟨.ret, _, rfl⟩
    | _ => cases h
  unfinished := by
    intro c e c' h
    obtain ⟨hp, _, rfl⟩ | ⟨hp, rfl⟩ | ⟨hp, _, rfl⟩ := step_cases h <;> simp [kind, outcome, hp]
  size_step := by
    intro c e c' h
    obtain ⟨hp, _, rfl⟩ | ⟨hp, rfl⟩ | ⟨hp, _, rfl⟩ := step_cases h <;> simp [size, hp]
  size_cancel := fun c => by simp [kind, cancel, size]

/-- A task that has returned has done its job. -/
theorem done_of_returned {l : Leaf σ} (h : l.outcome = some .returned) : l.Done := by
  obtain ⟨job, fails, phase⟩ := l
  cases phase <;> simp_all [outcome, Done]

theorem fails_of_raised {l : Leaf σ} (hi : l.Inv) (h : l.outcome = some .raised) :
    l.fails = true := by
  refine hi.raised ?_
  obtain ⟨job, fails, phase⟩ := l
  cases phase <;> simp_all [outcome]

end Leaf

/-! ## Two kinds -/

section Sum

variable {α β E E' : Type}

def sumKind (k : Kind α E) (k' : Kind β E') : Kind (α ⊕ β) (E ⊕ E') where
  step
    | .inl c, .inl e => (k.step c e).map .inl
    | .inr c, .inr e => (k'.step c e).map .inr
    | _, _ => none
  outcome := Sum.elim k.outcome k'.outcome
  cancel := Sum.map k.cancel k'.cancel

theorem sumKind_step_cases {k : Kind α E} {k' : Kind β E'} {c c' : α ⊕ β} {e : E ⊕ E'}
    (h : (sumKind k k').step c e = some c') :
    (∃ a ea a', c = .inl a ∧ k.step a ea = some a' ∧ c' = .inl a') ∨
    (∃ b eb b', c = .inr b ∧ k'.step b eb = some b' ∧ c' = .inr b') := by
  cases c with
  | inl a =>
    cases e with
    | inl ea =>
      obtain ⟨a', ha, rfl⟩ := Option.map_eq_some_iff.mp h
      exact .inl ⟨a, ea, a', rfl, ha, rfl⟩
    | inr eb => cases h
  | inr b =>
    cases e with
    | inl ea => cases h
    | inr eb =>
      obtain ⟨b', hb, rfl⟩ := Option.map_eq_some_iff.mp h
      exact .inr ⟨b, eb, b', rfl, hb, rfl⟩

def sumLawful {k : Kind α E} {k' : Kind β E'} (L : Lawful k) (L' : Lawful k') :
    Lawful (sumKind k k') where
  Inv := Sum.elim L.Inv L'.Inv
  touched := Sum.elim L.touched L'.touched
  size := Sum.elim L.size L'.size
  inv_step := by
    intro c e c' hi h
    obtain ⟨a, ea, a', rfl, ha, rfl⟩ | ⟨b, eb, b', rfl, hb, rfl⟩ := sumKind_step_cases h
    · exact L.inv_step hi ha
    · exact L'.inv_step hi hb
  inv_cancel := by
    intro c hi h
    cases c with
    | inl a => exact L.inv_cancel hi h
    | inr b => exact L'.inv_cancel hi h
  touched_step := by
    intro c e c' h
    obtain ⟨a, ea, a', rfl, ha, rfl⟩ | ⟨b, eb, b', rfl, hb, rfl⟩ := sumKind_step_cases h
    · exact L.touched_step ha
    · exact L'.touched_step hb
  touched_of_cancelled := by
    intro c hi h
    cases c with
    | inl a => exact L.touched_of_cancelled hi h
    | inr b => exact L'.touched_of_cancelled hi h
  progress := by
    intro c hi h
    cases c with
    | inl a =>
      obtain ⟨e, a', ha⟩ := L.progress hi h
      exact ⟨.inl e, .inl a', Option.map_eq_some_iff.mpr ⟨a', ha, rfl⟩⟩
    | inr b =>
      obtain ⟨e, b', hb⟩ := L'.progress hi h
      exact ⟨.inr e, .inr b', Option.map_eq_some_iff.mpr ⟨b', hb, rfl⟩⟩
  unfinished := by
    intro c e c' h
    obtain ⟨a, ea, a', rfl, ha, rfl⟩ | ⟨b, eb, b', rfl, hb, rfl⟩ := sumKind_step_cases h
    · exact L.unfinished ha
    · exact L'.unfinished hb
  size_step := by
    intro c e c' h
    obtain ⟨a, ea, a', rfl, ha, rfl⟩ | ⟨b, eb, b', rfl, hb, rfl⟩ := sumKind_step_cases h
    · exact L.size_step ha
    · exact L'.size_step hb
  size_cancel := by
    intro c
    cases c with
    | inl a => exact L.size_cancel a
    | inr b => exact L'.size_cancel b

end Sum

/-! ## Groups -/

/-- `began`: the children have been created; `aborting`: they have been cancelled; `touched`: the
group has been cancelled itself. -/
structure TaskGroup (α : Type) where
  began : Bool
  children : List α
  aborting : Bool
  touched : Bool
  outcome : Option Outcome

inductive GroupEvent (E : Type) where
  | begin
  | child (i : Nat) (e : E)
  | abort
  | join

namespace TaskGroup

variable {α E : Type}

/-- A group whose task has not run yet. -/
def new (children : List α) : TaskGroup α := ⟨false, children, false, false, none⟩

section Step

variable (k : Kind α E)

/-- Cancelling a task that may have ended. -/
def halt (c : α) : α := if k.outcome c = none then k.cancel c else c

/-- Some child has raised. -/
def Failed (g : TaskGroup α) : Prop := ∃ c ∈ g.children, k.outcome c = some .raised

instance (g : TaskGroup α) : Decidable (g.Failed k) :=
  inferInstanceAs (Decidable (∃ c ∈ g.children, k.outcome c = some .raised))

/-- What the group ends with when its children have ended. -/
def result (g : TaskGroup α) : Outcome :=
  if g.Failed k then .raised else if g.touched then .cancelled else .returned

def step (g : TaskGroup α) : GroupEvent E → Option (TaskGroup α)
  | .begin => if g.began = false ∧ g.outcome = none then some { g with began := true } else none
  | .child i e =>
    if g.began = true ∧ g.outcome = none then
      g.children[i]?.bind fun c =>
        (k.step c e).map fun c' => { g with children := g.children.set i c' }
    else none
  | .abort =>
    if (g.began = true ∧ g.outcome = none) ∧ g.aborting = false ∧ g.Failed k then
      some { g with aborting := true, children := g.children.map (halt k) }
    else none
  | .join =>
    if (g.began = true ∧ g.outcome = none) ∧ (∀ c ∈ g.children, k.outcome c ≠ none) ∧
        (g.Failed k → g.aborting = true) then
      some { g with outcome := some (g.result k) }
    else none

/-- A group that has not begun never will. -/
def cancel (g : TaskGroup α) : TaskGroup α :=
  if g.began then
    { g with aborting := true, touched := true, children := g.children.map (halt k) }
  else { g with touched := true, outcome := some .cancelled }

def kind : Kind (TaskGroup α) (GroupEvent E) := ⟨step k, TaskGroup.outcome, cancel k⟩

end Step

variable {k : Kind α E}

/-- What an event does, and what it takes. -/
theorem step_cases {g g' : TaskGroup α} {e : GroupEvent E} (h : g.step k e = some g') :
    g.outcome = none ∧
    ((g.began = false ∧ g' = { g with began := true }) ∨
    (g.began = true ∧ ∃ i c e c', g.children[i]? = some c ∧ k.step c e = some c' ∧
      g' = { g with children := g.children.set i c' }) ∨
    (g.began = true ∧ g.aborting = false ∧ g.Failed k ∧
      g' = { g with aborting := true, children := g.children.map (halt k) }) ∨
    (g.began = true ∧ (∀ c ∈ g.children, k.outcome c ≠ none) ∧ (g.Failed k → g.aborting = true) ∧
      g' = { g with outcome := some (g.result k) })) := by
  cases e with
  | begin =>
    rw [step] at h
    split at h
    · rename_i hg
      cases h
      exact ⟨hg.2, .inl ⟨hg.1, rfl⟩⟩
    · cases h
  | child i e =>
    rw [step] at h
    split at h
    · rename_i hg
      obtain ⟨c, hc, h⟩ := Option.bind_eq_some_iff.mp h
      obtain ⟨c', hs, rfl⟩ := Option.map_eq_some_iff.mp h
      exact ⟨hg.2, .inr (.inl ⟨hg.1, i, c, e, c', hc, hs, rfl⟩)⟩
    · cases h
  | abort =>
    rw [step] at h
    split at h
    · rename_i hg
      cases h
      exact ⟨hg.1.2, .inr (.inr (.inl ⟨hg.1.1, hg.2.1, hg.2.2, rfl⟩))⟩
    · cases h
  | join =>
    rw [step] at h
    split at h
    · rename_i hg
      cases h
      exact ⟨hg.1.2, .inr (.inr (.inr ⟨hg.1.1, hg.2.1, hg.2.2, rfl⟩))⟩
    · cases h

theorem map_halt {γ : Type} {f : α → γ} (hc : ∀ c, f (k.cancel c) = f c) {l : List α} :
    (l.map (halt k)).map f = l.map f := by
  rw [List.map_map]
  refine List.map_congr_left fun c _ => ?_
  rw [Function.comp_apply, halt]
  split
  · exact hc c
  · rfl

/-- Cancelling a child leaves what has raised as it is. -/
theorem halt_of_ended {c : α} {r : Outcome} (h : k.outcome c = some r) : halt k c = c := by
  rw [halt, if_neg]
  simp [h]

theorem exists_raised_halt {l : List α} (h : ∃ c ∈ l, k.outcome c = some .raised) :
    ∃ c ∈ l.map (halt k), k.outcome c = some .raised := by
  obtain ⟨c, hc, hr⟩ := h
  exact ⟨c, List.mem_map.mpr ⟨c, hc, halt_of_ended hr⟩, hr⟩

/-- A step of a child leaves what has raised as it is. -/
theorem exists_raised_set {l : List α} {i : Nat} {c c' : α} (hc : l[i]? = some c)
    (hu : k.outcome c = none) (h : ∃ c ∈ l, k.outcome c = some .raised) :
    ∃ c ∈ l.set i c', k.outcome c = some .raised := by
  obtain ⟨d, hd, hr⟩ := h
  obtain ⟨j, hj⟩ := List.mem_iff_getElem?.mp hd
  have hij : i ≠ j := by
    rintro rfl
    rw [hc] at hj
    cases hj
    rw [hu] at hr
    cases hr
  refine ⟨d, List.mem_iff_getElem?.mpr ⟨j, ?_⟩, hr⟩
  rw [List.getElem?_set_ne hij, hj]

variable (L : Lawful k)

structure Inv (g : TaskGroup α) : Prop where
  children : ∀ c ∈ g.children, L.Inv c
  calm : g.aborting = false → ∀ c ∈ g.children, L.touched c = false
  failed : g.aborting = true → g.touched = true ∨ g.Failed k
  ended : ∀ r, g.outcome = some r → (g.touched = true ∧ r = .cancelled) ∨
    ((∀ c ∈ g.children, k.outcome c ≠ none) ∧ r = g.result k)

variable {L}

theorem inv_new {children : List α} (h : ∀ c ∈ children, L.Inv c ∧ L.touched c = false) :
    Inv L (new children) :=
  ⟨fun c hc => (h c hc).1, fun _ c hc => (h c hc).2, nofun, nofun⟩

theorem inv_halt {l : List α} (h : ∀ c ∈ l, L.Inv c) : ∀ c ∈ l.map (halt k), L.Inv c := by
  intro c hc
  obtain ⟨d, hd, rfl⟩ := List.mem_map.mp hc
  rw [halt]
  split
  · rename_i ho
    exact L.inv_cancel (h d hd) ho
  · exact h d hd

theorem inv_step {g g' : TaskGroup α} {e : GroupEvent E} (hi : Inv L g) (h : g.step k e = some g') :
    Inv L g' := by
  obtain ⟨ho, ⟨_, rfl⟩ | ⟨_, i, c, e, c', hc, hs, rfl⟩ | ⟨_, _, hf, rfl⟩ | ⟨_, hall, _, rfl⟩⟩ :=
    step_cases h
  · exact ⟨hi.children, hi.calm, hi.failed, hi.ended⟩
  · have hmem := List.mem_of_getElem? hc
    refine ⟨?_, ?_, ?_, fun r hr => absurd (ho.symm.trans hr) (by simp)⟩
    · intro d hd
      rcases List.mem_or_eq_of_mem_set hd with hd | rfl
      · exact hi.children d hd
      · exact L.inv_step (hi.children c hmem) hs
    · intro ha d hd
      rcases List.mem_or_eq_of_mem_set hd with hd | rfl
      · exact hi.calm ha d hd
      · rw [L.touched_step hs]
        exact hi.calm ha c hmem
    · intro ha
      exact (hi.failed ha).imp_right (exists_raised_set hc (L.unfinished hs))
  · exact ⟨inv_halt hi.children, nofun, fun _ => .inr (exists_raised_halt hf),
      fun r hr => absurd (ho.symm.trans hr) (by simp)⟩
  · refine ⟨hi.children, hi.calm, hi.failed, fun r hr => .inr ⟨hall, ?_⟩⟩
    exact (Option.some.inj hr).symm

theorem inv_cancel {g : TaskGroup α} (hi : Inv L g) (ho : g.outcome = none) : Inv L (g.cancel k) := by
  rw [cancel]
  split
  · exact ⟨inv_halt hi.children, nofun, fun _ => .inl rfl,
      fun r hr => absurd (ho.symm.trans hr) (by simp)⟩
  · exact ⟨hi.children, hi.calm, fun _ => .inl rfl, fun r hr => .inl ⟨rfl, (Option.some.inj hr).symm⟩⟩

/-- A group that has not been cancelled itself returns exactly if all its children do, and raises
otherwise. -/
theorem returned_iff {g : TaskGroup α} (hi : Inv L g) (ht : g.touched = false) {r : Outcome}
    (ho : g.outcome = some r) :
    (r = .returned ↔ ∀ c ∈ g.children, k.outcome c = some .returned) ∧
      (r ≠ .returned → r = .raised ∧ g.Failed k) := by
  rcases hi.ended r ho with ⟨h, _⟩ | ⟨hall, rfl⟩
  · rw [ht] at h
    cases h
  · rw [result, ht]
    by_cases hf : g.Failed k
    · rw [if_pos hf]
      refine ⟨iff_of_false nofun ?_, fun _ => ⟨rfl, hf⟩⟩
      intro hret
      obtain ⟨c, hc, hr⟩ := hf
      rw [hret c hc] at hr
      cases hr
    · rw [if_neg hf]
      refine ⟨iff_of_true rfl ?_, fun h => absurd rfl h⟩
      intro c hc
      have ha : g.aborting = false := by
        cases ha : g.aborting with
        | false => rfl
        | true =>
          rcases hi.failed ha with h | h
          · rw [ht] at h
            cases h
          · exact absurd h hf
      cases hc' : k.outcome c with
      | none => exact absurd hc' (hall c hc)
      | some r =>
        cases r with
        | returned => rfl
        | raised => exact absurd ⟨c, hc, hc'⟩ hf
        | cancelled =>
          have := L.touched_of_cancelled (hi.children c hc) hc'
          rw [hi.calm ha c hc] at this
          cases this

/-- A group that returns has not been cancelled itself. -/
theorem touched_of_returned {g : TaskGroup α} (hi : Inv L g) (h : g.outcome = some .returned) :
    g.touched = false := by
  rcases hi.ended _ h with ⟨_, hr⟩ | ⟨_, hr⟩
  · cases hr
  · rw [result] at hr
    split at hr
    · cases hr
    · split at hr
      · cases hr
      · rename_i ht
        simpa using ht

theorem failed_of_raised {g : TaskGroup α} (hi : Inv L g) (h : g.outcome = some .raised) :
    g.Failed k := by
  rcases hi.ended _ h with ⟨_, hr⟩ | ⟨_, hr⟩
  · cases hr
  · rw [result] at hr
    split at hr
    · assumption
    · split at hr <;> cases hr

/-! ### A group is a task -/

theorem sum_map_set_lt {f : α → Nat} {l : List α} {i : Nat} {c c' : α} (hc : l[i]? = some c)
    (h : f c' < f c) : ((l.set i c').map f).sum < (l.map f).sum := by
  induction l generalizing i with
  | nil => cases hc
  | cons d l ih =>
    cases i with
    | zero =>
      cases hc
      simpa using h
    | succ i =>
      have := ih (i := i) (by simpa using hc)
      simpa using this

theorem sum_map_halt_le (l : List α) : ((l.map (halt k)).map L.size).sum ≤ (l.map L.size).sum := by
  rw [List.map_map]
  refine List.sum_le_sum fun c _ => ?_
  rw [Function.comp_apply, halt]
  split
  · exact L.size_cancel c
  · exact le_refl _

variable (L) in
def size (g : TaskGroup α) : Nat :=
  (if g.outcome = none then 1 else 0) + (if g.began then 0 else 1) + (if g.aborting then 0 else 1) +
    (g.children.map L.size).sum

/-- While the group has not ended, a child can go on or the group itself can. -/
theorem progress {g : TaskGroup α} (hi : Inv L g) (ho : g.outcome = none) :
    ∃ e g', g.step k e = some g' := by
  cases hb : g.began with
  | false => exact ⟨.begin, _, if_pos ⟨hb, ho⟩⟩
  | true =>
    by_cases hall : ∀ c ∈ g.children, k.outcome c ≠ none
    · by_cases hf : g.Failed k ∧ g.aborting = false
      · exact ⟨.abort, _, if_pos ⟨⟨hb, ho⟩, hf.2, hf.1⟩⟩
      · refine ⟨.join, _, if_pos ⟨⟨hb, ho⟩, hall, fun h => ?_⟩⟩
        simpa using not_and.mp hf h
    · push Not at hall
      obtain ⟨c, hc, hn⟩ := hall
      obtain ⟨i, hget⟩ := List.mem_iff_getElem?.mp hc
      obtain ⟨e, c', hs⟩ := L.progress (hi.children c hc) hn
      refine ⟨.child i e, { g with children := g.children.set i c' }, ?_⟩
      rw [step, if_pos ⟨hb, ho⟩, hget, Option.bind_some, hs]
      rfl

theorem size_step {g g' : TaskGroup α} {e : GroupEvent E} (h : g.step k e = some g') :
    size L g' < size L g := by
  obtain ⟨ho, ⟨hb, rfl⟩ | ⟨_, i, c, e, c', hc, hs, rfl⟩ | ⟨_, ha, _, rfl⟩ | ⟨_, _, _, rfl⟩⟩ :=
    step_cases h
  · simp [size, hb]
  · have := sum_map_set_lt (f := L.size) hc (L.size_step hs)
    simp only [size]
    omega
  · have := sum_map_halt_le (L := L) g.children
    simp only [size, ha, Bool.false_eq_true, if_false, if_true]
    omega
  · simp [size, ho]

theorem size_cancel (g : TaskGroup α) : size L (g.cancel k) ≤ size L g := by
  have := sum_map_halt_le (L := L) g.children
  rw [cancel]
  split
  · simp only [size, if_true]
    omega
  · simp [size]

variable (L) in
def lawful : Lawful (kind k) where
  Inv := Inv L
  touched := TaskGroup.touched
  size := size L
  inv_step := inv_step
  inv_cancel := inv_cancel
  touched_step := by
    intro g e g' h
    obtain ⟨_, ⟨_, rfl⟩ | ⟨_, i, c, e, c', _, _, rfl⟩ | ⟨_, _, _, rfl⟩ | ⟨_, _, _, rfl⟩⟩ :=
      step_cases h <;> rfl
  touched_of_cancelled := by
    intro g hi h
    rcases hi.ended _ h with ⟨ht, _⟩ | ⟨_, hr⟩
    · exact ht
    · rw [result] at hr
      split at hr
      · cases hr
      · split at hr
        · assumption
        · cases hr
  progress := progress
  unfinished := fun h => (step_cases h).1
  size_step := size_step
  size_cancel := size_cancel

theorem map_children_cancel {γ : Type} {f : α → γ} (hc : ∀ c, f (k.cancel c) = f c) (g : TaskGroup α) :
    (g.cancel k).children.map f = g.children.map f := by
  rw [cancel]
  split
  · exact map_halt hc
  · rfl

/-- What the children keep, the group keeps of all of them. -/
theorem map_children_step {γ : Type} {f : α → γ} (hs : ∀ {c e c'}, k.step c e = some c' → f c' = f c)
    (hc : ∀ c, f (k.cancel c) = f c) {g g' : TaskGroup α} {e : GroupEvent E}
    (h : g.step k e = some g') : g'.children.map f = g.children.map f := by
  obtain ⟨_, ⟨_, rfl⟩ | ⟨_, i, c, e, c', hget, hst, rfl⟩ | ⟨_, _, _, rfl⟩ | ⟨_, _, _, rfl⟩⟩ :=
    step_cases h
  · rfl
  · refine List.ext_getElem? fun j => ?_
    by_cases hij : i = j
    · subst hij
      obtain ⟨hlt, rfl⟩ := List.getElem?_eq_some_iff.mp hget
      simp [hlt, hs hst]
    · simp [List.getElem?_set_ne hij]
  · exact map_halt hc
  · rfl

end TaskGroup

end Tasks
