import BvexLink.Ground.Reallocation

/-!
# BvexLink.Ground.Aexit

`MetricSubscribeHandler.__aexit__` beside what goes on until it has finished: the sync task, the
updates under way, and the `subscribe` tasks, which end with `CancelledError` or with an exception
of their own. `asyncio.gather` leaves the update queues running when another of its coroutines has
raised, so updates go on while `__aexit__` waits.

* `loop_cases`: where the loop over `metric_subscriptions` stops.
* `aexit_iff`: what is finished when `__aexit__` is.
-/

namespace BvexLink
namespace Ground
namespace Aexit

open ListUpdate

abbrev Status := Reallocation.TaskStatus

/-- An `update_bps` at `await old_task`. `sync` if it is one of the sync task's group. -/
structure Update where
  sync : Bool
  metricId : String
  oldTask : TaskId
  deriving DecidableEq

/-- How far `__aexit__` is: `task i k` awaits the task `k`, the value at place `i`. -/
inductive Phase where
  | before
  | sync
  | task (i : Nat) (k : TaskId)
  | returned
  | raised
  deriving DecidableEq

/-- `metricSubscriptions` is in the order of the dict. -/
structure Handler where
  syncTask : Status
  metricSubscriptions : List (String × TaskId)
  subscribeTasks : List Status
  updates : List Update
  aexit : Phase

/-- `taskEnds` and `syncEnds` are by `CancelledError`. The coroutine that resumes is `cancelled` if
it was cancelled itself while the task it waits for was done already: it then gets a
`CancelledError` in place of the task's exception. -/
inductive Event where
  | addMetric (metric_id : String)
  | updateBps (sync : Bool) (metric_id : String)
  | resumeUpdate (u : Update) (cancelled : Bool)
  | taskEnds (k : TaskId)
  | taskFails (k : TaskId)
  | syncEnds
  | syncFails
  | aexit
  | resumeAexit (cancelled : Bool)

/-- `d[key] = value`: a key that is there keeps its place. -/
def setItem : List (String × TaskId) → String → TaskId → List (String × TaskId)
  | [], m, k => [(m, k)]
  | (m', k') :: d, m, k => if m' = m then (m, k) :: d else (m', k') :: setItem d m k

def cancelStatus (x : Status) : Status := if x = .running then .cancelling else x

namespace Handler

def init : Handler := ⟨.running, [], [], [], .before⟩

variable (s : Handler)

def values : List TaskId := s.metricSubscriptions.map Prod.snd

def status (k : TaskId) : Option Status := s.subscribeTasks[k]?

def Done (k : TaskId) : Prop := s.status k = some .cancelled ∨ s.status k = some .failed

def SyncDone : Prop := s.syncTask = .cancelled ∨ s.syncTask = .failed

def Over : Prop := s.aexit = .returned ∨ s.aexit = .raised

/-- Every task stored in `metric_subscriptions` is finished. -/
def AllDone : Prop := ∀ k ∈ s.values, s.Done k

instance (k : TaskId) : Decidable (s.Done k) := inferInstanceAs (Decidable (_ ∨ _))

instance : Decidable s.SyncDone := inferInstanceAs (Decidable (_ ∨ _))

instance : Decidable s.Over := inferInstanceAs (Decidable (_ ∨ _))

instance : Decidable s.AllDone := inferInstanceAs (Decidable (∀ k ∈ s.values, s.Done k))

def cancel (k : TaskId) : Handler :=
  { s with subscribeTasks := s.subscribeTasks.modify k cancelStatus }

def finish (k : TaskId) (x : Status) : Handler :=
  { s with subscribeTasks := s.subscribeTasks.modify k fun _ => x }

def store (metric_id : String) : Handler :=
  { s with
    metricSubscriptions := setItem s.metricSubscriptions metric_id s.subscribeTasks.length
    subscribeTasks := s.subscribeTasks ++ [.running] }

def updateBps (sync : Bool) (metric_id : String) : Handler :=
  match s.metricSubscriptions.lookup metric_id with
  | none => s
  | some old_task =>
    match s.status old_task with
    | some .cancelled => s.store metric_id
    | some .failed => s
    | _ => { s.cancel old_task with updates := s.updates ++ [⟨sync, metric_id, old_task⟩] }

/-- The loop over the values from place `i` on, up to a task that is not done. -/
def loop (s : Handler) (i : Nat) : List TaskId → Handler
  | [] => { s with aexit := .returned }
  | k :: ks =>
    match s.status k with
    | some .cancelled => loop s (i + 1) ks
    | some .failed => { s with aexit := .raised }
    | _ => { s.cancel k with aexit := .task i k }

/-- What follows `await self.sync_task`, which is done or raises. -/
def afterSync : Handler :=
  if s.syncTask = .failed then { s with aexit := .raised } else s.loop 0 s.values

/-- `__aexit__` up to its end or its first `await` of a task that is not done. -/
def beginAexit : Handler :=
  if s.SyncDone then s.afterSync
  else { s with syncTask := cancelStatus s.syncTask, aexit := .sync }

def event : Event → Option Handler
  | .addMetric m => if s.syncTask = .running then some (s.store m) else none
  | .updateBps sync m => if sync = true ∧ s.SyncDone then none else some (s.updateBps sync m)
  | .resumeUpdate u cancelled =>
    if u ∈ s.updates ∧ s.Done u.oldTask then
      let s' := { s with updates := s.updates.erase u }
      some (if s.status u.oldTask = some .cancelled ∨ cancelled = true then s'.store u.metricId
        else s')
    else none
  | .taskEnds k => if s.status k = some .cancelling then some (s.finish k .cancelled) else none
  | .taskFails k =>
    if s.status k = some .running ∨ s.status k = some .cancelling then some (s.finish k .failed)
    else none
  -- a task group ends after its children
  | .syncEnds =>
    if s.syncTask = .cancelling ∧ ∀ u ∈ s.updates, u.sync = false then
      some { s with syncTask := .cancelled }
    else none
  | .syncFails =>
    if ¬s.SyncDone ∧ ∀ u ∈ s.updates, u.sync = false then some { s with syncTask := .failed }
    else none
  | .aexit => if s.aexit = .before then some s.beginAexit else none
  | .resumeAexit cancelled =>
    match s.aexit with
    | .sync =>
      if s.SyncDone then some (if cancelled then s.loop 0 s.values else s.afterSync) else none
    | .task i k =>
      if s.Done k then
        some (if s.status k = some .failed ∧ cancelled = false then { s with aexit := .raised }
          -- the values are those the dict has now
          else s.loop (i + 1) (s.values.drop (i + 1)))
      else none
    | _ => none

/-- The events up to the end of `__aexit__`. -/
def step (e : Event) : Option Handler := if s.Over then none else s.event e

abbrev Steps : Handler → List Event → Handler → Prop := Trace.Run (Trace.ofFn step)

/-! ## What goes wrong -/

/-- The first of these tasks that has not ended by `CancelledError`. -/
def next (ks : List TaskId) : Option TaskId :=
  ks.find? fun k => decide (s.status k ≠ some .cancelled)

/-- The loop meets a task that has failed before one that is not done. -/
def Meets (ks : List TaskId) : Prop := (s.next ks).bind s.status = some .failed

/-- The task it has waited for raises an exception other than `CancelledError`, or one the loop
goes on to. -/
def ResumeRaises (cancelled : Bool) : Phase → Prop
  | .sync => s.syncTask = .failed ∧ cancelled = false ∨ s.Meets s.values
  | .task i k => s.status k = some .failed ∧ cancelled = false ∨ s.Meets (s.values.drop (i + 1))
  | _ => False

/-- An exception other than `CancelledError` comes to `__aexit__`. -/
def Raises : Event → Prop
  | .aexit => s.syncTask = .failed ∨ s.syncTask = .cancelled ∧ s.Meets s.values
  | .resumeAexit cancelled => s.ResumeRaises cancelled s.aexit
  | _ => False

/-- It comes only when no stored task is left to cancel. -/
def Quiet (e : Event) : Prop := s.Raises e → s.AllDone

/-- The metric an update stores a new task for. -/
def stores : Event → Option String
  | .updateBps _ m =>
    if (s.metricSubscriptions.lookup m).bind s.status = some .cancelled then some m else none
  | .resumeUpdate u cancelled =>
    if s.status u.oldTask = some .cancelled ∨ cancelled = true then some u.metricId else none
  | _ => none

/-- The metrics the loop has come to. -/
def reached : List String :=
  match s.aexit with
  | .task i _ => (s.metricSubscriptions.take (i + 1)).map Prod.fst
  | _ => []

/-- No update stores a task behind the loop. -/
def Ahead (e : Event) : Prop := ∀ m ∈ s.stores e, m ∉ s.reached

instance (ks : List TaskId) : Decidable (s.Meets ks) := inferInstanceAs (Decidable (_ = _))

instance (cancelled : Bool) (p : Phase) : Decidable (s.ResumeRaises cancelled p) :=
  match p with
  | .sync => inferInstanceAs (Decidable (_ ∧ _ ∨ s.Meets _))
  | .task _ _ => inferInstanceAs (Decidable (_ ∧ _ ∨ s.Meets _))
  | .before | .returned | .raised => inferInstanceAs (Decidable False)

instance (e : Event) : Decidable (s.Raises e) :=
  match e with
  | .aexit => inferInstanceAs (Decidable (_ ∨ _ ∧ s.Meets _))
  | .resumeAexit cancelled => inferInstanceAs (Decidable (s.ResumeRaises cancelled s.aexit))
  | .addMetric _ | .updateBps _ _ | .resumeUpdate _ _ | .taskEnds _ | .taskFails _ | .syncEnds
  | .syncFails => inferInstanceAs (Decidable False)

instance (e : Event) : Decidable (s.Quiet e) := inferInstanceAs (Decidable (_ → _))

instance (e : Event) : Decidable (s.Ahead e) :=
  inferInstanceAs (Decidable (∀ m ∈ s.stores e, m ∉ s.reached))

variable {s}

/-! ## The loop -/

theorem status_modify {f : Status → Status} (k j : TaskId) :
    { s with subscribeTasks := s.subscribeTasks.modify k f }.status j =
      (s.status j).map fun x => if k = j then f x else x :=
  List.getElem?_modify ..

theorem done_modify {f : Status → Status} {k j : TaskId} (hf : ∀ x, x = .cancelled ∨ x = .failed →
    f x = .cancelled ∨ f x = .failed) (h : s.Done j) :
    { s with subscribeTasks := s.subscribeTasks.modify k f }.Done j := by
  rw [Done, status_modify]
  rcases h with h | h
  · rw [h]
    by_cases he : k = j
    · simpa [he] using hf .cancelled (.inl rfl)
    · simp [he]
  · rw [h]
    by_cases he : k = j
    · simpa [he] using hf .failed (.inr rfl)
    · simp [he]

theorem done_cancel (k : TaskId) {j : TaskId} (h : s.Done j) : (s.cancel k).Done j := by
  refine done_modify (fun x hx => ?_) h
  rcases hx with rfl | rfl
  · exact .inl rfl
  · exact .inr rfl

theorem done_store (m : String) {j : TaskId} (h : s.Done j) : (s.store m).Done j := by
  have hsnoc : ∀ x, s.status j = some x → (s.store m).status j = some x :=
    fun x hx => getElem?_snoc.mpr (.inl hx)
  exact h.imp (hsnoc _) (hsnoc _)

/-- Where the loop over the values from place `i` on stops. -/
inductive LoopCase (s : Handler) (i : Nat) (ks : List TaskId) : Handler → Prop where
  | returned : ¬s.Meets ks → (∀ k ∈ ks, s.Done k) → LoopCase s i ks { s with aexit := .returned }
  | raised : s.Meets ks → LoopCase s i ks { s with aexit := .raised }
  | waits {pre post : List TaskId} {k : TaskId} : ¬s.Meets ks → ks = pre ++ k :: post →
      (∀ j ∈ pre, s.Done j) → LoopCase s i ks { s.cancel k with aexit := .task (i + pre.length) k }

theorem meets_cons_cancelled {k : TaskId} {ks : List TaskId} (hk : s.status k = some .cancelled) :
    s.Meets (k :: ks) ↔ s.Meets ks := by
  simp [Meets, next, hk]

theorem meets_cons {k : TaskId} {ks : List TaskId} (hk : s.status k ≠ some .cancelled) :
    s.Meets (k :: ks) ↔ s.status k = some .failed := by
  simp [Meets, next, hk]

theorem loop_cases (i : Nat) (ks : List TaskId) : LoopCase s i ks (s.loop i ks) := by
  induction ks generalizing i with
  | nil => exact .returned (by simp [Meets, next]) (by simp)
  | cons k ks ih =>
    by_cases hc : s.status k = some .cancelled
    · have hloop : s.loop i (k :: ks) = s.loop (i + 1) ks := by simp only [loop, hc]
      rw [hloop]
      have hk : s.Done k := .inl hc
      have hrest := ih (i + 1)
      generalize s.loop (i + 1) ks = t at hrest ⊢
      cases hrest with
      | returned hm hall =>
        refine .returned (by rwa [meets_cons_cancelled hc]) fun j hj => ?_
        rcases List.mem_cons.mp hj with rfl | hj
        · exact hk
        · exact hall j hj
      | raised hm => exact .raised ((meets_cons_cancelled hc).mpr hm)
      | @waits pre post k' hm hks hpre =>
        have hlen : i + 1 + pre.length = i + (k :: pre).length := by
          rw [List.length_cons]
          omega
        rw [hlen]
        refine .waits (by rwa [meets_cons_cancelled hc]) (congrArg (k :: ·) hks) fun j hj => ?_
        rcases List.mem_cons.mp hj with rfl | hj
        · exact hk
        · exact hpre j hj
    · by_cases hf : s.status k = some .failed
      · have hloop : s.loop i (k :: ks) = { s with aexit := .raised } := by simp only [loop, hf]
        rw [hloop]
        exact .raised ((meets_cons hc).mpr hf)
      · have hloop : s.loop i (k :: ks) = { s.cancel k with aexit := .task i k } := by
          rw [loop]
          split
          · contradiction
          · contradiction
          · rfl
        rw [hloop]
        exact @LoopCase.waits s i (k :: ks) [] ks k (by rwa [meets_cons hc]) rfl (by simp)

/-! ## One step -/

/-- What the loop has passed is done, and it awaits the value it has come to. -/
structure Inv (s : Handler) : Prop where
  sync : ∀ {i : Nat} {k : TaskId}, s.aexit = .task i k → s.SyncDone
  passed : ∀ {i : Nat} {k : TaskId}, s.aexit = .task i k → ∀ j ∈ s.values.take i, s.Done j
  awaited : ∀ {i : Nat} {k : TaskId}, s.aexit = .task i k → s.values[i]? = some k

theorem inv_init : Inv init := ⟨by simp [init], by simp [init], by simp [init]⟩

/-- What `__aexit__` does when it begins or goes on. -/
inductive ExitCase (s : Handler) : Event → Handler → Prop where
  | waits : s.aexit = .before → ¬s.SyncDone →
      ExitCase s .aexit { s with syncTask := cancelStatus s.syncTask, aexit := .sync }
  | raises {e : Event} : s.SyncDone → s.Raises e → ExitCase s e { s with aexit := .raised }
  | loop {e : Event} {i : Nat} : s.SyncDone → (∀ j ∈ s.values.take i, s.Done j) →
      (s.Raises e ↔ s.Meets (s.values.drop i)) → ExitCase s e (s.loop i (s.values.drop i))

/-- What another event leaves of what `__aexit__` sees. -/
structure Beside (s t : Handler) : Prop where
  aexit : t.aexit = s.aexit
  sync : s.SyncDone → t.SyncDone
  done : ∀ {j : TaskId}, s.Done j → t.Done j
  taken : ∀ {i : Nat} {k : TaskId}, s.aexit = .task i k → i < s.values.length →
    t.values.take (i + 1) = s.values.take (i + 1)

theorem take_setItem {d : List (String × TaskId)} {m : String} {k : TaskId} {n : Nat}
    (hn : n ≤ d.length) (hm : m ∉ (d.take n).map Prod.fst) :
    (setItem d m k).take n = d.take n := by
  induction d generalizing n with
  | nil =>
    obtain rfl : n = 0 := by simpa using hn
    rfl
  | cons p d ih =>
    cases n with
    | zero => rfl
    | succ n =>
      rw [List.take_succ_cons, List.map_cons, List.mem_cons, not_or] at hm
      rw [setItem, if_neg (fun h => hm.1 h.symm), List.take_succ_cons, List.take_succ_cons,
        ih (by simpa using hn) hm.2]

theorem beside_store {m : String} (hm : m ∉ s.reached) : Beside s (s.store m) := by
  refine ⟨rfl, id, done_store m, fun {i k} hp hi => ?_⟩
  rw [reached, hp] at hm
  rw [values, values, ← List.map_take, ← List.map_take, store,
    take_setItem (by simpa [values] using hi) hm]

theorem beside_event (hi : Inv s) {t : Handler} {e : Event} (ha : s.Ahead e)
    (h : s.event e = some t) (he : e ≠ .aexit) (he' : ∀ c, e ≠ .resumeAexit c) : Beside s t := by
  have hrefl : Beside s s := ⟨rfl, id, id, fun _ _ => rfl⟩
  cases e with
  | addMetric m =>
    simp only [event] at h
    split at h <;> cases h
    rename_i hr
    refine beside_store ?_
    rw [reached]
    split
    · rename_i hp
      simpa [SyncDone, hr] using hi.sync hp
    · simp
  | updateBps sync m =>
    simp only [event] at h
    split at h <;> cases h
    rw [updateBps]
    cases hl : s.metricSubscriptions.lookup m with
    | none => exact hrefl
    | some k =>
      simp only
      split
      · rename_i hs
        exact beside_store (ha m (by simp [stores, hl, hs]))
      · exact hrefl
      · exact ⟨rfl, id, done_cancel k, fun _ _ => rfl⟩
  | resumeUpdate u cancelled =>
    simp only [event] at h
    split at h <;> cases h
    split
    · rename_i hs
      obtain ⟨h1, h2, h3, h4⟩ := beside_store (ha u.metricId (by simp [stores, hs]))
      exact ⟨h1, h2, h3, h4⟩
    · exact ⟨rfl, id, id, fun _ _ => rfl⟩
  | taskEnds k =>
    simp only [event] at h
    split at h <;> cases h
    exact ⟨rfl, id, done_modify fun _ _ => .inl rfl, fun _ _ => rfl⟩
  | taskFails k =>
    simp only [event] at h
    split at h <;> cases h
    exact ⟨rfl, id, done_modify fun _ _ => .inr rfl, fun _ _ => rfl⟩
  | syncEnds =>
    simp only [event] at h
    split at h <;> cases h
    exact ⟨rfl, fun _ => .inl rfl, id, fun _ _ => rfl⟩
  | syncFails =>
    simp only [event] at h
    split at h <;> cases h
    exact ⟨rfl, fun _ => .inr rfl, id, fun _ _ => rfl⟩
  | aexit => contradiction
  | resumeAexit c => exact absurd rfl (he' c)

theorem exit_cases (hi : Inv s) {t : Handler} {e : Event} (h : s.event e = some t)
    (he : e = .aexit ∨ ∃ c, e = .resumeAexit c) : ExitCase s e t := by
  have hzero : s.values.drop 0 = s.values := rfl
  rcases he with rfl | ⟨cancelled, rfl⟩
  · simp only [event] at h
    split at h <;> cases h
    rename_i hb
    rw [beginAexit]
    split
    · rename_i hd
      rw [afterSync]
      split
      · rename_i hf
        exact .raises hd (.inl hf)
      · rename_i hf
        refine @ExitCase.loop s .aexit 0 hd (by simp) ?_
        simp [Raises, hd.resolve_right hf]
    · rename_i hd
      exact .waits hb hd
  · simp only [event] at h
    split at h
    · rename_i hp
      split at h <;> cases h
      rename_i hd
      have hloop : ¬(s.syncTask = .failed ∧ cancelled = false) →
          ExitCase s (.resumeAexit cancelled) (s.loop 0 s.values) := by
        intro hn
        refine @ExitCase.loop s (.resumeAexit cancelled) 0 hd (by simp) ?_
        simp only [Raises, hp, ResumeRaises, hzero]
        exact or_iff_right hn
      cases cancelled with
      | true => exact hloop (by simp)
      | false =>
        simp only [Bool.false_eq_true, if_false, afterSync]
        split
        · rename_i hf
          refine .raises hd ?_
          simp only [Raises, hp, ResumeRaises]
          exact .inl ⟨hf, trivial⟩
        · rename_i hf
          exact hloop fun hn => hf hn.1
    · rename_i i k hp
      split at h <;> cases h
      rename_i hk
      split
      · rename_i hf
        refine .raises (hi.sync hp) ?_
        simp only [Raises, hp, ResumeRaises]
        exact .inl hf
      · rename_i hn
        refine .loop (hi.sync hp) (fun j hj => ?_) ?_
        · rw [List.take_add_one, hi.awaited hp, List.mem_append] at hj
          rcases hj with hj | hj
          · exact hi.passed hp j hj
          · obtain rfl : j = k := by simpa using hj
            exact hk
        · simp only [Raises, hp, ResumeRaises]
          exact or_iff_right hn
    · cases h

theorem step_eq_some {t : Handler} {e : Event} :
    s.step e = some t ↔ ¬s.Over ∧ s.event e = some t := by
  unfold step
  split
  · simp_all
  · simp_all

theorem step_cases (hi : Inv s) {t : Handler} {e : Event} (ha : s.Ahead e)
    (h : s.step e = some t) :
    ¬s.Over ∧ (ExitCase s e t ∨ Beside s t ∧ ¬s.Raises e) := by
  obtain ⟨ho, h⟩ := step_eq_some.mp h
  refine ⟨ho, ?_⟩
  cases e with
  | aexit => exact .inl (exit_cases hi h (.inl rfl))
  | resumeAexit c => exact .inl (exit_cases hi h (.inr ⟨c, rfl⟩))
  | _ => exact .inr ⟨beside_event hi ha h (by simp) (by simp), id⟩

theorem inv_step (hi : Inv s) {t : Handler} {e : Event} (ha : s.Ahead e)
    (h : s.step e = some t) : Inv t := by
  obtain ⟨_, hc | ⟨hb, _⟩⟩ := step_cases hi ha h
  · cases hc with
    | waits _ _ => exact ⟨by simp, by simp, by simp⟩
    | raises _ _ => exact ⟨by simp, by simp, by simp⟩
    | @loop _ i hd htake _ =>
      have hl := loop_cases (s := s) i (s.values.drop i)
      generalize s.loop i (s.values.drop i) = t at hl
      cases hl with
      | returned _ _ => exact ⟨by simp, by simp, by simp⟩
      | raised _ => exact ⟨by simp, by simp, by simp⟩
      | @waits pre post k _ hks hpre =>
        have hsplit : s.values = s.values.take i ++ (pre ++ k :: post) := by
          rw [← hks, List.take_append_drop]
        have hi' : i ≤ s.values.length := by
          by_contra hn
          rw [List.drop_eq_nil_of_le (by omega)] at hks
          simp at hks
        have hlen : (s.values.take i ++ pre).length = i + pre.length := by
          rw [List.length_append, List.length_take, Nat.min_eq_left hi']
        refine ⟨fun _ => hd, fun {i' k'} hp j hj => done_cancel k ?_, fun {i' k'} hp => ?_⟩
        · cases hp
          change j ∈ s.values.take _ at hj
          rw [hsplit, ← List.append_assoc, ← hlen, List.take_left', List.mem_append] at hj
          · exact hj.elim (htake j) (hpre j)
          · rfl
        · cases hp
          change s.values[_]? = _
          rw [hsplit, ← List.append_assoc, ← hlen, List.getElem?_append_right (Nat.le_refl _),
            Nat.sub_self]
          rfl
  · have htaken : ∀ {i : Nat} {k : TaskId}, t.aexit = .task i k →
        s.aexit = .task i k ∧ t.values.take (i + 1) = s.values.take (i + 1) := by
      intro i k hp
      rw [hb.aexit] at hp
      exact ⟨hp, hb.taken hp (List.getElem?_eq_some_iff.mp (hi.awaited hp)).1⟩
    refine ⟨fun hp => hb.sync (hi.sync (htaken hp).1), fun {i k} hp j hj => ?_, fun {i k} hp => ?_⟩
    · obtain ⟨hp, ht⟩ := htaken hp
      refine hb.done (hi.passed hp j ?_)
      have hsub : t.values.take i = (t.values.take (i + 1)).take i := by
        rw [List.take_take, Nat.min_eq_left (Nat.le_succ i)]
      rw [hsub, ht, List.take_take, Nat.min_eq_left (Nat.le_succ i)] at hj
      exact hj
    · obtain ⟨hp, ht⟩ := htaken hp
      rw [← List.getElem?_take_of_lt (Nat.lt_succ_self i), ht,
        List.getElem?_take_of_lt (Nat.lt_succ_self i)]
      exact hi.awaited hp

/-- If `__aexit__` has finished, so have the sync task and every stored task. -/
def Settled (s : Handler) : Prop := s.Over → s.SyncDone ∧ s.AllDone

theorem settled_step (hi : Inv s) {t : Handler} {e : Event} (ha : s.Ahead e)
    (h : s.step e = some t) : t.Settled ↔ s.Quiet e := by
  obtain ⟨ho, hc | ⟨hb, hr⟩⟩ := step_cases hi ha h
  · cases hc with
    | waits _ hd =>
      refine iff_of_true (fun ho' => ?_) fun hr => ?_
      · simp [Over] at ho'
      · exact absurd (hr.elim .inr fun hr => .inl hr.1) hd
    | raises hd hr => exact ⟨fun h _ => (h (.inr rfl)).2, fun h _ => ⟨hd, h hr⟩⟩
    | @loop _ i hd htake hr =>
      have hl := loop_cases (s := s) i (s.values.drop i)
      generalize s.loop i (s.values.drop i) = t at hl
      cases hl with
      | returned hm hall =>
        refine iff_of_true (fun _ => ⟨hd, fun k hk => ?_⟩) fun hr' => absurd (hr.mp hr') hm
        change k ∈ s.values at hk
        rw [← List.take_append_drop i s.values, List.mem_append] at hk
        exact hk.elim (htake k) (hall k)
      | raised hm => exact ⟨fun h _ => (h (.inr rfl)).2, fun h _ => ⟨hd, h (hr.mpr hm)⟩⟩
      | waits hm _ _ =>
        refine iff_of_true (fun ho' => ?_) fun hr' => absurd (hr.mp hr') hm
        simp [Over] at ho'
  · refine iff_of_true (fun ho' => absurd ?_ ho) fun hr' => absurd hr' hr
    rw [Over, hb.aexit] at ho'
    exact ho'

/-! ## Whole runs -/

/-- As long as no update stores a task behind the loop, everything is finished when `__aexit__` is,
if and only if an exception comes to it only when no stored task is left to cancel. -/
theorem aexit_iff {es : List Event} {t : Handler}
    (h : Trace.Run (Trace.Given Ahead (Trace.ofFn step)) init es t) :
    t.Settled ↔ Trace.Run (Trace.Given Quiet (Trace.ofFn step)) init es t := by
  have hrun : t.Settled ↔
      init.Settled ∧ Trace.Run (Trace.Given Quiet (Trace.ofFn step)) init es t := by
    refine Trace.given_run_iff_given (fun _ _ _ hi ha hst => inv_step hi ha hst)
      (fun s e t hi ha hst => ?_) h inv_init
    rw [settled_step hi ha hst]
    -- only the last step of `__aexit__` finishes it
    exact (and_iff_right fun ho => absurd ho (step_eq_some.mp hst).1).symm
  rw [hrun]
  refine and_iff_right fun ho => ?_
  simp [Over, init] at ho

theorem both_subscriptions_cancelled : ∃ t, t.Over ∧ t.SyncDone ∧ t.AllDone ∧
    Steps init [.addMetric "temp", .addMetric "volt", .aexit, .syncEnds, .resumeAexit false,
      .taskEnds 0, .resumeAexit false, .taskEnds 1, .resumeAexit false] t := by
  have h : Trace.Run (Trace.Given Ahead (Trace.ofFn step)) init
      [.addMetric "temp", .addMetric "volt", .aexit, .syncEnds, .resumeAexit false, .taskEnds 0,
        .resumeAexit false, .taskEnds 1, .resumeAexit false]
      ⟨.cancelled, [("temp", 0), ("volt", 1)], [.cancelled, .cancelled], [], .returned⟩ :=
    Trace.run_of_exec_given (by rfl)
  have hover : (⟨.cancelled, [("temp", 0), ("volt", 1)], [.cancelled, .cancelled], [],
      .returned⟩ : Handler).Over := .inl rfl
  obtain ⟨hsync, hall⟩ := (aexit_iff h).mpr (Trace.run_of_exec_given (by rfl)) hover
  exact ⟨_, hover, hsync, hall, h.mono fun _ _ _ => And.right⟩

/-- The subscription of `"temp"` has failed, so that of `"volt"` is not cancelled. -/
theorem failed_subscription_hides_the_next : ¬∀ es t, Steps init es t → t.Settled := by
  intro h
  have hrun : Steps init [.addMetric "temp", .addMetric "volt", .taskFails 0, .aexit, .syncEnds,
      .resumeAexit false]
      ⟨.cancelled, [("temp", 0), ("volt", 1)], [.failed, .running], [], .raised⟩ :=
    Trace.run_of_exec (by rfl)
  have hdone := (h _ _ hrun (.inr rfl)).2
  revert hdone
  decide

end Handler

end Aexit
end Ground
end BvexLink
