import BvexLink.Codec.Telecommand
import BvexLink.Wire.JsonFraming
import BvexLink.Trace.Run
import BvexLink.Lists.Update

/-!
# BvexLink.Onboard.Server

`OnboardServer.handle_connection` as a state machine: one step from one suspension of the handler
to the next, with the completion of the task it started, the stop event, the loss of the
connection and a cancellation of the handler as further events.

`received`, `tasks` and the numbers beside the commands are bookkeeping: the telecommands decoded
so far, every task created, and the place of a command among the telecommands received.

* `onTelecommand_eq`: the envelope is no `Cancel` and no `End`, so every telecommand is started or
  queued.
* `step_cases`: what each event finds and leaves, outside the `Cancel` branch.
* `Inv`: the first telecommand received has the only task ever started, and all later ones are
  queued in order.
-/

namespace BvexLink
namespace Onboard

open Wire Codec ListUpdate

/-- How a task ends: it returns, or it raises. -/
inductive TaskExit where
  | returned
  | cancelled
  | connectionError
  | error
  deriving DecidableEq

inductive TaskStatus where
  | running
  | cancelling
  | done (x : TaskExit)
  deriving DecidableEq

/-- A task made by `create_task(run_command(writer, cmd))` for telecommand number `no`. -/
structure Task where
  no : Nat
  cmd : CommandTypes
  status : TaskStatus
  deriving DecidableEq

def Task.isDone (t : Task) : Bool :=
  match t.status with
  | .done _ => true
  | _ => false

/-- How `handle_connection` ends. -/
inductive Exit where
  | returned
  | cancelled
  | unicodeDecodeError
  | readError
  | taskError
  | closeError
  deriving DecidableEq

/-- What `reader.read` raises. -/
inductive ReadError where
  | connectionError
  | other
  deriving DecidableEq

/-- Only a `ConnectionError` is caught. -/
def ReadError.exit : ReadError → Exit
  | .connectionError => .returned
  | .other => .readError

/-- Where the handler is suspended. `cancelling` is the `Cancel` branch, `cleanup` and `closing`
are the two `await`s of the `finally` block. -/
inductive Pc where
  | reading
  | sleeping
  | cancelling
  | cleanup (how : Exit)
  | closing (how : Exit)
  | finished (how : Exit)
  deriving DecidableEq

def Pc.inLoop : Pc → Bool
  | .reading => true
  | .sleeping => true
  | .cancelling => true
  | _ => false

structure Conn where
  pc : Pc
  tasks : List Task
  currentTask : Option Nat
  commandQueue : List (Telecommand × Nat)
  stopEvent : Bool
  writerClosing : Bool
  received : List Telecommand
  deriving DecidableEq

inductive Event where
  | data (b : Bytes)
  | readError (x : ReadError)
  | wake
  | taskExit (i : Nat) (x : TaskExit)
  | resume
  | stop
  | cancel
  | connectionLost
  | closed
  | closeError
  deriving DecidableEq

/-! ## The handler -/

inductive Decoded where
  | telecommand (tc : Telecommand)
  | none
  | unicodeDecodeError

def decodeTelecommand (py : Pydantic) (data : Bytes) : Decoded :=
  if data = [] then .none
  else
    match Utf8.decode data with
    | none => .unicodeDecodeError
    | some message =>
      match Telecommand.modelValidateJson py message with
      | .ok tc => .telecommand tc
      | .error _ => .none

/-- How an `await cancel_current_task()` goes on. -/
inductive Awaited where
  | passed
  | raised
  | suspended
  deriving DecidableEq

def TaskStatus.awaited : TaskStatus → Awaited
  | .running => .suspended
  | .cancelling => .suspended
  | .done .error => .raised
  | .done _ => .passed

def Conn.current (c : Conn) : Option Task := c.currentTask.bind fun i => c.tasks[i]?

def Conn.setStatus (c : Conn) (i : Nat) (st : TaskStatus) : Conn :=
  { c with tasks := c.tasks.modify i fun t => { t with status := st } }

/-- `current_task.cancel()`, if there is one and it is not done. -/
def Conn.cancelTask (c : Conn) : Conn :=
  match c.currentTask, c.current with
  | some i, some t => if t.isDone then c else c.setStatus i .cancelling
  | _, _ => c

def Conn.awaited (c : Conn) : Awaited :=
  match c.current with
  | none => .passed
  | some t => t.status.awaited

/-- The rest of the `finally` block. -/
def closeWriter (how : Exit) (c : Conn) : Conn :=
  if c.writerClosing then { c with pc := .finished how }
  else { c with writerClosing := true, pc := .closing how }

/-- What follows `await current_task` in the `finally` block. -/
def afterCleanup (how : Exit) (c : Conn) : Conn :=
  match c.awaited with
  | .passed => closeWriter how c
  | .raised => { c with pc := .finished .taskError }
  | .suspended => { c with pc := .cleanup how }

def finallyBlock (how : Exit) (c : Conn) : Conn := afterCleanup how c.cancelTask

/-- What follows `await current_task` in the `Cancel` branch. -/
def afterCancel (c : Conn) : Conn :=
  match c.awaited with
  | .passed => { c with commandQueue := [], pc := .sleeping }
  | .raised => finallyBlock .taskError c
  | .suspended => { c with pc := .cancelling }

def onTelecommand (c : Conn) (tc : Telecommand) : Conn :=
  if tc.pyClass = .cancel then afterCancel { c with received := c.received ++ [tc] }.cancelTask
  else if tc.pyClass = .end_ then finallyBlock .returned { c with received := c.received ++ [tc] }
  else
    match c.currentTask with
    | none => { c with
        received := c.received ++ [tc]
        tasks := c.tasks ++ [⟨c.received.length, tc.data, .running⟩]
        currentTask := some c.tasks.length
        pc := .sleeping }
    | some _ => { c with
        received := c.received ++ [tc]
        commandQueue := c.commandQueue ++ [(tc, c.received.length)]
        pc := .sleeping }

def onData (py : Pydantic) (c : Conn) (data : Bytes) : Conn :=
  match decodeTelecommand py data with
  | .telecommand tc => onTelecommand c tc
  | .none => { c with pc := .sleeping }
  | .unicodeDecodeError => finallyBlock .unicodeDecodeError c

/-- The top of the loop, up to `await reader.read(4096)`. -/
def loopTop (c : Conn) : Conn :=
  if c.stopEvent then finallyBlock .cancelled c else { c with pc := .reading }

def Conn.start (stopEvent : Bool) : Conn := loopTop
  { pc := .reading, tasks := [], currentTask := none, commandQueue := [], stopEvent := stopEvent,
    writerClosing := false, received := [] }

/-- The handler goes on after a task it has awaited. -/
def onResume (c : Conn) : Option Conn :=
  match c.pc with
  | .cancelling => if c.awaited = .suspended then none else some (afterCancel c)
  | .cleanup how => if c.awaited = .suspended then none else some (afterCleanup how c)
  | _ => none

/-- `CancelledError` is thrown at an `await` of the handler itself. Where it waits for the current
task the task is cancelled instead; if that is done already, the error is caught there. -/
def onCancel (c : Conn) : Option Conn :=
  match c.pc with
  | .reading => some (finallyBlock .cancelled c)
  | .sleeping => some (finallyBlock .cancelled c)
  | .cancelling =>
    if c.awaited = .suspended then some c.cancelTask
    else some { c with commandQueue := [], pc := .sleeping }
  | .cleanup how =>
    if c.awaited = .suspended then some c.cancelTask else some (closeWriter how c)
  | .closing _ => some { c with pc := .finished .cancelled }
  | .finished _ => none

def onTaskExit (c : Conn) (i : Nat) (x : TaskExit) : Option Conn :=
  match c.tasks[i]? with
  | some t => if t.isDone then none else some (c.setStatus i (.done x))
  | none => none

def onClosed (c : Conn) (exit : Exit → Exit) : Option Conn :=
  match c.pc with
  | .closing how => some { c with pc := .finished (exit how) }
  | _ => none

/-- One event; `none` where it cannot happen. -/
def step (py : Pydantic) (c : Conn) : Event → Option Conn
  | .data b => if c.pc = .reading then some (onData py c b) else none
  | .readError x => if c.pc = .reading then some (finallyBlock x.exit c) else none
  | .wake => if c.pc = .sleeping then some (loopTop c) else none
  | .taskExit i x => onTaskExit c i x
  | .resume => onResume c
  | .stop => some { c with stopEvent := true }
  | .cancel => onCancel c
  | .connectionLost => some { c with writerClosing := true }
  | .closed => onClosed c id
  | .closeError => onClosed c fun _ => .closeError

abbrev Steps (py : Pydantic) : Conn → List Event → Conn → Prop := Trace.Run (Trace.ofFn (step py))

/-! ## What an event changes -/

theorem onTelecommand_eq (c : Conn) (tc : Telecommand) : onTelecommand c tc =
    match c.currentTask with
    | none => { c with
        received := c.received ++ [tc]
        tasks := c.tasks ++ [⟨c.received.length, tc.data, .running⟩]
        currentTask := some c.tasks.length
        pc := .sleeping }
    | some _ => { c with
        received := c.received ++ [tc]
        commandQueue := c.commandQueue ++ [(tc, c.received.length)]
        pc := .sleeping } := by
  unfold onTelecommand
  rw [if_neg (by intro h; cases h), if_neg (by intro h; cases h)]

theorem onTelecommand_pc (c : Conn) (tc : Telecommand) : (onTelecommand c tc).pc = .sleeping := by
  rw [onTelecommand_eq]
  split <;> rfl

theorem onTelecommand_received (c : Conn) (tc : Telecommand) :
    (onTelecommand c tc).received = c.received ++ [tc] := by
  rw [onTelecommand_eq]
  split <;> rfl

/-- The tasks as far as the handler's own steps leave them: a task it cancels is not done yet. -/
def Conn.sketch (c : Conn) : List (Nat × CommandTypes × Bool) :=
  c.tasks.map fun t => (t.no, t.cmd, t.isDone)

/-- No telecommand was taken and no task ended. -/
structure Same (c c' : Conn) : Prop where
  received : c'.received = c.received
  currentTask : c'.currentTask = c.currentTask
  commandQueue : c'.commandQueue = c.commandQueue
  sketch : c'.sketch = c.sketch

theorem Same.rfl {c : Conn} : Same c c := ⟨Eq.refl _, Eq.refl _, Eq.refl _, Eq.refl _⟩

theorem Same.trans {c d e : Conn} (h : Same c d) (h' : Same d e) : Same c e :=
  ⟨h'.received.trans h.received, h'.currentTask.trans h.currentTask,
    h'.commandQueue.trans h.commandQueue, h'.sketch.trans h.sketch⟩

theorem same_setStatus {c : Conn} {i : Nat} {t : Task} {st : TaskStatus}
    (ht : c.tasks[i]? = some t) (hd : (⟨t.no, t.cmd, st⟩ : Task).isDone = t.isDone) :
    Same c (c.setStatus i st) := by
  refine ⟨rfl, rfl, rfl, map_modify fun a ha => ?_⟩
  rw [ht] at ha
  cases ha
  rw [hd]

theorem same_cancelTask (c : Conn) : Same c c.cancelTask := by
  unfold Conn.cancelTask
  split
  · rename_i i t hi ht
    split
    · exact Same.rfl
    · rename_i hd
      rw [Conn.current, hi, Option.bind_some] at ht
      refine same_setStatus ht ?_
      rw [Bool.not_eq_true] at hd
      rw [hd]
      rfl
  · exact Same.rfl

theorem same_closeWriter (how : Exit) (c : Conn) : Same c (closeWriter how c) := by
  unfold closeWriter
  split <;> exact ⟨rfl, rfl, rfl, rfl⟩

theorem same_afterCleanup (how : Exit) (c : Conn) : Same c (afterCleanup how c) := by
  unfold afterCleanup
  split
  · exact same_closeWriter how c
  · exact ⟨rfl, rfl, rfl, rfl⟩
  · exact ⟨rfl, rfl, rfl, rfl⟩

theorem same_finallyBlock (how : Exit) (c : Conn) : Same c (finallyBlock how c) :=
  (same_cancelTask c).trans (same_afterCleanup how _)

theorem closeWriter_inLoop (how : Exit) (c : Conn) : (closeWriter how c).pc.inLoop = false := by
  unfold closeWriter
  split <;> rfl

theorem afterCleanup_inLoop (how : Exit) (c : Conn) : (afterCleanup how c).pc.inLoop = false := by
  unfold afterCleanup
  split
  · exact closeWriter_inLoop how c
  · rfl
  · rfl

theorem finallyBlock_inLoop (how : Exit) (c : Conn) : (finallyBlock how c).pc.inLoop = false :=
  afterCleanup_inLoop how _

theorem cancelTask_pc (c : Conn) : c.cancelTask.pc = c.pc := by
  unfold Conn.cancelTask
  split
  · split <;> rfl
  · rfl

@[simp] theorem cancelTask_stopEvent (c : Conn) : c.cancelTask.stopEvent = c.stopEvent := by
  unfold Conn.cancelTask
  split
  · split <;> rfl
  · rfl

@[simp] theorem closeWriter_stopEvent (how : Exit) (c : Conn) :
    (closeWriter how c).stopEvent = c.stopEvent := by
  unfold closeWriter
  split <;> rfl

@[simp] theorem afterCleanup_stopEvent (how : Exit) (c : Conn) :
    (afterCleanup how c).stopEvent = c.stopEvent := by
  unfold afterCleanup
  split <;> simp

@[simp] theorem finallyBlock_stopEvent (how : Exit) (c : Conn) :
    (finallyBlock how c).stopEvent = c.stopEvent := by
  simp [finallyBlock]

theorem onData_stopEvent (py : Pydantic) (c : Conn) (b : Bytes) :
    (onData py c b).stopEvent = c.stopEvent := by
  unfold onData
  split
  · rw [onTelecommand_eq]
    split <;> rfl
  · rfl
  · simp

theorem step_data_eq_some {py : Pydantic} {c c' : Conn} {b : Bytes} :
    step py c (.data b) = some c' ↔ c.pc = .reading ∧ onData py c b = c' := by
  rw [step, Option.ite_none_right_eq_some, Option.some.injEq]

/-- The steps of a handler outside the `Cancel` branch. -/
inductive StepCase (py : Pydantic) (c : Conn) : Event → Conn → Prop where
  | data {b : Bytes} : c.pc = .reading → StepCase py c (.data b) (onData py c b)
  | readError {x : ReadError} : c.pc = .reading →
      StepCase py c (.readError x) (finallyBlock x.exit c)
  | wake : c.pc = .sleeping → StepCase py c .wake (loopTop c)
  | taskExit {i : Nat} {x : TaskExit} {t : Task} : c.tasks[i]? = some t → t.isDone = false →
      StepCase py c (.taskExit i x) (c.setStatus i (.done x))
  | resume {how : Exit} : c.pc = .cleanup how → c.awaited ≠ .suspended →
      StepCase py c .resume (afterCleanup how c)
  | stop : StepCase py c .stop { c with stopEvent := true }
  | connectionLost : StepCase py c .connectionLost { c with writerClosing := true }
  | cancel : c.pc = .reading ∨ c.pc = .sleeping →
      StepCase py c .cancel (finallyBlock .cancelled c)
  | cancelTask {how : Exit} : c.pc = .cleanup how → c.awaited = .suspended →
      StepCase py c .cancel c.cancelTask
  | cancelAwait {how : Exit} : c.pc = .cleanup how → c.awaited ≠ .suspended →
      StepCase py c .cancel (closeWriter how c)
  | finish {e : Event} {how how' : Exit} : c.pc = .closing how →
      e = .cancel ∨ e = .closed ∨ e = .closeError → StepCase py c e { c with pc := .finished how' }

theorem step_cases {py : Pydantic} {c c' : Conn} {e : Event} (h : step py c e = some c')
    (hpc : c.pc ≠ .cancelling) : StepCase py c e c' := by
  cases e with
  | data b =>
    obtain ⟨hr, rfl⟩ := step_data_eq_some.mp h
    exact .data hr
  | readError x =>
    simp only [step] at h
    split at h <;> cases h
    rename_i hr
    exact .readError hr
  | wake =>
    simp only [step] at h
    split at h <;> cases h
    rename_i hs
    exact .wake hs
  | taskExit i x =>
    simp only [step, onTaskExit] at h
    split at h
    · rename_i t ht
      split at h <;> cases h
      rename_i hd
      exact .taskExit ht (by simpa using hd)
    · cases h
  | resume =>
    simp only [step, onResume] at h
    split at h
    · rename_i hc
      exact absurd hc hpc
    · rename_i how hc
      split at h <;> cases h
      rename_i ha
      exact .resume hc ha
    · cases h
  | stop =>
    cases h
    exact .stop
  | connectionLost =>
    cases h
    exact .connectionLost
  | cancel =>
    simp only [step, onCancel] at h
    split at h
    · rename_i hr
      cases h
      exact .cancel (.inl hr)
    · rename_i hs
      cases h
      exact .cancel (.inr hs)
    · rename_i hc
      exact absurd hc hpc
    · rename_i how hc
      split at h
      · rename_i ha
        cases h
        exact .cancelTask hc ha
      · rename_i ha
        cases h
        exact .cancelAwait hc ha
    · rename_i how hc
      cases h
      exact .finish hc (.inl rfl)
    · cases h
  | closed =>
    simp only [step, onClosed] at h
    split at h <;> cases h
    rename_i how hc
    exact .finish hc (.inr (.inl rfl))
  | closeError =>
    simp only [step, onClosed] at h
    split at h <;> cases h
    rename_i how hc
    exact .finish hc (.inr (.inr rfl))

/-- The effect of an event on a handler outside the `Cancel` branch. -/
inductive Effect (py : Pydantic) (c : Conn) : Event → Conn → Prop where
  | telecommand (b : Bytes) (tc : Telecommand) : c.pc = .reading →
      decodeTelecommand py b = .telecommand tc → Effect py c (.data b) (onTelecommand c tc)
  | taskExit (i : Nat) (x : TaskExit) (t : Task) : c.tasks[i]? = some t → t.isDone = false →
      Effect py c (.taskExit i x) (c.setStatus i (.done x))
  | inLoop (e : Event) (c' : Conn) : Same c c' → c'.pc ≠ .cancelling →
      (c'.pc = .reading → c.pc = .reading ∨ e = .wake) → (∀ i x, e ≠ .taskExit i x) →
      (∀ b tc, e = .data b → decodeTelecommand py b ≠ .telecommand tc) →
      (c'.pc.inLoop = true → c.pc.inLoop = true) → Effect py c e c'

theorem Effect.leave {py : Pydantic} {c c' : Conn} {e : Event} (hs : Same c c')
    (hl : c'.pc.inLoop = false) (ht : ∀ i x, e ≠ .taskExit i x)
    (hd : ∀ b tc, e = .data b → decodeTelecommand py b ≠ .telecommand tc) :
    Effect py c e c' := by
  refine .inLoop e c' hs ?_ ?_ ht hd ?_
  · intro h; rw [h] at hl; cases hl
  · intro h; rw [h] at hl; cases hl
  · intro h; rw [h] at hl; cases hl

theorem step_effect {py : Pydantic} {c c' : Conn} {e : Event} (h : step py c e = some c')
    (hpc : c.pc ≠ .cancelling) : Effect py c e c' := by
  cases step_cases h hpc with
  | @data b hr =>
    unfold onData
    split
    · rename_i tc hd
      exact .telecommand b tc hr hd
    · rename_i hd
      refine .inLoop _ _ ⟨rfl, rfl, rfl, rfl⟩ nofun nofun nofun ?_ ?_
      · rintro b' tc he hd'
        cases he
        rw [hd] at hd'
        cases hd'
      · intro _; rw [hr]; rfl
    · rename_i hd
      refine .leave (same_finallyBlock _ c) (finallyBlock_inLoop _ c) nofun ?_
      rintro b' tc he hd'
      cases he
      rw [hd] at hd'
      cases hd'
  | readError _ => exact .leave (same_finallyBlock _ c) (finallyBlock_inLoop _ c) nofun nofun
  | wake hs =>
    unfold loopTop
    split
    · exact .leave (same_finallyBlock _ c) (finallyBlock_inLoop _ c) nofun nofun
    · refine .inLoop _ _ ⟨rfl, rfl, rfl, rfl⟩ nofun ?_ nofun nofun ?_
      · intro _; exact .inr rfl
      · intro _; rw [hs]; rfl
  | taskExit ht hd => exact .taskExit _ _ _ ht hd
  | resume _ _ => exact .leave (same_afterCleanup _ c) (afterCleanup_inLoop _ c) nofun nofun
  | stop => exact .inLoop _ _ ⟨rfl, rfl, rfl, rfl⟩ hpc (fun h => .inl h) nofun nofun id
  | connectionLost => exact .inLoop _ _ ⟨rfl, rfl, rfl, rfl⟩ hpc (fun h => .inl h) nofun nofun id
  | cancel _ => exact .leave (same_finallyBlock _ c) (finallyBlock_inLoop _ c) nofun nofun
  | cancelTask hc _ =>
    refine .leave (same_cancelTask c) ?_ nofun nofun
    rw [cancelTask_pc, hc]
    rfl
  | cancelAwait _ _ => exact .leave (same_closeWriter _ c) (closeWriter_inLoop _ c) nofun nofun
  | finish _ he =>
    refine .leave ⟨rfl, rfl, rfl, rfl⟩ rfl ?_ ?_
    · intro i x h
      simp [h] at he
    · intro b tc h
      simp [h] at he

/-! ## The invariant -/

/-- The first telecommand received has the only task, all later ones are in the queue. -/
structure Inv (c : Conn) : Prop where
  pc : c.pc ≠ .cancelling
  currentTask : c.currentTask = if c.received = [] then none else some 0
  tasks : c.tasks.map (fun t => (t.no, t.cmd)) =
    (c.received.zipIdx.take 1).map fun x => (x.2, x.1.data)
  commandQueue : c.commandQueue = c.received.zipIdx.drop 1

theorem Same.tasks {c c' : Conn} (h : Same c c') :
    c'.tasks.map (fun t => (t.no, t.cmd)) = c.tasks.map fun t => (t.no, t.cmd) := by
  have hs := congrArg (List.map fun x : Nat × CommandTypes × Bool => (x.1, x.2.1)) h.sketch
  rw [Conn.sketch, Conn.sketch, List.map_map, List.map_map] at hs
  exact hs

theorem Inv.same {c c' : Conn} (hi : Inv c) (h : Same c c') (hpc : c'.pc ≠ .cancelling) :
    Inv c' where
  pc := hpc
  currentTask := by rw [h.currentTask, h.received]; exact hi.currentTask
  tasks := by rw [h.tasks, h.received]; exact hi.tasks
  commandQueue := by rw [h.commandQueue, h.received]; exact hi.commandQueue

theorem inv_start (stopEvent : Bool) : Inv (Conn.start stopEvent) := by
  cases stopEvent <;> exact ⟨nofun, rfl, rfl, rfl⟩

theorem inv_onTelecommand {c : Conn} (hi : Inv c) (tc : Telecommand) :
    Inv (onTelecommand c tc) := by
  refine ⟨by rw [onTelecommand_pc]; nofun, ?_, ?_, ?_⟩
  all_goals
    rw [onTelecommand_eq, hi.currentTask]
    cases hr : c.received with
    | nil =>
      have ht := hi.tasks
      have hq := hi.commandQueue
      simp only [hr] at ht hq
      simp_all
    | cons x xs =>
      have ht := hi.tasks
      have hq := hi.commandQueue
      simp only [hr] at ht hq
      simp [ht, hq, List.zipIdx_append, Nat.add_comm]

theorem inv_setStatus {c : Conn} (hi : Inv c) (i : Nat) (st : TaskStatus) :
    Inv (c.setStatus i st) where
  pc := hi.pc
  currentTask := hi.currentTask
  tasks := by
    have hmap : (c.setStatus i st).tasks.map (fun t => (t.no, t.cmd)) =
        c.tasks.map fun t => (t.no, t.cmd) := map_modify fun _ _ => rfl
    exact hmap.trans hi.tasks
  commandQueue := hi.commandQueue

theorem inv_step {py : Pydantic} {c c' : Conn} {e : Event} (hi : Inv c)
    (h : step py c e = some c') : Inv c' := by
  cases step_effect h hi.pc with
  | telecommand b tc _ _ => exact inv_onTelecommand hi tc
  | taskExit i x t _ _ => exact inv_setStatus hi i _
  | inLoop _ _ hs hpc _ _ _ _ => exact hi.same hs hpc

theorem inv_steps {py : Pydantic} {b : Bool} {es : List Event} {c : Conn}
    (h : Steps py (Conn.start b) es c) : Inv c :=
  h.invariant (inv_start b) fun _ _ _ hi hs => inv_step hi hs

theorem Inv.tasks_nil {c : Conn} (hi : Inv c) (hr : c.received = []) : c.tasks = [] := by
  have h := hi.tasks
  rw [hr] at h
  simpa using h

theorem Inv.tasks_single {c : Conn} (hi : Inv c) (hr : c.received ≠ []) :
    ∃ t, c.tasks = [t] ∧ t.no = 0 := by
  have h := hi.tasks
  cases hc : c.received with
  | nil => exact absurd hc hr
  | cons x xs =>
    rw [hc] at h
    cases ht : c.tasks with
    | nil => simp [ht] at h
    | cons t ts =>
      simp only [ht, List.zipIdx_cons, List.take_succ_cons, List.take_zero, List.map_cons,
        List.map_nil, List.cons.injEq, Prod.mk.injEq, List.map_eq_nil_iff] at h
      exact ⟨t, by rw [h.2], h.1.1⟩

end Onboard
end BvexLink
