import BvexLink.Onboard.Uplink

/-!
# BvexLink.Onboard.Commands

What becomes of the commands over a whole run of the handler.

* `history`: the telecommands received and whether a task has ended, read off the events.
* `served_iff`: no command is lost, and a queued one waits behind a finished task unless at every
  moment at the top of the loop at most one telecommand has been received or no task has ended.
* `cancel_end_iff`: the moments at which a `Cancel` or an `End` does what it is for.
-/

namespace BvexLink
namespace Onboard

open Wire Codec

/-- The telecommands that the read results of a run decode to. -/
def taken (py : Pydantic) (es : List Event) : List Telecommand :=
  es.filterMap fun
    | .data b =>
      match decodeTelecommand py b with
      | .telecommand tc => some tc
      | _ => none
    | _ => none

def TaskEnds (es : List Event) : Prop := ∃ i x, Event.taskExit i x ∈ es

def Conn.someDone (c : Conn) : Prop := ∃ t ∈ c.tasks, t.isDone = true

theorem taken_snoc_telecommand {py : Pydantic} {b : Bytes} {tc : Telecommand}
    (h : decodeTelecommand py b = .telecommand tc) (es : List Event) :
    taken py (es ++ [.data b]) = taken py es ++ [tc] := by
  simp [taken, h]

theorem taken_snoc_other {py : Pydantic} {e : Event}
    (h : ∀ b tc, e = .data b → decodeTelecommand py b ≠ .telecommand tc) (es : List Event) :
    taken py (es ++ [e]) = taken py es := by
  cases e with
  | data b =>
    have hb := fun tc => h b tc rfl
    cases hd : decodeTelecommand py b with
    | telecommand tc => exact absurd hd (hb tc)
    | none => simp [taken, hd]
    | unicodeDecodeError => simp [taken, hd]
  | _ => simp [taken]

theorem taskEnds_snoc {e : Event} (h : ∀ i x, e ≠ .taskExit i x) (es : List Event) :
    TaskEnds (es ++ [e]) ↔ TaskEnds es := by
  constructor
  · rintro ⟨i, x, hm⟩
    rcases List.mem_append.mp hm with hm | hm
    · exact ⟨i, x, hm⟩
    · exact absurd (List.mem_singleton.mp hm).symm (h i x)
  · rintro ⟨i, x, hm⟩
    exact ⟨i, x, List.mem_append_left _ hm⟩

theorem Same.someDone {c c' : Conn} (h : Same c c') : c'.someDone ↔ c.someDone := by
  have hm (d : Conn) : d.someDone ↔ ∃ x ∈ d.sketch, x.2.2 = true := by
    simp [Conn.someDone, Conn.sketch]
  rw [hm, hm, h.sketch]

theorem someDone_onTelecommand (c : Conn) (tc : Telecommand) :
    (onTelecommand c tc).someDone ↔ c.someDone := by
  rw [onTelecommand_eq]
  split
  · simp [Conn.someDone, Task.isDone]
  · exact Iff.rfl

theorem someDone_setStatus {c : Conn} {i : Nat} {t : Task} (x : TaskExit)
    (h : c.tasks[i]? = some t) : (c.setStatus i (.done x)).someDone := by
  refine ⟨{ t with status := .done x }, ?_, rfl⟩
  rw [List.mem_iff_getElem?]
  exact ⟨i, by simp [Conn.setStatus, h]⟩

/-- What the events of a run say about the state it leads to. -/
structure History (py : Pydantic) (es : List Event) (c : Conn) : Prop where
  inv : Inv c
  received : c.received = taken py es
  done : c.someDone ↔ TaskEnds es

theorem history_step {py : Pydantic} {es : List Event} {c c' : Conn} {e : Event}
    (hh : History py es c) (h : step py c e = some c') : History py (es ++ [e]) c' := by
  refine ⟨inv_step hh.inv h, ?_, ?_⟩
  · cases step_effect h hh.inv.pc with
    | telecommand b tc _ hd =>
      rw [taken_snoc_telecommand hd, onTelecommand_received, hh.received]
    | taskExit i x t _ _ =>
      rw [taken_snoc_other (fun b tc he => by cases he)]
      exact hh.received
    | inLoop _ _ hs _ _ _ hd _ =>
      rw [taken_snoc_other hd, hs.received]
      exact hh.received
  · cases step_effect h hh.inv.pc with
    | telecommand b tc _ _ =>
      rw [someDone_onTelecommand, taskEnds_snoc (fun i x he => by cases he), hh.done]
    | taskExit i x t ht _ =>
      exact iff_of_true (someDone_setStatus x ht) ⟨i, x, by simp⟩
    | inLoop _ _ hs _ _ ht _ _ => rw [hs.someDone, taskEnds_snoc ht, hh.done]

theorem history {py : Pydantic} {b : Bool} {es : List Event} {c : Conn}
    (h : Steps py (Conn.start b) es c) : History py es c := by
  refine Trace.Run.history (I := History py) h ⟨inv_start b, ?_, ?_⟩ fun _ _ _ _ => history_step
  · cases b <;> rfl
  · refine iff_of_false ?_ ?_
    · rintro ⟨t, ht, _⟩
      cases b <;> cases ht
    · rintro ⟨i, x, hm⟩
      cases hm

/-! ## Queued commands -/

/-- Of the telecommands, numbered as they came, the first ones have been started, each once and for
what it is, and all others wait in the queue, in their order; at most one task is unfinished, and at
the top of the loop none is left in the queue when the current task is absent or finished. -/
structure Served (tcs : List Telecommand) (c : Conn) : Prop where
  started : c.tasks.map (fun t => (t.no, t.cmd)) =
    (tcs.zipIdx.take c.tasks.length).map fun x => (x.2, x.1.data)
  queued : c.commandQueue = tcs.zipIdx.drop c.tasks.length
  one : (c.tasks.filter fun t => !t.isDone).length ≤ 1
  queue : c.pc = .reading → (∀ t, c.current = some t → t.isDone = true) → c.commandQueue = []

theorem Inv.queue_nil {c : Conn} (hi : Inv c) : c.commandQueue = [] ↔ c.received.length ≤ 1 := by
  rw [hi.commandQueue, List.drop_eq_nil_iff, List.length_zipIdx]

theorem Inv.current_done {c : Conn} (hi : Inv c) :
    (∀ t, c.current = some t → t.isDone = true) ↔ c.received = [] ∨ c.someDone := by
  by_cases hr : c.received = []
  · have hc : c.current = none := by rw [Conn.current, hi.currentTask, if_pos hr]; rfl
    simp [hc, hr]
  · obtain ⟨t, ht, _⟩ := hi.tasks_single hr
    have hc : c.current = some t := by rw [Conn.current, hi.currentTask, if_neg hr, ht]; rfl
    simp [hc, hr, Conn.someDone, ht]

theorem served_iff_state {c : Conn} (hi : Inv c) :
    Served c.received c ↔ (c.pc = .reading → c.received.length ≤ 1 ∨ ¬ c.someDone) := by
  constructor
  · intro hs hpc
    by_cases hd : c.someDone
    · exact .inl (hi.queue_nil.mp (hs.queue hpc (hi.current_done.mpr (.inr hd))))
    · exact .inr hd
  · intro h
    refine ⟨?_, ?_, ?_, ?_⟩
    · by_cases hr : c.received = []
      · simp [hi.tasks_nil hr, hr]
      · obtain ⟨t, ht, _⟩ := hi.tasks_single hr
        have hone : c.tasks.length = 1 := by rw [ht]; rfl
        rw [hone]
        exact hi.tasks
    · by_cases hr : c.received = []
      · simp [hi.commandQueue, hr]
      · obtain ⟨t, ht, _⟩ := hi.tasks_single hr
        have hone : c.tasks.length = 1 := by rw [ht]; rfl
        rw [hone]
        exact hi.commandQueue
    · by_cases hr : c.received = []
      · simp [hi.tasks_nil hr]
      · obtain ⟨t, ht, _⟩ := hi.tasks_single hr
        rw [ht]
        exact List.length_filter_le _ [t]
    · intro hpc hd
      rw [hi.queue_nil]
      rcases hi.current_done.mp hd with hr | hd
      · simp [hr]
      · exact (h hpc).resolve_right fun hn => hn hd

/-- All states of a run are served if and only if, whenever the handler is at the top of its loop,
at most one telecommand has been received or no task has ended. -/
theorem served_iff (py : Pydantic) (b : Bool) (es : List Event) :
    (∀ pre c, pre <+: es → Steps py (Conn.start b) pre c → Served (taken py pre) c) ↔
      ∀ pre c, pre <+: es → Steps py (Conn.start b) pre c → c.pc = .reading →
        (taken py pre).length ≤ 1 ∨ ¬ TaskEnds pre := by
  have key (pre : List Event) (c : Conn) (h : Steps py (Conn.start b) pre c) :
      Served (taken py pre) c ↔
        (c.pc = .reading → (taken py pre).length ≤ 1 ∨ ¬ TaskEnds pre) := by
    have hh := history h
    rw [← hh.received, served_iff_state hh.inv, hh.done]
  constructor
  · intro h pre c hp hr
    exact (key pre c hr).mp (h pre c hp hr)
  · intro h pre c hp hr
    exact (key pre c hr).mpr (h pre c hp hr)

/-- The second of two requests stays in the queue when the task of the first has returned. -/
theorem second_command_is_stuck : ¬ ∀ (py : Pydantic) (es pre : List Event) (c : Conn),
    pre <+: es → Steps py (Conn.start false) pre c → Served (taken py pre) c := by
  intro h
  have hd := decode_idsRequest Pydantic.strict
  have hrun : Steps Pydantic.strict (Conn.start false)
      [.data (encodeTelecommand idsRequest), .wake, .data (encodeTelecommand idsRequest), .wake,
        .taskExit 0 .returned]
      { pc := .reading, tasks := [⟨0, .getMetricIds, .done .returned⟩], currentTask := some 0,
        commandQueue := [(idsRequest, 1)], stopEvent := false, writerClosing := false,
        received := [idsRequest, idsRequest] } := by
    let c1 : Conn := { Conn.start false with
      pc := .sleeping, tasks := [⟨0, .getMetricIds, .running⟩], currentTask := some 0,
      received := [idsRequest] }
    let c2 : Conn := { c1 with
      pc := .sleeping, commandQueue := [(idsRequest, 1)], received := [idsRequest, idsRequest] }
    refine .cons (t := c1) ?_ <| .cons (t := { c1 with pc := .reading }) ?_ <|
      .cons (t := c2) ?_ <| .cons (t := { c2 with pc := .reading }) ?_ <| .single ?_
    · simp [Trace.ofFn, step, onData, hd, onTelecommand_eq, Conn.start, loopTop, c1]
      rfl
    · rfl
    · simp [Trace.ofFn, step, onData, hd, onTelecommand_eq, c1, c2]
      rfl
    · rfl
    · rfl
  have hs := h _ _ _ _ List.prefix_rfl hrun
  have hq := hs.queue rfl (by rintro t ht; cases ht; rfl)
  cases hq

/-! ## Cancel and End -/

/-- After a `Cancel`, number `n`: no task of an earlier command is unfinished and no earlier
command is queued. -/
structure Cancelled (n : Nat) (c : Conn) : Prop where
  tasks : ∀ t ∈ c.tasks, t.no < n → t.isDone = true
  queue : ∀ q ∈ c.commandQueue, n ≤ q.2

/-- After an `End`: the handler has left its loop, no task is started any more, and the handler
gets to the closing of the connection only with the current task finished. -/
structure Ended (py : Pydantic) (c : Conn) : Prop where
  left : c.pc.inLoop = false
  starts : ∀ es d, Steps py c es d → d.tasks.map Task.no = c.tasks.map Task.no
  finished : ∀ es d, Steps py c es d → (∀ how, d.pc ≠ .cleanup how) →
    ∀ t, d.current = some t → t.isDone = true

/-- The step from `c` to `c'` obeys the telecommand it takes, if it takes one: a `Cancel`, an
`End`, or another command right after a `Cancel`, which is started. -/
def Obeyed (py : Pydantic) (c : Conn) (e : Event) (c' : Conn) : Prop :=
  ∀ b tc, e = .data b → decodeTelecommand py b = .telecommand tc →
    match tc.data with
    | .cancel => Cancelled c.received.length c'
    | .end_ => Ended py c'
    | _ => (c.received.getLast?).map Telecommand.data = some .cancel →
        ∃ t ∈ c'.tasks, t.no = c.received.length ∧ t.cmd = tc.data

/-- After the events `pre`, `e` is no `End`, no command right after a `Cancel`, and a `Cancel` only
when at most one telecommand came before and its task has ended. -/
def Harmless (py : Pydantic) (pre : List Event) (e : Event) : Prop :=
  ∀ b tc, e = .data b → decodeTelecommand py b = .telecommand tc →
    match tc.data with
    | .cancel => (taken py pre).length ≤ 1 ∧ (taken py pre = [] ∨ TaskEnds pre)
    | .end_ => False
    | _ => ((taken py pre).getLast?).map Telecommand.data ≠ some .cancel

theorem cancelled_iff {py : Pydantic} {pre : List Event} {c : Conn} (hh : History py pre c)
    (tc : Telecommand) : Cancelled c.received.length (onTelecommand c tc) ↔
      (taken py pre).length ≤ 1 ∧ (taken py pre = [] ∨ TaskEnds pre) := by
  rw [← hh.received, ← hh.done, onTelecommand_eq, hh.inv.currentTask]
  by_cases hr : c.received = []
  · rw [if_pos hr]
    have hq := hh.inv.queue_nil.mpr (by simp [hr])
    refine iff_of_true ⟨?_, ?_⟩ (by simp [hr])
    · simp [hh.inv.tasks_nil hr]
    · simp [hq]
  · rw [if_neg hr]
    obtain ⟨t, ht, hno⟩ := hh.inv.tasks_single hr
    have hpos : 0 < c.received.length := List.length_pos_iff.mpr hr
    constructor
    · intro hc
      refine ⟨?_, .inr ⟨t, by simp [ht], hc.tasks t (by simp [ht]) (by omega)⟩⟩
      -- a queued command has a number below that of the `Cancel`
      by_contra hlt
      have hm : (c.received[1], 1) ∈ c.commandQueue := by
        rw [hh.inv.commandQueue, List.mem_iff_getElem?]
        exact ⟨0, by simp [show 1 < c.received.length by omega]⟩
      have := hc.queue _ (List.mem_append_left _ hm)
      simp only at this
      omega
    · rintro ⟨hl, hd⟩
      have hq := hh.inv.queue_nil.mpr hl
      obtain ⟨t', ht', hd'⟩ := hd.resolve_left hr
      refine ⟨?_, ?_⟩
      · intro u hu _
        simp only [ht, List.mem_singleton] at ht' hu
        rw [hu, ← ht']
        exact hd'
      · simp [hq]

/-- A command right after a `Cancel` is never started. -/
theorem started_after_cancel_iff {py : Pydantic} {pre : List Event} {c : Conn}
    (hh : History py pre c) (tc : Telecommand) :
    ((c.received.getLast?).map Telecommand.data = some .cancel →
        ∃ t ∈ (onTelecommand c tc).tasks, t.no = c.received.length ∧ t.cmd = tc.data) ↔
      ((taken py pre).getLast?).map Telecommand.data ≠ some .cancel := by
  rw [← hh.received]
  constructor
  · intro h hl
    have hr : c.received ≠ [] := by
      intro hr
      rw [hr] at hl
      cases hl
    obtain ⟨u, hu, hno, _⟩ := h hl
    obtain ⟨t, ht, ht0⟩ := hh.inv.tasks_single hr
    have hpos : 0 < c.received.length := List.length_pos_iff.mpr hr
    rw [onTelecommand_eq, hh.inv.currentTask, if_neg hr] at hu
    simp only [ht, List.mem_singleton] at hu
    subst hu
    omega
  · intro h hl
    exact absurd hl h

theorem obeyed_iff {py : Pydantic} {pre : List Event} {c c' : Conn} {e : Event}
    (hh : History py pre c) (h : step py c e = some c') :
    Obeyed py c e c' ↔ Harmless py pre e := by
  refine forall_congr' fun b => forall_congr' fun tc => ?_
  refine imp_congr_right fun he => imp_congr_right fun hd => ?_
  subst he
  have hc : c' = onTelecommand c tc := by
    obtain ⟨_, rfl⟩ := step_data_eq_some.mp h
    rw [onData, hd]
  subst hc
  cases htc : tc.data with
  | cancel => exact cancelled_iff hh tc
  | end_ =>
    -- the handler goes on to its next read
    refine iff_of_false (fun he => ?_) id
    have := he.left
    rw [onTelecommand_pc] at this
    cases this
  | subscribe metric_id bps =>
    have hst := started_after_cancel_iff hh tc
    rw [htc] at hst
    exact hst
  | getMetricIds =>
    have hst := started_after_cancel_iff hh tc
    rw [htc] at hst
    exact hst

/-- All steps of a run obey `Cancel` and `End` if and only if all its events are harmless. -/
theorem cancel_end_iff (py : Pydantic) (b : Bool) (es : List Event) :
    (∀ pre e post c c', es = pre ++ e :: post → Steps py (Conn.start b) pre c →
        step py c e = some c' → Obeyed py c e c') ↔
      ∀ pre e post c c', es = pre ++ e :: post → Steps py (Conn.start b) pre c →
        step py c e = some c' → Harmless py pre e := by
  constructor
  · intro h pre e post c c' hes hr hs
    exact (obeyed_iff (history hr) hs).mp (h pre e post c c' hes hr hs)
  · intro h pre e post c c' hes hr hs
    exact (obeyed_iff (history hr) hs).mpr (h pre e post c c' hes hr hs)

/-- After an `End` the handler reads on. -/
theorem end_is_ignored : ¬ ∀ (py : Pydantic) (es pre : List Event) (e : Event)
    (post : List Event) (c c' : Conn), es = pre ++ e :: post → Steps py (Conn.start false) pre c →
    step py c e = some c' → Obeyed py c e c' := by
  intro h
  have hd := (decodeTelecommand_encode_iff Pydantic.strict ⟨.end_, .end_⟩).mpr ⟨rfl, trivial⟩
  have hs : step Pydantic.strict (Conn.start false)
      (.data (encodeTelecommand ⟨.end_, .end_⟩)) =
        some (onTelecommand (Conn.start false) ⟨.end_, .end_⟩) := by
    simp [step, onData, hd, Conn.start, loopTop]
  have he := (h _ _ [] _ [] _ _ rfl .nil hs _ _ rfl hd).left
  rw [onTelecommand_pc] at he
  cases he

end Onboard
end BvexLink
