import BvexLink.Onboard.Teardown
import BvexLink.Trace.EndOfStream

/-!
# BvexLink.Onboard.PeerClose

The end of the stream at `handle_connection`.

* `reading_iff_goesBack`: the one way back to a read.
* `finishes_of_finally`: a handler in its `finally` block can finish on its own.
-/

namespace BvexLink
namespace Onboard

open Wire Codec

def readResult : Event → Option Bytes
  | .data b => some b
  | _ => none

/-- `handle_connection` as a reader of its stream. -/
def connectionReader (py : Pydantic) : Trace.StreamReader Conn Event UInt8 where
  step := step py
  data := readResult
  reading c := c.pc = .reading

/-- The handler wakes up and the server is not stopping. -/
def GoesBack (c : Conn) (e : Event) : Prop := e = .wake ∧ c.stopEvent = false

theorem connectionReader_lawful (py : Pydantic) : (connectionReader py).Lawful where
  reads := by
    intro c c' e b hst hd
    cases e with
    | data b' => simpa [connectionReader] using (step_data_eq_some.mp hst).1
    | _ => cases hd
  stops := by
    intro c c' e hst hd
    cases e with
    | data b =>
      cases hd
      obtain ⟨_, rfl⟩ := step_data_eq_some.mp hst
      rfl
    | _ => cases hd

theorem reading_iff_goesBack {py : Pydantic} {c c' : Conn} {e : Event} (hi : Inv c)
    (hst : step py c e = some c') (hd : readResult e = none) (hpc : c.pc ≠ .reading) :
    c'.pc = .reading ↔ GoesBack c e := by
  constructor
  · intro hr
    have hwake : e = .wake := by
      cases step_effect hst hi.pc with
      | telecommand b tc _ _ => cases hd
      | taskExit i x t _ _ => exact absurd hr hpc
      | inLoop _ _ _ _ hread _ _ _ => exact (hread hr).resolve_left hpc
    subst hwake
    refine ⟨rfl, ?_⟩
    cases step_cases hst hi.pc with
    | wake _ =>
      unfold loopTop at hr
      split at hr
      · have hout := finallyBlock_inLoop .cancelled c
        rw [hr] at hout
        cases hout
      · rename_i hstop
        simpa using hstop
    | finish _ he => simp at he
  · rintro ⟨rfl, hstop⟩
    cases step_cases hst hi.pc with
    | wake _ => rw [loopTop, if_neg (by rw [hstop]; exact Bool.false_ne_true)]
    | finish _ he => simp at he

theorem connection_noFurtherRead_iff {py : Pydantic} {stop : Bool} {es : List Event}
    {s : Conn × Bool}
    (h : Trace.Run (Trace.ofFn (connectionReader py).stepEof) (Conn.start stop, false) es s) :
    (∀ es' u, es' <+: es →
      Trace.Run (Trace.ofFn (connectionReader py).stepEof) (Conn.start stop, false) es' u →
      (connectionReader py).NoFurtherRead u) ↔
    Trace.Run (Trace.Given
      (fun s e => s.2 = true → readResult e = none → ¬ GoesBack s.1 e)
      (Trace.ofFn (connectionReader py).stepEof)) (Conn.start stop, false) es s := by
  refine Trace.StreamReader.noFurtherRead_iff (connectionReader_lawful py) (fun s => Inv s.1) GoesBack
    (fun s e t hi hst => inv_step hi (Trace.StreamReader.step_of_stepEof hst))
    (fun s e t hi _ hst hd hpc => ?_) h (inv_start stop)
  have hiff := reading_iff_goesBack hi hst hd (by simpa [connectionReader] using hpc)
  simpa [connectionReader] using hiff

/-! ## Out of the loop -/

/-- The handler has finished and the task as well; only its exception keeps the writer open. -/
structure CleanedUp (c : Conn) : Prop where
  finished : ∃ how, c.pc = .finished how
  task : Settled c
  writer : ¬ TaskFailed c → c.writerClosing = true

theorem finishes_of_closeWriter {py : Pydantic} {c : Conn} (hs : Settled c) (how : Exit) :
    ∃ es d, Steps py (closeWriter how c) es d ∧ CleanedUp d := by
  unfold closeWriter
  split
  · rename_i hw
    exact ⟨[], _, .nil, ⟨how, rfl⟩, hs, fun _ => hw⟩
  · exact ⟨[.closed], _, .single rfl, ⟨how, rfl⟩, hs, fun _ => rfl⟩

theorem finishes_of_afterCleanup {py : Pydantic} {c : Conn} (ha : c.awaited ≠ .suspended)
    (how : Exit) : ∃ es d, Steps py (afterCleanup how c) es d ∧ CleanedUp d := by
  have hs := settled_of_awaited ha
  unfold afterCleanup
  split
  · exact finishes_of_closeWriter hs how
  · rename_i hraised
    exact ⟨[], _, .nil, ⟨.taskError, rfl⟩, hs, fun hn => absurd (awaited_eq_raised.mp hraised) hn⟩
  · rename_i hsus
    exact absurd hsus ha

theorem ending_steps {py : Pydantic} {stop : Bool} {es : List Event} {c : Conn}
    (h : Steps py (Conn.start stop) es c) : Ending c := by
  have hboth : Inv c ∧ Ending c := h.invariant (I := fun c => Inv c ∧ Ending c)
    ⟨inv_start stop, ending_loopTop _⟩
    fun _ _ _ hi hst => ⟨inv_step hi.1 hst, ending_step hi.1 hi.2 hst⟩
  exact hboth.2

theorem awaited_ends {py : Pydantic} {c : Conn} (ha : c.awaited = .suspended) :
    ∃ i c', c'.pc = c.pc ∧ step py c (.taskExit i .cancelled) = some c' ∧
      c'.awaited ≠ .suspended := by
  cases hi : c.currentTask with
  | none => simp [Conn.awaited, Conn.current, hi] at ha
  | some i =>
    cases ht : c.tasks[i]? with
    | none => simp [Conn.awaited, Conn.current, hi, ht] at ha
    | some t =>
      have hcur : c.current = some t := by rw [Conn.current, hi]; exact ht
      have hd : t.isDone = false := by
        rw [Conn.awaited, hcur] at ha
        unfold Task.isDone
        cases hs : t.status with
        | done x => cases x <;> simp [hs, TaskStatus.awaited] at ha
        | _ => rfl
      refine ⟨i, c.setStatus i (.done .cancelled), rfl, by simp [step, onTaskExit, ht, hd], ?_⟩
      have hcur' : (c.setStatus i (.done .cancelled)).current =
          some { t with status := .done .cancelled } := by
        simp [Conn.setStatus, Conn.current, hi, List.getElem?_modify, ht]
      simp [Conn.awaited, hcur', TaskStatus.awaited]

/-- A handler in its `finally` block finishes once the task it has cancelled has ended and the
connection is closed. -/
theorem finishes_of_finally {py : Pydantic} {c : Conn} (he : Ending c) {how : Exit}
    (hpc : c.pc = .cleanup how ∨ c.pc = .closing how) :
    ∃ es d, Steps py c es d ∧ CleanedUp d := by
  cases hpc with
  | inr hpc =>
    have hst : step py c .closed = some { c with pc := .finished how } := by
      simp [step, onClosed, hpc]
    exact ⟨[.closed], _, .single hst, ⟨how, rfl⟩, he.settled (by rw [hpc]; rfl),
      fun _ => he.closing how hpc⟩
  | inl hpc =>
    by_cases ha : c.awaited = .suspended
    · obtain ⟨i, c', hpc', hst, ha'⟩ := @awaited_ends py _ ha
      rw [hpc] at hpc'
      have hres : step py c' .resume = some (afterCleanup how c') := by
        simp [step, onResume, hpc', ha']
      obtain ⟨es, d, hsteps, hd⟩ := @finishes_of_afterCleanup py _ ha' how
      exact ⟨.taskExit i .cancelled :: .resume :: es, d, .cons hst (.cons hres hsteps), hd⟩
    · have hres : step py c .resume = some (afterCleanup how c) := by
        simp [step, onResume, hpc, ha]
      obtain ⟨es, d, hsteps, hd⟩ := @finishes_of_afterCleanup py _ ha how
      exact ⟨.resume :: es, d, .cons hres hsteps, hd⟩

end Onboard
end BvexLink
