import BvexLink.Onboard.Uplink

/-!
# BvexLink.Onboard.Malformed

Chunks that are no telecommand, at any point of any run of `handle_connection`: what the handler
does with one compared to the run in which it had not come.

* `steps_asleep`: a handler that sleeps goes on as it would have from its read.
* `malformed_skipped_iff`: when the chunks of a run are skipped.
-/

namespace BvexLink
namespace Onboard

open Wire Codec

/-- The chunk leaves the tasks and the queue, and the handler asleep. Whatever happens then leads
where it leads without the chunk, or the handler is still asleep and will be reading again, as it
would be without the chunk, unless the server stops. -/
structure Skipped (py : Pydantic) (c : Conn) (b : Bytes) : Prop where
  kept : ∀ c', step py c (.data b) = some c' → c'.tasks = c.tasks ∧
    c'.currentTask = c.currentTask ∧ c'.commandQueue = c.commandQueue
  goesOn : ∃ c', step py c (.data b) = some c' ∧ ∀ es d, Steps py c' es d → (∀ e ∈ es, e ≠ .wake) →
    Steps py c es d ∨ d.pc = .sleeping ∧ ∃ d', step py d .wake = some d' ∧
      (d.stopEvent = false → d'.pc = .reading ∧ Steps py c es d')

/-! ## Asleep instead of reading -/

def asleep (c : Conn) : Conn := { c with pc := .sleeping }

theorem cancelTask_asleep (c : Conn) : (asleep c).cancelTask = asleep c.cancelTask := by
  simp only [Conn.cancelTask, asleep, Conn.current]
  split
  · split <;> rfl
  · rfl

theorem finallyBlock_asleep (how : Exit) (c : Conn) :
    finallyBlock how (asleep c) = finallyBlock how c := by
  rw [finallyBlock, cancelTask_asleep, finallyBlock, afterCleanup, afterCleanup]
  have hawaited : (asleep c.cancelTask).awaited = c.cancelTask.awaited := rfl
  rw [hawaited]
  split
  · cases hw : c.cancelTask.writerClosing <;> simp [closeWriter, asleep, hw]
  · rfl
  · rfl

/-- A step of a handler that sleeps, other than waking up. -/
theorem step_asleep {py : Pydantic} {c d : Conn} {e : Event} (hpc : c.pc = .reading)
    (h : step py (asleep c) e = some d) (he : e ≠ .wake) :
    step py c e = some d ∨ ∃ d', step py c e = some d' ∧ d'.pc = .reading ∧ d = asleep d' := by
  cases e with
  | data b => simp [step, asleep] at h
  | readError x => simp [step, asleep] at h
  | wake => exact absurd rfl he
  | taskExit i x =>
    right
    simp only [step, onTaskExit, asleep] at h ⊢
    split at h
    · split at h
      · cases h
      · rename_i hd
        cases h
        exact ⟨c.setStatus i (.done x), if_neg hd, hpc, rfl⟩
    · cases h
  | resume => simp [step, onResume, asleep] at h
  | stop =>
    cases h
    exact .inr ⟨_, rfl, hpc, rfl⟩
  | cancel =>
    left
    simp only [step, onCancel, hpc]
    rw [← h, ← finallyBlock_asleep]
    rfl
  | connectionLost =>
    cases h
    exact .inr ⟨_, rfl, hpc, rfl⟩
  | closed => simp [step, onClosed, asleep] at h
  | closeError => simp [step, onClosed, asleep] at h

/-- A handler that sleeps goes on as it would have from its read. -/
theorem steps_asleep {py : Pydantic} {c d : Conn} {es : List Event} (hpc : c.pc = .reading)
    (h : Steps py (asleep c) es d) (hes : ∀ e ∈ es, e ≠ .wake) :
    Steps py c es d ∨ ∃ d', Steps py c es d' ∧ d'.pc = .reading ∧ d = asleep d' := by
  generalize hs : asleep c = s at h
  induction h generalizing c with
  | nil => exact .inr ⟨c, .nil, hpc, hs.symm⟩
  | @cons s t d e es hst hrest ih =>
    subst hs
    have he := hes e (List.mem_cons_self ..)
    have hes' := fun e' h' => hes e' (List.mem_cons_of_mem e h')
    rcases step_asleep hpc hst he with hst' | ⟨t', hst', hpc', rfl⟩
    · exact .inl (.cons hst' hrest)
    · rcases ih hpc' hes' rfl with hd | ⟨d', hd, hrest'⟩
      · exact .inl (.cons hst' hd)
      · exact .inr ⟨d', .cons hst' hd, hrest'⟩

/-! ## What a chunk does -/

theorem decodeTelecommand_none {py : Pydantic} {b : Bytes}
    (hb : ∀ tc, decodeTelecommand py b ≠ .telecommand tc) (hu : Utf8.decode b ≠ none) :
    decodeTelecommand py b = .none := by
  cases hd : decodeTelecommand py b with
  | telecommand tc => exact absurd hd (hb tc)
  | none => rfl
  | unicodeDecodeError =>
    unfold decodeTelecommand at hd
    split at hd
    · cases hd
    · split at hd
      · rename_i hnone
        exact absurd hnone hu
      · split at hd <;> cases hd

theorem decodeTelecommand_unicode {py : Pydantic} {b : Bytes} (hu : Utf8.decode b = none) :
    decodeTelecommand py b = .unicodeDecodeError := by
  have hne : b ≠ [] := by
    rintro rfl
    cases hu
  rw [decodeTelecommand, if_neg hne, hu]

theorem onData_unicode {py : Pydantic} {b : Bytes} (hu : Utf8.decode b = none) (c : Conn) :
    onData py c b = finallyBlock .unicodeDecodeError c := by
  rw [onData, decodeTelecommand_unicode hu]

theorem onData_none {py : Pydantic} {b : Bytes} (hd : decodeTelecommand py b = .none) (c : Conn) :
    onData py c b = asleep c := by
  rw [onData, hd]
  rfl

theorem skipped_iff {py : Pydantic} {c : Conn} (hpc : c.pc = .reading) {b : Bytes}
    (hb : ∀ tc, decodeTelecommand py b ≠ .telecommand tc) :
    Skipped py c b ↔ Utf8.decode b ≠ none := by
  have hstep : step py c (.data b) = some (onData py c b) := if_pos hpc
  constructor
  · intro h hu
    -- the exception leaves the loop
    have hout := finallyBlock_inLoop .unicodeDecodeError c
    obtain ⟨c', hc', hgo⟩ := h.goesOn
    rw [hstep, onData_unicode hu] at hc'
    cases hc'
    rcases hgo [] _ .nil (by simp) with hsame | ⟨hsleep, _⟩
    · rw [hsame.det .nil, hpc] at hout
      cases hout
    · rw [hsleep] at hout
      cases hout
  · intro hu
    rw [onData_none (decodeTelecommand_none hb hu)] at hstep
    refine ⟨fun c' hc' => ?_, asleep c, hstep, fun es d hd hes => ?_⟩
    · rw [hstep] at hc'
      cases hc'
      exact ⟨rfl, rfl, rfl⟩
    · rcases steps_asleep hpc hd hes with hsame | ⟨d', hd', hpc', rfl⟩
      · exact .inl hsame
      · refine .inr ⟨rfl, loopTop (asleep d'), rfl, fun hstop => ?_⟩
        have htop : loopTop (asleep d') = d' := by
          rw [loopTop, if_neg (by rw [hstop]; exact Bool.false_ne_true)]
          obtain ⟨pc, tasks, currentTask, commandQueue, stopEvent, writerClosing, received⟩ := d'
          cases hpc'
          rfl
        rw [htop]
        exact ⟨hpc', hd'⟩

/-- The chunks of a run that are no telecommand are skipped, each in the state it comes in, exactly
if all its chunks are UTF-8. -/
theorem malformed_skipped_iff {py : Pydantic} {stop : Bool} {es : List Event} {c : Conn}
    (h : Steps py (Conn.start stop) es c) :
    (∀ pre b c', pre ++ [.data b] <+: es → Steps py (Conn.start stop) pre c' →
      (∀ tc, decodeTelecommand py b ≠ .telecommand tc) → Skipped py c' b) ↔
    ∀ b, .data b ∈ es → Utf8.decode b ≠ none := by
  have hreading : ∀ pre b c', pre ++ [.data b] <+: es → Steps py (Conn.start stop) pre c' →
      c'.pc = .reading := by
    rintro pre b c' ⟨post, rfl⟩ hc'
    rw [List.append_assoc] at h
    obtain ⟨t, ht, hrest⟩ := h.of_append
    obtain rfl : t = c' := ht.det hc'
    cases hrest with
    | cons hst _ =>
      by_contra hpc
      rw [Trace.ofFn, step, if_neg hpc] at hst
      cases hst
  constructor
  · intro hall b hb hu
    obtain ⟨pre, post, rfl⟩ := List.append_of_mem hb
    have hpre : pre ++ [.data b] <+: pre ++ .data b :: post := ⟨post, by simp⟩
    obtain ⟨c', hc', _⟩ := h.of_append
    have hno : ∀ tc, decodeTelecommand py b ≠ .telecommand tc := by
      rw [decodeTelecommand_unicode hu]
      intro tc he
      cases he
    exact (skipped_iff (hreading pre b c' hpre hc') hno).mp (hall pre b c' hpre hc' hno) hu
  · intro hall pre b c' hpre hc' hb
    refine (skipped_iff (hreading pre b c' hpre hc') hb).mpr (hall b ?_)
    exact hpre.subset (by simp)

/-! ## Two chunks -/

theorem start_reading : (Conn.start false).pc = .reading := rfl

theorem decode_brace : decodeTelecommand Pydantic.strict [123] = .none := rfl

theorem brace_skipped : Skipped Pydantic.strict (Conn.start false) [123] := by
  refine (malformed_skipped_iff (steps_data start_reading [123])).mpr ?_ [] [123] (Conn.start false)
    List.prefix_rfl .nil ?_
  · intro b hb
    cases List.mem_singleton.mp hb
    decide
  · intro tc h
    rw [decode_brace] at h
    cases h

/-- A byte that is no UTF-8 ends the connection. -/
theorem invalid_byte_not_skipped : ¬ ∀ (py : Pydantic) (stop : Bool) (es : List Event) (c : Conn),
    Steps py (Conn.start stop) es c → ∀ pre b c', pre ++ [.data b] <+: es →
      Steps py (Conn.start stop) pre c' → (∀ tc, decodeTelecommand py b ≠ .telecommand tc) →
        Skipped py c' b := by
  intro h
  have hu : Utf8.decode [255] = none := by decide
  have hno : ∀ tc, decodeTelecommand Pydantic.strict [255] ≠ .telecommand tc := by
    intro tc he
    rw [decodeTelecommand_unicode hu] at he
    cases he
  have hskip := h _ _ _ _ (steps_data start_reading [255]) [] [255] (Conn.start false)
    List.prefix_rfl .nil hno
  exact (skipped_iff start_reading hno).mp hskip hu

end Onboard
end BvexLink
