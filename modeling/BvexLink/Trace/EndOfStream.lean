import BvexLink.Trace.Run

/-!
# BvexLink.Trace.EndOfStream

A reader of a stream that ends: once a read has returned the empty string, every later one does. The
reader is any step function, with its reads among its labels.

* `noFurtherRead_iff`: the runs in which nothing is read after the end.
-/

namespace Trace

variable {S E B : Type}

/-- `data` is the result of a read, and `reading` is where the reader waits for one. -/
structure StreamReader (S E B : Type) where
  step : S → E → Option S
  data : E → Option (List B)
  reading : S → Bool

namespace StreamReader

variable (r : StreamReader S E B)

/-- The steps with the end of the stream; the flag is set by the read that returns it. -/
def stepEof (s : S × Bool) (e : E) : Option (S × Bool) :=
  match r.data e with
  | some [] => (r.step s.1 e).map fun t => (t, true)
  | some (_ :: _) => if s.2 then none else (r.step s.1 e).map fun t => (t, false)
  | none => (r.step s.1 e).map fun t => (t, s.2)

/-- After the end of the stream the reader does not wait for another read. -/
def NoFurtherRead (s : S × Bool) : Prop := s.2 = true → r.reading s.1 = false

/-- The reader is where it says when it reads, and not there right after the end. -/
structure Lawful : Prop where
  reads : ∀ {s t e b}, r.step s e = some t → r.data e = some b → r.reading s = true
  stops : ∀ {s t e}, r.step s e = some t → r.data e = some [] → r.reading t = false

variable {r}

theorem stepEof_of_none {s : S} {t : S} {f : Bool} {e : E} (hd : r.data e = none)
    (h : r.step s e = some t) : r.stepEof (s, f) e = some (t, f) := by
  simp [stepEof, hd, h]

theorem stepEof_of_nil {s : S} {t : S} {f : Bool} {e : E} (hd : r.data e = some [])
    (h : r.step s e = some t) : r.stepEof (s, f) e = some (t, true) := by
  simp [stepEof, hd, h]

theorem step_of_stepEof {s t : S × Bool} {e : E} (h : r.stepEof s e = some t) :
    r.step s.1 e = some t.1 := by
  unfold stepEof at h
  split at h
  · obtain ⟨u, hu, rfl⟩ := Option.map_eq_some_iff.mp h
    exact hu
  · split at h
    · cases h
    · obtain ⟨u, hu, rfl⟩ := Option.map_eq_some_iff.mp h
      exact hu
  · obtain ⟨u, hu, rfl⟩ := Option.map_eq_some_iff.mp h
    exact hu

theorem noFurtherRead_step (hr : r.Lawful) {back : S → E → Prop} {s t : S × Bool} {e : E}
    (hback : ∀ t, s.2 = true → r.step s.1 e = some t → r.data e = none → r.reading s.1 = false →
      (r.reading t = true ↔ back s.1 e))
    (hp : r.NoFurtherRead s) (h : r.stepEof s e = some t) :
    r.NoFurtherRead t ↔ (s.2 = true → r.data e = none → ¬ back s.1 e) := by
  unfold stepEof at h
  split at h
  · rename_i hd
    obtain ⟨t, ht, rfl⟩ := Option.map_eq_some_iff.mp h
    exact iff_of_true (fun _ => hr.stops ht hd) fun _ hn => by rw [hd] at hn; cases hn
  · rename_i b bs hd
    split at h
    · cases h
    · rename_i hs
      obtain ⟨t, ht, rfl⟩ := Option.map_eq_some_iff.mp h
      exact iff_of_true (fun hf => absurd hf Bool.false_ne_true) fun hf => absurd hf hs
  · rename_i hd
    obtain ⟨t, ht, rfl⟩ := Option.map_eq_some_iff.mp h
    constructor
    · intro hn hs _ hb
      have hread := (hback t hs ht hd (hp hs)).mpr hb
      rw [hn hs] at hread
      cases hread
    · intro hn hs
      rw [← Bool.not_eq_true]
      exact fun hread => hn hs hd ((hback t hs ht hd (hp hs)).mp hread)

/-- Nothing is read after the end of the stream exactly if no step goes back to reading then. -/
theorem noFurtherRead_iff (hr : r.Lawful) (I : S × Bool → Prop) (back : S → E → Prop)
    (hI : ∀ s e t, I s → r.stepEof s e = some t → I t)
    (hback : ∀ s e t, I s → s.2 = true → r.step s.1 e = some t → r.data e = none →
      r.reading s.1 = false → (r.reading t = true ↔ back s.1 e))
    {s : S} {t : S × Bool} {es : List E}
    (h : Run (ofFn r.stepEof) (s, false) es t) (hs : I (s, false)) :
    (∀ es' u, es' <+: es → Run (ofFn r.stepEof) (s, false) es' u → r.NoFurtherRead u) ↔
      Run (Given (fun s e => s.2 = true → r.data e = none → ¬ back s.1 e) (ofFn r.stepEof))
        (s, false) es t :=
  run_given_iff hI (fun s e _ hi hp ht => noFurtherRead_step hr (fun t => hback s e t hi) hp ht) h hs
    fun hf => absurd hf Bool.false_ne_true

end StreamReader

end Trace
