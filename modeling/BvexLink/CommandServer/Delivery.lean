import BvexLink.CommandServer.Shutdown

/-!
# BvexLink.CommandServer.Delivery

What comes through the pipe while the clients, the thread and the application run beside each other.

* `pipe_cases`: what a step does to the pipe.
* `pipe_steps`: a run of the system is one of the pipe, for the chunks that the thread has read.
* `chunks_returned`: what the calls of `command_server_recv` then return.
-/

namespace BvexLink
namespace CommandServer

/-! ## The pipe of a longer list -/

namespace Pipe

/-- The pipe with more to be written behind what there is. -/
def later (ws : List (List UInt8)) (p : Pipe) : Pipe := { p with pending := p.pending ++ ws }

theorem later_nil (p : Pipe) : p.later [] = p := by
  rw [later, List.append_nil]

theorem start_append (ds ds' : List (List UInt8)) :
    start (ds ++ ds') = (start ds).later (writes ds') := by
  rw [start, writes_append]
  rfl

theorem step_later {p q : Pipe} {e : PipeEvent} (ws : List (List UInt8)) (h : p.step e = some q) :
    (p.later ws).step e = some (q.later ws) := by
  cases e with
  | write =>
    rw [step] at h
    split at h
    · cases h
    · rename_i w rest hp
      cases h
      simp only [later, step, hp, List.cons_append]
  | recv =>
    rw [step] at h
    split at h
    · cases h
    · rename_i hne
      obtain ⟨r, hr, rfl⟩ := Option.map_eq_some_iff.mp h
      simp only [later, step, if_neg hne, hr, Option.map_some]

theorem steps_later {p q : Pipe} {es : List PipeEvent} (ws : List (List UInt8))
    (h : Steps p es q) : Steps (p.later ws) es (q.later ws) := by
  induction h with
  | nil => exact .nil
  | cons hst _ ih => exact .cons (step_later ws hst) ih

end Pipe

/-! ## The pipe of the system -/

/-- The thread writes or the application reads. -/
def ShutdownEvent.onPipe : ShutdownEvent → Option PipeEvent
  | .write => some .write
  | .recv => some .recv
  | _ => none

/-- What one `read` returns. -/
def Fits (ds : List (List UInt8)) : Prop := ∀ d ∈ ds, 0 < d.length ∧ d.length ≤ BUFFER_SIZE - 1

theorem fits_append {ds ds' : List (List UInt8)} (h : Fits ds) (h' : Fits ds') :
    Fits (ds ++ ds') := by
  intro d hd
  rcases List.mem_append.mp hd with hd | hd
  · exact h d hd
  · exact h' d hd

namespace Shutdown

variable {cfg : Config} {capacity : Nat} {s t : Shutdown}

/-- A step takes from the pipe or writes to it, or the thread reads `ds`, to be written later. -/
inductive PipeCase (s t : Shutdown) : Option PipeEvent → Prop where
  | moves (e : PipeEvent) : s.pipe.step e = some t.pipe →
      t.server.commands = s.server.commands → PipeCase s t (some e)
  | reads (ds : List (List UInt8)) : Fits ds → t.pipe = s.pipe.later (writes ds) →
      t.server.commands = s.server.commands ++ writes ds → PipeCase s t none

theorem PipeCase.same (hp : t.pipe = s.pipe) (hc : t.server.commands = s.server.commands) :
    PipeCase s t none := by
  refine .reads [] (fun d hd => absurd hd List.not_mem_nil) ?_ ?_
  · exact hp.trans (Pipe.later_nil s.pipe).symm
  · exact hc.trans (List.append_nil _).symm

theorem pipeCase_onServer {e : Event} {server : Server} (he : e.chunk = none)
    (h : CommandServer.step cfg s.server e = some server) (hs : t.server = server)
    (hp : t.pipe = s.pipe) : PipeCase s t none := by
  refine .same hp ?_
  have hcmd := (commands_step h).1
  rw [he] at hcmd
  exact (congrArg Server.commands hs).trans (hcmd.trans (List.append_nil _))

theorem pipeCase_read (h : step cfg capacity s .read = some t) : PipeCase s t none := by
  obtain ⟨i, r, server, _, hnil, hr, hs, rfl⟩ := read_cases h
  obtain ⟨hcmd, hfits⟩ := commands_step hs
  refine .reads (Event.read r).chunk.toList (fun d hd => hfits d (Option.mem_toList.mp hd)) ?_ hcmd
  rw [Pipe.later, hnil, Client.commands, hr]
  rfl

theorem pipe_cases {e : ShutdownEvent} (h : step cfg capacity s e = some t) :
    PipeCase s t e.onPipe := by
  cases e with
  | malloc ok =>
    obtain ⟨server, hs, rfl⟩ := onServer_eq_some.mp h
    exact pipeCase_onServer rfl hs rfl rfl
  | enterPoll =>
    obtain ⟨_, _, rfl⟩ := enterPoll_cases h
    exact .same rfl rfl
  | poll res revents =>
    obtain ⟨_, _, rfl⟩ := poll_cases h
    exact .same rfl (onPoll_commands cfg s.server res revents)
  | accept r =>
    obtain ⟨_, _, server, hs, rfl⟩ := accept_cases h
    exact pipeCase_onServer rfl hs rfl rfl
  | next =>
    obtain ⟨_, _, server, hs, rfl⟩ := next_cases h
    exact pipeCase_onServer rfl hs rfl rfl
  | read => exact pipeCase_read h
  | write =>
    obtain ⟨w, ws, hp, _, rfl⟩ := write_cases h
    exact .moves .write (by rw [Pipe.step, hp]) rfl
  | exit =>
    obtain ⟨_, _, server, hs, rfl, _⟩ := exit_cases h
    exact pipeCase_onServer rfl hs rfl rfl
  | connect =>
    cases h
    exact .same rfl rfl
  | waiting k a =>
    cases h
    exact .same rfl rfl
  | client fd a =>
    cases h
    exact .same rfl rfl
  | recv =>
    rw [step] at h
    split at h
    · obtain ⟨pipe, hp, rfl⟩ := Option.map_eq_some_iff.mp h
      exact .moves .recv hp rfl
    · cases h
  | destroy =>
    obtain ⟨server, hs, rfl⟩ := onServer_eq_some.mp h
    exact pipeCase_onServer rfl hs rfl rfl
  | join =>
    obtain ⟨server, hs, rfl⟩ := onServer_eq_some.mp h
    exact pipeCase_onServer rfl hs rfl rfl
  | close =>
    rw [step] at h
    split at h
    · obtain ⟨server, hs, rfl⟩ := onServer_eq_some.mp h
      exact pipeCase_onServer rfl hs rfl rfl
    · cases h

/-! ## Runs -/

section Run

variable {connections pollFd : Nat → Fd} {revents : Nat → BitVec 16} {clients : Fd → Client}
  {es : List ShutdownEvent}

/-- The events so far are those of a pipe that was to take `ds`, and these are what was read. -/
structure Carries (es : List ShutdownEvent) (s : Shutdown) (ds : List (List UInt8)) : Prop where
  fits : Fits ds
  commands : s.server.commands = writes ds
  pipe : Pipe.Steps (.start ds) (es.filterMap ShutdownEvent.onPipe) s.pipe

theorem carries_step {ds : List (List UInt8)} {e : ShutdownEvent} (hc : Carries es s ds)
    (h : step cfg capacity s e = some t) : ∃ ds', Carries (es ++ [e]) t ds' := by
  have hcase := pipe_cases h
  rcases hp : e.onPipe with _ | pe
  · rw [hp] at hcase
    obtain ⟨new, hfits, hpipe, hcmd⟩ : ∃ new, Fits new ∧ t.pipe = s.pipe.later (writes new) ∧
        t.server.commands = s.server.commands ++ writes new := by
      cases hcase with
      | reads new hf hpipe hcmd => exact ⟨new, hf, hpipe, hcmd⟩
    refine ⟨ds ++ new, fits_append hc.fits hfits, ?_, ?_⟩
    · rw [hcmd, hc.commands, writes_append]
    · rw [List.filterMap_append, List.filterMap_cons_none hp, List.filterMap_nil, List.append_nil,
        Pipe.start_append, hpipe]
      exact Pipe.steps_later (writes new) hc.pipe
  · rw [hp] at hcase
    cases hcase with
    | moves _ hst hcmd =>
      refine ⟨ds, hc.fits, hcmd.trans hc.commands, ?_⟩
      rw [List.filterMap_append, List.filterMap_cons_some hp, List.filterMap_nil]
      exact hc.pipe.append (.single hst)

theorem pipe_steps (h : Steps cfg capacity (start connections pollFd revents clients) es s) :
    ∃ ds, Carries es s ds :=
  h.history (I := fun es s => ∃ ds, Carries es s ds)
    ⟨[], fun _ hd => absurd hd List.not_mem_nil, rfl, .nil⟩
    fun _ _ _ _ hc hst => hc.elim fun _ hc => carries_step hc hst

/-- What the thread has read are chunks of at most a buffer. While each call of
`command_server_recv` finds the oldest one and its newline, the calls return the chunks in order,
one each, and what they have not returned is in the pipe or still to be written. Calls that have
read everything have returned the chunks only so. -/
theorem chunks_returned (h : Steps cfg capacity (start connections pollFd revents clients) es s) :
    ∃ ds, Carries es s ds ∧ ((∀ d ∈ ds, 0 ∉ d) →
      (Trace.Run (Trace.Given (Pipe.Framed ds) (Trace.ofFn Pipe.step)) (.start ds)
        (es.filterMap ShutdownEvent.onPipe) s.pipe → Pipe.Delivered ds s.pipe) ∧
      (s.pipe.unread = [] → (s.pipe.results = ds ↔
        Trace.Run (Trace.Given (Pipe.Framed ds) (Trace.ofFn Pipe.step)) (.start ds)
          (es.filterMap ShutdownEvent.onPipe) s.pipe))) := by
  obtain ⟨ds, hc⟩ := pipe_steps h
  exact ⟨ds, hc, fun hz => ⟨Pipe.delivered_steps hz, Pipe.results_eq_iff hz hc.pipe⟩⟩

end Run

/-! ## An instance -/

/-- A client connects and sends a byte, which the application reads. -/
def sendByte : List ShutdownEvent :=
  [.malloc true, .connect, .enterPoll, .poll .ok onlyServer, .accept (some 6), .next, .next,
    .client 6 (.send [65]), .enterPoll, .poll .ok onlyFirst, .next, .read, .write, .write, .recv]

theorem byte_returned : ∃ s, Steps twoConnections 65536
      (start (fun _ => 0) (fun _ => 0) (fun _ => 0#16) fun _ => ⟨[], .up⟩) sendByte s ∧
    Carries sendByte s [[65]] ∧ Pipe.Delivered [[65]] s.pipe := by
  have hrun : ∃ s, Trace.exec (step twoConnections 65536)
      (start (fun _ => 0) (fun _ => 0) (fun _ => 0#16) fun _ => ⟨[], .up⟩) sendByte = some s ∧
      s.server.commands = [[65], newline] ∧ s.pipe.results = [[65]] ∧ s.pipe.unread = [] :=
    ⟨_, rfl, rfl, rfl, rfl⟩
  obtain ⟨s, hs, hcmd, hresults, hunread⟩ := hrun
  have hsteps := Trace.run_of_exec hs
  obtain ⟨ds, hc, hread⟩ := chunks_returned hsteps
  have hds : ds = [[65]] := by
    have hw := hc.commands
    rw [hcmd] at hw
    cases ds with
    | nil => cases hw
    | cons d ds =>
      cases ds with
      | nil =>
        cases hw
        rfl
      | cons d' ds => cases hw
  subst hds
  obtain ⟨hdelivered, hiff⟩ := hread (by decide)
  exact ⟨s, hsteps, hc, hdelivered ((hiff hunread).mp hresults)⟩

end Shutdown
end CommandServer
end BvexLink
