import BvexLink.CommandServer.Pass
import BvexLink.CommandServer.Pipe

/-!
# BvexLink.CommandServer.Shutdown

The thread with its clients and the pipe, until `command_server_destroy` has waited for it. The
calls of the thread that may block are steps of their own here: `poll`, the `read` of a client and
the two `write`s of a command. The application is the only reader of the pipe, and does not read
while it waits.

* `read_cases`, `write_cases` and the like: what each step finds and leaves.
* `inv_step`: the invariant.
-/

namespace BvexLink
namespace CommandServer

/-! ## Clients -/

inductive Line where
  | up
  | shut
  | reset
  deriving DecidableEq

/-- What a client has sent and the thread has not read, and the state of its connection. -/
structure Client where
  bytes : List UInt8
  line : Line
  deriving DecidableEq

inductive ClientAction where
  | send (b : List UInt8)
  | shut
  | reset

namespace Client

def act (a : ClientAction) (c : Client) : Client :=
  match a with
  | .send b => if c.line = .up then { c with bytes := c.bytes ++ b } else c
  | .shut => if c.line = .up then { c with line := .shut } else c
  | .reset => { c with line := .reset }

/-- What `read` returns; `none` while it blocks. -/
def result (c : Client) : Option ReadResult :=
  if c.line = .reset then some .error
  else if c.bytes ≠ [] then some (.data (c.bytes.take (BUFFER_SIZE - 1)))
  else if c.line = .shut then some .eof
  else none

def read (c : Client) : Client := { c with bytes := c.bytes.drop (BUFFER_SIZE - 1) }

def closes (c : Client) : Bool := c.result.any ReadResult.closes

/-- What the thread writes for it. -/
def commands (c : Client) : List (List UInt8) :=
  writes (c.result.bind fun r => Event.chunk (.read r)).toList

/-- A chunk and its newline, or nothing. -/
theorem commands_length {c : Client} {r : ReadResult} (h : c.result = some r) :
    c.commands.length = if r.closes then 0 else 2 := by
  rw [commands, h]
  cases r <;> rfl

end Client

/-! ## The system -/

/-- `waiting` are the clients whose connection has not been accepted. -/
structure Shutdown where
  server : Server
  polling : Bool
  clients : Fd → Client
  waiting : List Client
  pipe : Pipe

/-- The calls of the thread, up to `exit`; then what the clients and the application do. `close` is
a step of the loop that closes the connections. -/
inductive ShutdownEvent where
  | malloc (ok : Bool)
  | enterPoll
  | poll (res : PollResult) (revents : Nat → BitVec 16)
  | accept (r : Option Fd)
  | next
  | read
  | write
  | exit
  | connect
  | waiting (k : Nat) (a : ClientAction)
  | client (fd : Fd) (a : ClientAction)
  | recv
  | destroy
  | join
  | close

def ShutdownEvent.byThread : ShutdownEvent → Bool
  | .malloc _ => true
  | .enterPoll => true
  | .poll _ _ => true
  | .accept _ => true
  | .next => true
  | .read => true
  | .write => true
  | .exit => true
  | _ => false

namespace Shutdown

section Step

variable (cfg : Config) (capacity : Nat) (s : Shutdown)

def onServer (e : Event) : Option Shutdown :=
  (CommandServer.step cfg s.server e).map fun server => { s with server := server }

/-- `poll` reports what there is. -/
def Reports (revents : Nat → BitVec 16) : Prop :=
  (revents 0 &&& POLLIN != 0#16) = !s.waiting.isEmpty ∧
    ∀ k < s.server.numConnections,
      pollin revents k = (s.clients (s.server.connections k)).result.isSome

instance (revents : Nat → BitVec 16) : Decidable (s.Reports revents) :=
  inferInstanceAs (Decidable (_ ∧ _))

/-- One event; `none` where it cannot happen. A `write` of so few bytes waits until the pipe has
room for all of them. -/
def step : ShutdownEvent → Option Shutdown
  | .malloc ok => s.onServer cfg (.malloc ok)
  | .enterPoll =>
    if s.server.pc = .top ∧ s.server.running = true ∧ s.polling = false then
      some { s with polling := true }
    else none
  | .poll res revents =>
    if s.polling = true ∧ (res = .ok → s.Reports revents) then
      some { s with polling := false, server := onPoll cfg s.server res revents }
    else none
  | .accept none => s.onServer cfg (.accept none)
  | .accept (some fd) =>
    match s.waiting with
    | [] => none
    | c :: cs =>
      { s with clients := Function.update s.clients fd c, waiting := cs }.onServer cfg
        (.accept (some fd))
  | .next =>
    if s.pipe.pending = [] ∧ s.server.pc.inPass = true then s.onServer cfg .next else none
  | .read =>
    match s.server.pc with
    | .scan i =>
      let fd := s.server.connections i
      match (s.clients fd).result with
      | none => none
      | some r =>
        if s.pipe.pending = [] then
          { s with
            clients := Function.update s.clients fd (s.clients fd).read
            pipe := { s.pipe with pending := (s.clients fd).commands } }.onServer cfg (.read r)
        else none
    | _ => none
  | .write =>
    match s.pipe.pending with
    | [] => none
    | w :: _ =>
      if s.pipe.bytes.length + w.length ≤ capacity then
        (s.pipe.step .write).map fun pipe => { s with pipe := pipe }
      else none
  | .exit => if s.polling = false then s.onServer cfg .exit else none
  | .connect => some { s with waiting := s.waiting ++ [⟨[], .up⟩] }
  | .waiting k a => some { s with waiting := s.waiting.modify k (Client.act a) }
  | .client fd a =>
    some { s with clients := Function.update s.clients fd ((s.clients fd).act a) }
  | .recv =>
    if s.server.destroying = false then (s.pipe.step .recv).map fun pipe => { s with pipe := pipe }
    else none
  | .destroy => s.onServer cfg .destroy
  | .join => s.onServer cfg .join
  | .close => if s.server.pc.live = false then s.onServer cfg .next else none

abbrev Steps : Shutdown → List ShutdownEvent → Shutdown → Prop :=
  Trace.Run (Trace.ofFn (step cfg capacity))

/-- A step of the thread. -/
def threadStep (s : Shutdown) (e : ShutdownEvent) (t : Shutdown) : Prop :=
  e.byThread = true ∧ step cfg capacity s e = some t

end Step

/-- The state `command_server_listen` starts the thread in. -/
def start (connections pollFd : Nat → Fd) (revents : Nat → BitVec 16) (clients : Fd → Client) :
    Shutdown :=
  ⟨.start connections pollFd revents, false, clients, [], ⟨[], [], []⟩⟩

/-- The thread has left its loop. -/
def Left (s : Shutdown) : Prop :=
  s.server.pc = .done ∨ s.server.pc.live = false

/-! ## The invariant -/

structure Inv (cfg : Config) (capacity : Nat) (s : Shutdown) : Prop where
  server : CommandServer.Inv cfg s.server
  polling : s.polling = true → s.server.pc = .top
  pending : s.pipe.pending ≠ [] → ∃ i, s.server.pc = .scan i
  capacity : s.pipe.bytes.length ≤ capacity
  waiting : s.server.pc = .accepting → s.server.ready 0 = true → s.waiting ≠ []
  running : s.server.destroying = true → s.server.running = false

variable {cfg : Config} {capacity : Nat} {s t : Shutdown}

theorem inv_start (connections pollFd : Nat → Fd) (revents : Nat → BitVec 16)
    (clients : Fd → Client) : Inv cfg capacity (start connections pollFd revents clients) where
  server := CommandServer.inv_start cfg connections pollFd revents
  polling h := absurd h Bool.false_ne_true
  pending h := absurd rfl h
  capacity := Nat.zero_le capacity
  waiting h := by cases h
  running h := absurd h Bool.false_ne_true

theorem onServer_eq_some {e : Event} : s.onServer cfg e = some t ↔
    ∃ server, CommandServer.step cfg s.server e = some server ∧ t = { s with server := server } := by
  rw [onServer, Option.map_eq_some_iff]
  simp only [eq_comm]

theorem malloc_cases {ok : Bool} (h : step cfg capacity s (.malloc ok) = some t) :
    s.server.pc = .start ∧ ∃ server, CommandServer.step cfg s.server (.malloc ok) = some server ∧
      t = { s with server := server } ∧ (server.pc = .top ∨ server.pc = .done) := by
  obtain ⟨server, hs, ht⟩ := onServer_eq_some.mp h
  cases step_cases hs with
  | malloc hpc => exact ⟨hpc, _, hs, ht, .inl rfl⟩
  | noMemory hpc => exact ⟨hpc, _, hs, ht, .inr rfl⟩

theorem enterPoll_cases (h : step cfg capacity s .enterPoll = some t) :
    s.server.pc = .top ∧ s.server.running = true ∧ t = { s with polling := true } := by
  rw [step] at h
  split at h
  · rename_i hg
    cases h
    exact ⟨hg.1, hg.2.1, rfl⟩
  · cases h

theorem poll_cases {res : PollResult} {revents : Nat → BitVec 16}
    (h : step cfg capacity s (.poll res revents) = some t) :
    s.polling = true ∧ (res = .ok → s.Reports revents) ∧
      t = { s with polling := false, server := onPoll cfg s.server res revents } := by
  rw [step] at h
  split at h
  · rename_i hg
    cases h
    exact ⟨hg.1, hg.2, rfl⟩
  · cases h

theorem accept_some_cases {fd : Fd} (h : step cfg capacity s (.accept (some fd)) = some t) :
    ∃ c cs server, s.waiting = c :: cs ∧
      CommandServer.step cfg s.server (.accept (some fd)) = some server ∧
      t = { s with
        server := server, clients := Function.update s.clients fd c, waiting := cs } := by
  rw [step] at h
  split at h
  · cases h
  · rename_i c cs hw
    obtain ⟨server, hs, rfl⟩ := onServer_eq_some.mp h
    exact ⟨c, cs, server, hw, hs, rfl⟩

theorem accept_cases {r : Option Fd} (h : step cfg capacity s (.accept r) = some t) :
    ∃ clients waiting server, CommandServer.step cfg s.server (.accept r) = some server ∧
      t = { s with server := server, clients := clients, waiting := waiting } := by
  cases r with
  | none =>
    obtain ⟨server, hs, rfl⟩ := onServer_eq_some.mp h
    exact ⟨_, _, server, hs, rfl⟩
  | some fd =>
    obtain ⟨c, cs, server, _, hs, rfl⟩ := accept_some_cases h
    exact ⟨_, _, server, hs, rfl⟩

theorem read_cases (h : step cfg capacity s .read = some t) : ∃ i r server,
    s.server.pc = .scan i ∧ s.pipe.pending = [] ∧
    (s.clients (s.server.connections i)).result = some r ∧
    CommandServer.step cfg s.server (.read r) = some server ∧
    t = { s with
      server := server
      clients := Function.update s.clients (s.server.connections i)
        (s.clients (s.server.connections i)).read
      pipe := { s.pipe with pending := (s.clients (s.server.connections i)).commands } } := by
  rw [step] at h
  split at h
  · rename_i i hpc
    dsimp only at h
    split at h
    · cases h
    · rename_i r hr
      split at h
      · rename_i hp
        obtain ⟨server, hs, rfl⟩ := onServer_eq_some.mp h
        exact ⟨i, r, server, hpc, hp, hr, hs, rfl⟩
      · cases h
  · cases h

theorem write_cases (h : step cfg capacity s .write = some t) : ∃ w ws,
    s.pipe.pending = w :: ws ∧ s.pipe.bytes.length + w.length ≤ capacity ∧
    t = { s with pipe := { s.pipe with pending := ws, bytes := s.pipe.bytes ++ w } } := by
  rw [step] at h
  split at h
  · cases h
  · rename_i w ws hp
    split at h
    · rename_i hfit
      rw [Pipe.step, hp] at h
      cases h
      exact ⟨w, ws, hp, hfit, rfl⟩
    · cases h

theorem next_cases (h : step cfg capacity s .next = some t) :
    s.pipe.pending = [] ∧ s.server.pc.inPass = true ∧ ∃ server,
      CommandServer.step cfg s.server .next = some server ∧ t = { s with server := server } := by
  rw [step] at h
  split at h
  · rename_i hg
    exact ⟨hg.1, hg.2, onServer_eq_some.mp h⟩
  · cases h

/-- In a pass. -/
theorem next_in_pass {s t : Server} (hi : CommandServer.Inv cfg s) (hpc : s.pc.inPass = true)
    (h : CommandServer.step cfg s .next = some t) :
    (s.pc = .accepting ∧ s.ready 0 = false ∧ t = { s.useFd cfg 0 with pc := .scan 0 }) ∨
    (∃ i, s.pc = .scan i ∧ i < s.numConnections ∧ s.ready (i + 1) = false ∧
      t = { s.useFd cfg (i + 1) with pc := .scan (i + 1) }) ∨
    ∃ i, s.pc = .scan i ∧ s.numConnections ≤ i ∧ t = { s with pc := .top } := by
  have hfew := hi.few
  cases step_cases h with
  | noClient hp =>
    refine .inl ⟨hp, ?_, rfl⟩
    simp only [CommandServer.step, hp] at h
    split at h
    · cases h
    · rename_i hr
      exact Bool.not_eq_true _ ▸ hr
  | skip i hp hlt hr =>
    rw [sizeAdd_eq (by omega)] at hr ⊢
    exact .inr (.inl ⟨i, hp, hlt, hr, rfl⟩)
  | scanned i hp hge => exact .inr (.inr ⟨i, hp, hge, rfl⟩)
  | closeNext i hp _ =>
    rw [hp] at hpc
    cases hpc
  | closeOwn i hp _ =>
    rw [hp] at hpc
    cases hpc

theorem exit_cases (h : step cfg capacity s .exit = some t) :
    s.server.pc = .top ∧ s.polling = false ∧ ∃ server,
      CommandServer.step cfg s.server .exit = some server ∧ t = { s with server := server } ∧
      server.pc = .done := by
  rw [step] at h
  split at h
  · rename_i hp
    obtain ⟨server, hs, ht⟩ := onServer_eq_some.mp h
    cases step_cases hs with
    | exit hpc => exact ⟨hpc, hp, _, hs, ht, rfl⟩
  · cases h

theorem running_step {s t : Server} {e : Event} (h : CommandServer.step cfg s e = some t) :
    t.destroying = s.destroying ∧ t.running = s.running ∨
      e = .destroy ∧ t.destroying = true ∧ t.running = false := by
  cases step_cases h with
  | poll res revents _ =>
    have hf := setupFds_frame cfg s.numConnections 0 1 s
    refine .inl ⟨?_, ?_⟩
    · have hd := congrArg Server.destroying hf
      cases res <;> exact hd
    · have hr := congrArg Server.running hf
      cases res <;> exact hr
  | accept fd _ _ _ =>
    refine .inl ?_
    simp only [onAccept]
    split <;> exact ⟨rfl, rfl⟩
  | read i r _ _ _ _ => cases r <;> exact .inl ⟨rfl, rfl⟩
  | destroy => exact .inr ⟨rfl, rfl, rfl⟩
  | _ => exact .inl ⟨rfl, rfl⟩

theorem Inv.pending_nil (hi : Inv cfg capacity s) (h : ∀ i, s.server.pc ≠ .scan i) :
    s.pipe.pending = [] := by
  by_contra hne
  obtain ⟨i, hpc⟩ := hi.pending hne
  exact h i hpc

/-- A step of the server, with the clients and the pipe changed as they may be. -/
theorem Inv.onServer (hi : Inv cfg capacity s) {e : Event} {server : Server}
    {clients : Fd → Client} {waiting : List Client} {pending : List (List UInt8)}
    (h : CommandServer.step cfg s.server e = some server) (hpoll : s.polling = false)
    (hpending : pending ≠ [] → ∃ i, server.pc = .scan i) (hpc : server.pc ≠ .accepting) :
    Inv cfg capacity ⟨server, s.polling, clients, waiting, { s.pipe with pending := pending }⟩ where
  server := CommandServer.inv_step hi.server h
  polling hp := by
    rw [hpoll] at hp
    cases hp
  pending := hpending
  capacity := hi.capacity
  waiting ha := absurd ha hpc
  running hd := by
    rcases running_step h with ⟨hd', hr⟩ | ⟨_, _, hr⟩
    · rw [hr]
      exact hi.running (hd' ▸ hd)
    · exact hr

theorem Inv.polling_false (hi : Inv cfg capacity s) (h : s.server.pc ≠ .top) :
    s.polling = false := by
  by_contra hp
  exact h (hi.polling (by simpa using hp))

/-- The guards that `step_cases` leaves out. -/
theorem accept_ready {s t : Server} {r : Option Fd}
    (h : CommandServer.step cfg s (.accept r) = some t) :
    s.pc = .accepting ∧ s.ready 0 = true := by
  simp only [CommandServer.step] at h
  split at h
  · assumption
  · cases h

theorem pc_accept {s t : Server} {r : Option Fd}
    (h : CommandServer.step cfg s (.accept r) = some t) : t.pc = .scan 0 := by
  cases step_cases h with
  | acceptFails _ => rfl
  | accept fd _ _ _ => rfl

theorem pc_read {s t : Server} {r : ReadResult}
    (h : CommandServer.step cfg s (.read r) = some t) : ∃ i, t.pc = .scan i := by
  cases step_cases h with
  | read i r _ _ _ _ => cases r <;> exact ⟨_, rfl⟩

theorem inv_poll (hi : Inv cfg capacity s) (hp : s.polling = true) {res : PollResult}
    {revents : Nat → BitVec 16} (hr : res = .ok → s.Reports revents) :
    Inv cfg capacity { s with polling := false, server := onPoll cfg s.server res revents } := by
  have hpc := hi.polling hp
  have hfew := hi.server.few
  have hnil := hi.pending_nil (by simp [hpc])
  have heq : onPoll cfg s.server res revents = _ := onPoll_eq res revents (by omega)
  refine ⟨?_, fun h => absurd h Bool.false_ne_true, absurd hnil, hi.capacity, ?_, ?_⟩
  · show CommandServer.Inv cfg (onPoll cfg s.server res revents)
    rw [heq]
    refine hi.server.keeps_live ⟨rfl, rfl, rfl, rfl⟩ (by rw [hpc]; rfl) (by cases res <;> rfl) ?_
    rintro i (h | h) <;> cases res <;> cases h
  · show (onPoll cfg s.server res revents).pc = .accepting → _
    rw [heq]
    cases res with
    | ok =>
      intro _ hready
      have hzero : 0 < 1 + s.server.numConnections := by omega
      have hready : (revents 0 &&& POLLIN != 0#16) = true := by
        simpa only [Server.ready, if_pos hzero] using hready
      rw [(hr rfl).1] at hready
      simpa using hready
    | interrupted => simp [PollResult.pc]
    | failed => simp [PollResult.pc]
  · show (onPoll cfg s.server res revents).destroying = true → _
    rw [heq]
    exact hi.running

theorem inv_step {e : ShutdownEvent} (hi : Inv cfg capacity s)
    (h : step cfg capacity s e = some t) : Inv cfg capacity t := by
  cases e with
  | malloc ok =>
    obtain ⟨hpc, server, hs, rfl, hpc'⟩ := malloc_cases h
    have hnil := hi.pending_nil (by simp [hpc])
    refine hi.onServer hs (hi.polling_false (by simp [hpc])) (absurd hnil) ?_
    rcases hpc' with hpc' | hpc' <;> simp [hpc']
  | enterPoll =>
    obtain ⟨hpc, _, rfl⟩ := enterPoll_cases h
    exact ⟨hi.server, fun _ => hpc, hi.pending, hi.capacity, hi.waiting, hi.running⟩
  | poll res revents =>
    obtain ⟨hp, hr, rfl⟩ := poll_cases h
    exact inv_poll hi hp hr
  | accept r =>
    obtain ⟨clients, waiting, server, hs, rfl⟩ := accept_cases h
    have hpc := (accept_ready hs).1
    have hnil := hi.pending_nil (by simp [hpc])
    exact hi.onServer hs (hi.polling_false (by simp [hpc])) (absurd hnil)
      (by simp [pc_accept hs])
  | next =>
    obtain ⟨hp, hpass, server, hs, rfl⟩ := next_cases h
    have hpc : s.server.pc ≠ .top := by
      intro hpc
      rw [hpc] at hpass
      cases hpass
    refine hi.onServer hs (hi.polling_false hpc) (absurd hp) ?_
    cases step_cases hs <;> simp
  | read =>
    obtain ⟨i, r, server, hpc, _, _, hs, rfl⟩ := read_cases h
    exact hi.onServer hs (hi.polling_false (by simp [hpc])) (fun _ => pc_read hs)
      (by obtain ⟨j, hj⟩ := pc_read hs; simp [hj])
  | write =>
    obtain ⟨w, ws, hp, hfit, rfl⟩ := write_cases h
    refine ⟨hi.server, hi.polling, fun _ => hi.pending (by simp [hp]), ?_, hi.waiting,
      hi.running⟩
    rw [List.length_append]
    exact hfit
  | exit =>
    obtain ⟨hpc, hp, server, hs, rfl, hpc'⟩ := exit_cases h
    have hnil := hi.pending_nil (by simp [hpc])
    exact hi.onServer hs hp (absurd hnil) (by simp [hpc'])
  | connect =>
    cases h
    exact ⟨hi.server, hi.polling, hi.pending, hi.capacity, fun _ _ => by simp, hi.running⟩
  | waiting k a =>
    cases h
    refine ⟨hi.server, hi.polling, hi.pending, hi.capacity, fun hpc hr => ?_, hi.running⟩
    have hne := List.length_pos_iff.mpr (hi.waiting hpc hr)
    exact List.length_pos_iff.mp (by simpa using hne)
  | client fd a =>
    cases h
    exact ⟨hi.server, hi.polling, hi.pending, hi.capacity, hi.waiting, hi.running⟩
  | recv =>
    rw [step] at h
    split at h
    · obtain ⟨pipe, hp, rfl⟩ := Option.map_eq_some_iff.mp h
      simp only [Pipe.step] at hp
      split at hp
      · cases hp
      · obtain ⟨r, _, rfl⟩ := Option.map_eq_some_iff.mp hp
        refine ⟨hi.server, hi.polling, hi.pending, ?_, hi.waiting, hi.running⟩
        exact (List.drop_sublist _ _).length_le.trans hi.capacity
    · cases h
  | destroy =>
    obtain ⟨server, hs, rfl⟩ := onServer_eq_some.mp h
    cases step_cases hs with
    | destroy =>
      exact ⟨CommandServer.inv_step hi.server hs, hi.polling, hi.pending, hi.capacity, hi.waiting,
        fun _ => rfl⟩
  | join =>
    obtain ⟨server, hs, rfl⟩ := onServer_eq_some.mp h
    cases step_cases hs with
    | join hpc =>
      have hnil := hi.pending_nil (by simp [hpc])
      exact hi.onServer hs (hi.polling_false (by simp [hpc])) (absurd hnil) (by simp)
  | close =>
    rw [step] at h
    split at h
    · rename_i hl
      obtain ⟨server, hs, rfl⟩ := onServer_eq_some.mp h
      have hlive (p : Pc) (hp : p.live = true) : s.server.pc ≠ p := by
        rintro rfl
        rw [hl] at hp
        cases hp
      have hnil := hi.pending_nil fun i => hlive (.scan i) rfl
      refine hi.onServer hs (hi.polling_false (hlive .top rfl)) (absurd hnil) ?_
      cases step_cases hs <;> simp
    · cases h

end Shutdown
end CommandServer
end BvexLink
