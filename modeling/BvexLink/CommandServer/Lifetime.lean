import BvexLink.CommandServer.Create

/-!
# BvexLink.CommandServer.Lifetime

A server from `command_server_create` to `command_server_destroy`: calls of `command_server_listen`,
the thread that the first successful one starts, and the destruction, with the descriptors and the
memory of the process.

* `accepted_step`, `closed_step`: which connections a step opens and closes.
* `owns_step`: what the process owns after a step of the thread.
* `lifetime_settles`: over every run, what has been acquired is released once, and only that.
-/

namespace BvexLink
namespace CommandServer

open Trace.Descriptors

/-! ## The program -/

/-- The handle is that of the configuration. -/
structure Handle.Has (hd : Handle) (cfg : Config) : Prop where
  own : cfg.own = hd.own
  max_connections : cfg.maxConnections = hd.max_connections

/-- `undefined`: `pthread_join` of a `thread_id` that was never set. -/
inductive Phase where
  | idle
  | live (s : Server)
  | undefined

/-- `fds` is the address of the thread's poll set, `threads` counts the threads started, `results`
are those of `command_server_listen`. -/
structure Program where
  phase : Phase
  resources : Resources
  fds : Nat
  threads : Nat
  results : List Int

/-- `block` is where a `malloc` of the thread succeeds. -/
inductive ProgramEvent where
  | listen (created : Bool)
  | destroy
  | server (e : Event) (block : Nat)

def Event.isDestroy : Event → Bool
  | .destroy => true
  | _ => false

/-- The thread has its poll set. -/
def Pc.looping : Pc → Bool
  | .top => true
  | .accepting => true
  | .scan _ => true
  | _ => false

/-- A new connection has a number that is not in use. -/
def acquire (e : Event) (r : Resources) : Option Resources :=
  match e with
  | .accept (some fd) => if h : fd ∉ r.descriptors.numbers then some (r.opening fd h) else none
  | _ => some r

def allocate (e : Event) (block : Nat) (r : Resources) : Option Resources :=
  match e with
  | .malloc true => if h : block ∉ r.heap.numbers then some (r.alloc block h) else none
  | _ => some r

def Event.fds (e : Event) (block fds : Nat) : Nat :=
  match e with
  | .malloc true => block
  | _ => fds

def ended (s t : Server) : List Fd := t.closed.drop s.closed.length

/-- The thread frees its poll set when it leaves the loop, `command_server_destroy` the rest. -/
def freed (hd : Handle) (fds : Nat) (s t : Server) : List Nat :=
  if s.pc.looping = true ∧ t.pc = .done then [fds]
  else if s.pc ≠ .destroyed ∧ t.pc = .destroyed then hd.blocks
  else []

namespace Program

section Step

variable (cfg : Config) (hd : Handle) (start : Server) (p : Program)

def onServer (s : Server) (e : Event) (block : Nat) : Option Program := do
  let t ← CommandServer.step cfg s e
  let r ← acquire e p.resources
  let r ← allocate e block r
  let r := (ended s t).foldl Resources.close r
  let r := (freed hd (e.fds block p.fds) s t).foldl Resources.free r
  return { p with phase := .live t, resources := r, fds := e.fds block p.fds }

/-- `command_server_listen`; a server that is being destroyed is not started again. -/
def listen (created : Bool) : Option Program :=
  match p.phase with
  | .idle =>
    if created then
      some { p with phase := .live start, threads := p.threads + 1, results := p.results ++ [0] }
    else some { p with results := p.results ++ [-1] }
  | .live s => if s.running then some { p with results := p.results ++ [-1] } else none
  | .undefined => none

def step : ProgramEvent → Option Program
  | .listen created => p.listen start created
  | .destroy =>
    match p.phase with
    | .idle => some { p with phase := .undefined }
    | .live s => (CommandServer.step cfg s .destroy).map fun t => { p with phase := .live t }
    | .undefined => none
  | .server e block =>
    match p.phase with
    | .live s => if e.isDestroy then none else p.onServer cfg hd s e block
    | _ => none

end Step

abbrev Steps (cfg : Config) (hd : Handle) (start : Server) :
    Program → List ProgramEvent → Program → Prop :=
  Trace.Run (Trace.ofFn (step cfg hd start))

end Program

/-! ## What a step opens and closes -/

def Event.opens : Event → List Fd
  | .accept (some fd) => [fd]
  | _ => []

theorem accepted_onAccept (cfg : Config) (s : Server) (fd : Fd) :
    (onAccept cfg s fd).accepted = s.accepted ++ [fd] := by
  by_cases hroom : s.numConnections < cfg.maxConnections
  · rw [onAccept_store fd hroom]
  · rw [onAccept_reject fd hroom]

theorem closed_onAccept (cfg : Config) (s : Server) (fd : Fd) :
    s.closed <+: (onAccept cfg s fd).closed := by
  by_cases hroom : s.numConnections < cfg.maxConnections
  · rw [onAccept_store fd hroom]
    exact List.prefix_rfl
  · rw [onAccept_reject fd hroom]
    exact List.prefix_append ..

theorem accepted_onRead (cfg : Config) (s : Server) (i : Nat) (r : ReadResult) :
    (onRead cfg s i r).accepted = s.accepted := by
  cases r <;> rfl

theorem closed_onRead (cfg : Config) (s : Server) (i : Nat) (r : ReadResult) :
    s.closed <+: (onRead cfg s i r).closed := by
  cases r with
  | data d => exact List.prefix_rfl
  | eof => exact List.prefix_append ..
  | error => exact List.prefix_append ..

section Server

variable {cfg : Config} {s t : Server} {e : Event}

theorem accepted_step (hi : Inv cfg s) (h : step cfg s e = some t) :
    t.accepted = s.accepted ++ e.opens := by
  have hfew := hi.few
  cases step_cases h with
  | accept fd _ _ _ => exact accepted_onAccept cfg (s.useFd cfg 0) fd
  | poll res revents _ =>
    rw [onPoll_eq res revents (by omega)]
    exact (List.append_nil _).symm
  | read i r _ _ _ _ =>
    exact (accepted_onRead cfg (s.useFd cfg (sizeAdd i 1)) i r).trans (List.append_nil _).symm
  | _ => exact (List.append_nil _).symm

theorem closed_step (hi : Inv cfg s) (h : step cfg s e = some t) : s.closed <+: t.closed := by
  have hfew := hi.few
  cases step_cases h with
  | accept fd _ _ _ => exact closed_onAccept cfg (s.useFd cfg 0) fd
  | poll res revents _ => rw [onPoll_eq res revents (by omega)]
  | read i r _ _ _ _ => exact closed_onRead cfg (s.useFd cfg (sizeAdd i 1)) i r
  | closeNext i _ _ => exact List.prefix_append ..
  | closeOwn i _ _ => exact List.prefix_append ..
  | _ => exact List.prefix_rfl

theorem held_step (hi : Inv cfg s) (h : step cfg s e = some t) :
    (s.held cfg ++ e.opens).Perm (ended s t ++ t.held cfg) := by
  have hs := hi.owned
  have ht := (inv_step hi h).owned
  obtain ⟨l, hl⟩ := closed_step hi h
  have hended : ended s t = l := by
    rw [ended, ← hl, List.drop_left]
  rw [accepted_step hi h, ← hl, ← List.append_assoc, List.append_assoc s.closed] at ht
  rw [hended]
  refine (List.perm_append_left_iff s.closed).mp ?_
  rw [← List.append_assoc]
  exact (hs.append_right e.opens).symm.trans ht

end Server

/-! ## What the process owns -/

def Event.blocks (e : Event) (block : Nat) : List Nat :=
  match e with
  | .malloc true => [block]
  | _ => []

/-- The blocks there are at a place in the code. -/
def inUse (hd : Handle) (fds : Nat) : Pc → List Nat
  | .start => hd.blocks
  | .done => hd.blocks
  | .closing _ => hd.blocks
  | .destroyed => []
  | _ => fds :: hd.blocks

section Owned

variable {cfg : Config} {hd : Handle} {p₀ r r' : Resources} {s t : Server} {e : Event}
  {fds block : Nat} {owned blocks : List Nat}

theorem owns_acquire (h : Owns p₀ r owned blocks) (ha : acquire e r = some r') :
    Owns p₀ r' (e.opens ++ owned) blocks := by
  unfold acquire at ha
  split at ha
  · split at ha
    · rename_i hfd
      cases ha
      exact h.opening hfd
    · cases ha
  · rename_i hne
    cases ha
    have hnone : e.opens = [] := by
      unfold Event.opens
      split
      · exact absurd rfl (hne _)
      · rfl
    rw [hnone]
    exact h

theorem owns_allocate (h : Owns p₀ r owned blocks) (ha : allocate e block r = some r') :
    Owns p₀ r' owned (e.blocks block ++ blocks) := by
  unfold allocate at ha
  split at ha
  · split at ha
    · rename_i hb
      cases ha
      exact h.alloc hb
    · cases ha
  · rename_i hne
    cases ha
    have hnone : e.blocks block = [] := by
      unfold Event.blocks
      split
      · exact absurd rfl hne
      · rfl
    rw [hnone]
    exact h

theorem freed_same (h : t.pc = s.pc) (hd : Handle) (fds : Nat) : freed hd fds s t = [] := by
  rw [freed, h]
  cases s.pc <;> rfl

theorem inUse_step (hi : Inv cfg s) (h : step cfg s e = some t) (hd : Handle) (fds block : Nat) :
    e.blocks block ++ inUse hd fds s.pc =
      freed hd (e.fds block fds) s t ++ inUse hd (e.fds block fds) t.pc := by
  have hfew := hi.few
  cases step_cases h with
  | poll res revents hpc =>
    rw [onPoll_eq res revents (by omega)]
    cases res <;> (rw [freed, hpc]; rfl)
  | read i r hpc _ _ _ =>
    obtain ⟨j, hj⟩ : ∃ j, (onRead cfg (s.useFd cfg (sizeAdd i 1)) i r).pc = .scan j := by
      cases r <;> exact ⟨_, rfl⟩
    rw [freed, hpc, hj]
    rfl
  | destroy =>
    rw [freed_same (s := s) (t := { s with running := false, destroying := true }) rfl]
    rfl
  | malloc hpc => rw [freed, hpc]; rfl
  | noMemory hpc => rw [freed, hpc]; rfl
  | acceptFails hpc => rw [freed, hpc]; rfl
  | accept fd hpc _ _ => rw [freed, hpc]; rfl
  | noClient hpc => rw [freed, hpc]; rfl
  | skip i hpc _ _ => rw [freed, hpc]; rfl
  | scanned i hpc _ => rw [freed, hpc]; rfl
  | closeNext i hpc _ => rw [freed, hpc]; rfl
  | closeOwn i hpc _ => rw [freed, hpc]; rfl
  | exit hpc => rw [freed, hpc]; rfl
  | join hpc => rw [freed, hpc]; rfl

theorem owns_step (hi : Inv cfg s) (h : step cfg s e = some t)
    (ho : Owns p₀ r (s.held cfg) (inUse hd fds s.pc)) {r₁ r₂ : Resources}
    (ha : acquire e r = some r₁) (hb : allocate e block r₁ = some r₂) :
    Owns p₀ ((freed hd (e.fds block fds) s t).foldl Resources.free
      ((ended s t).foldl Resources.close r₂)) (t.held cfg) (inUse hd (e.fds block fds) t.pc) := by
  have hnew := owns_allocate (owns_acquire ho ha) hb
  rw [inUse_step hi h hd fds block] at hnew
  exact (hnew.perm (List.perm_append_comm.trans (held_step hi h)) (.refl _)).closes.frees

end Owned

/-! ## Runs -/

namespace Program

/-- What the process owns in each phase, and how many threads there have been. -/
def Owned (cfg : Config) (hd : Handle) (p₀ : Resources) (p : Program) : Prop :=
  match p.phase with
  | .live s => CommandServer.Inv cfg s ∧
      Owns p₀ p.resources (s.held cfg) (inUse hd p.fds s.pc) ∧ p.threads = 1
  | _ => Owns p₀ p.resources hd.own hd.blocks ∧ p.threads = 0

/-- After the events `es`. -/
structure Inv (cfg : Config) (hd : Handle) (p₀ : Resources) (es : List ProgramEvent)
    (p : Program) : Prop where
  owned : p.Owned cfg hd p₀
  results : p.results.count 0 = p.threads
  undefined : p.phase = .undefined ↔ .destroy ∈ es ∧ p.threads = 0

section Step

variable {cfg : Config} {hd : Handle} {start : Server} {p₀ : Resources} {p q : Program}
  {es : List ProgramEvent} {e : ProgramEvent}

theorem owned_idle (h : p.Owned cfg hd p₀) (hp : p.phase = .idle) :
    Owns p₀ p.resources hd.own hd.blocks ∧ p.threads = 0 := by
  simpa only [Owned, hp] using h

theorem owned_live (h : p.Owned cfg hd p₀) {s : Server} (hp : p.phase = .live s) :
    CommandServer.Inv cfg s ∧ Owns p₀ p.resources (s.held cfg) (inUse hd p.fds s.pc) ∧
      p.threads = 1 := by
  simpa only [Owned, hp] using h

/-- The first `listen` that succeeds starts the thread; until then nothing is taken. -/
theorem inv_listen (hhas : hd.Has cfg) {connections pollFd : Nat → Fd} {revents : Nat → BitVec 16}
    {created : Bool} (hi : Inv cfg hd p₀ es p)
    (h : p.listen (.start connections pollFd revents) created = some q) :
    Inv cfg hd p₀ (es ++ [.listen created]) q := by
  have hmem : ProgramEvent.destroy ∈ es ++ [.listen created] ↔ .destroy ∈ es := by simp
  unfold listen at h
  split at h
  · rename_i hp
    obtain ⟨ho, hnone⟩ := owned_idle hi.owned hp
    have hidle : ¬ (.destroy ∈ es ∧ p.threads = 0) := by
      rw [← hi.undefined, hp]
      simp
    split at h
    · cases h
      refine ⟨⟨inv_start cfg connections pollFd revents, ?_, by simp [hnone]⟩, ?_, ?_⟩
      · have hheld : Server.held cfg (.start connections pollFd revents) = hd.own := by
          rw [held_live rfl, hhas.own]
          exact List.append_nil _
        rw [hheld]
        exact ho
      · simp [List.count_append, hi.results]
      · simp
    · cases h
      refine ⟨by simpa only [Owned, hp] using And.intro ho hnone, ?_, ?_⟩
      · simp [List.count_append, hi.results]
      · rw [hmem]
        exact hi.undefined
  · rename_i s hp
    split at h
    · cases h
      refine ⟨by simpa only [Owned, hp] using owned_live hi.owned hp, ?_, ?_⟩
      · simp [List.count_append, hi.results]
      · rw [hmem]
        exact hi.undefined
    · cases h
  · cases h

theorem inv_onServer (hi : Inv cfg hd p₀ es p) {s : Server} (hp : p.phase = .live s) {e : Event}
    {block : Nat} (h : p.onServer cfg hd s e block = some q) :
    Inv cfg hd p₀ (es ++ [.server e block]) q := by
  obtain ⟨hs, ho, hone⟩ := owned_live hi.owned hp
  simp only [onServer, Option.bind_eq_bind, Option.bind_eq_some_iff, Option.pure_def,
    Option.some.injEq] at h
  obtain ⟨t, ht, r₁, ha, r₂, hb, rfl⟩ := h
  exact ⟨⟨inv_step hs ht, owns_step hs ht ho ha hb, hone⟩, hi.results, by simp [hone]⟩

theorem inv_program_step (hhas : hd.Has cfg) {connections pollFd : Nat → Fd}
    {revents : Nat → BitVec 16} (hi : Inv cfg hd p₀ es p)
    (h : step cfg hd (.start connections pollFd revents) p e = some q) :
    Inv cfg hd p₀ (es ++ [e]) q := by
  cases e with
  | listen created => exact inv_listen hhas hi h
  | destroy =>
    simp only [step] at h
    split at h
    · rename_i hp
      obtain ⟨ho, hnone⟩ := owned_idle hi.owned hp
      cases h
      exact ⟨⟨ho, hnone⟩, hi.results, by simp [hnone]⟩
    · rename_i s hp
      obtain ⟨hs, ho, hone⟩ := owned_live hi.owned hp
      obtain ⟨t, ht, rfl⟩ := Option.map_eq_some_iff.mp h
      refine ⟨⟨inv_step hs ht, ?_, hone⟩, hi.results, by simp [hone]⟩
      have hsame : t = { s with running := false, destroying := true } := by
        cases step_cases ht
        rfl
      subst hsame
      exact ho
    · cases h
  | server e block =>
    simp only [step] at h
    split at h
    · rename_i s hp
      split at h
      · cases h
      · exact inv_onServer hi hp h
    · cases h

end Step

theorem inv_program_steps {cfg : Config} {hd : Handle} {p₀ p₁ : Resources} (hhas : hd.Has cfg)
    (ho : Owns p₀ p₁ hd.own hd.blocks) {connections pollFd : Nat → Fd} {revents : Nat → BitVec 16}
    {es : List ProgramEvent} {q : Program}
    (h : Steps cfg hd (.start connections pollFd revents) ⟨.idle, p₁, 0, 0, []⟩ es q) :
    Inv cfg hd p₀ es q :=
  h.history ⟨⟨ho, rfl⟩, rfl, by simp⟩ fun _ _ _ _ hi hs => inv_program_step hhas hi hs

end Program

/-- A server that was created, over any calls and any steps of its thread: nothing is released that
is not the server's or not there, at most one thread is started, by the one call of `listen` that
returns 0, and the destruction waits for a thread that does not exist exactly if there was no such
call. While the thread is there the process owns the server's descriptors and those in the table,
and when the destruction is over all that was acquired has been released once. -/
theorem lifetime_settles (sys : System) {port max_connections : Nat} {p₀ p₁ : Resources}
    {hd : Handle} (hc : sys.commandServerCreate port max_connections p₀ = (some hd, p₁))
    {cfg : Config} (hhas : hd.Has cfg) {connections pollFd : Nat → Fd} {revents : Nat → BitVec 16}
    {es : List ProgramEvent} {q : Program}
    (hr : Program.Steps cfg hd (.start connections pollFd revents) ⟨.idle, p₁, 0, 0, []⟩ es q) :
    q.resources.clean = p₀.clean ∧
    (q.threads = q.results.count 0 ∧ q.threads ≤ 1) ∧
    (q.phase = .undefined ↔ .destroy ∈ es ∧ 0 ∉ q.results) ∧
    ∀ s, q.phase = .live s →
      (s.pc.live = true → ∃ blocks, Owns p₀ q.resources (hd.own ++ s.table) blocks) ∧
      (s.pc = .destroyed → Owns p₀ q.resources [] []) := by
  have hcreated := sys.created port max_connections p₀
  rw [hc] at hcreated
  cases hcreated with
  | succeeds _ ho _ _ _ _ =>
    have hi := Program.inv_program_steps hhas ho hr
    have hnone : q.threads = 0 ↔ 0 ∉ q.results := by
      rw [← hi.results, List.count_eq_zero]
    have hphase : q.resources.clean = p₀.clean ∧ q.threads ≤ 1 := by
      cases hp : q.phase with
      | live s =>
        obtain ⟨_, hs, hone⟩ := Program.owned_live hi.owned hp
        exact ⟨hs.clean, Nat.le_of_eq hone⟩
      | idle =>
        obtain ⟨hs, hzero⟩ := Program.owned_idle hi.owned hp
        exact ⟨hs.clean, by omega⟩
      | undefined =>
        have howned := hi.owned
        simp only [Program.Owned, hp] at howned
        exact ⟨howned.1.clean, by omega⟩
    refine ⟨hphase.1, ⟨hi.results.symm, hphase.2⟩, by rw [← hnone]; exact hi.undefined, ?_⟩
    intro s hp
    obtain ⟨_, hs, _⟩ := Program.owned_live hi.owned hp
    constructor
    · intro hlive
      rw [held_live hlive, hhas.own] at hs
      exact ⟨_, hs⟩
    · intro hpc
      rw [Server.held, hpc] at hs
      exact hs

/-! ## An instance -/

def allWell : System where
  mallocOk _ _ := true
  pipeOk := true
  socketOk := true
  setsockoptOk := true
  bindOk _ := true
  listenOk := true
  block t := t.numbers.sum + 1
  block_fresh _ h := Nat.not_succ_le_self _ (List.le_sum_of_mem h)
  fd t := t.numbers.sum + 1
  fd_fresh _ h := Nat.not_succ_le_self _ (List.le_sum_of_mem h)

def twoDescriptors : Resources :=
  ⟨⟨[(1, 0), (2, 1)], 2, [], by decide, by decide⟩, ⟨[], 0, [], by decide, by decide⟩, true⟩

/-- The first `listen` fails; a client connects, and the server is destroyed. -/
def failThenServe : List ProgramEvent :=
  [.listen false, .listen true, .listen true, .server (.malloc true) 9,
    .server (.poll .ok onlyServer) 0, .server (.accept (some 40)) 0, .server .next 0,
    .server .next 0, .destroy, .server .exit 0, .server .join 0, .server .next 0, .server .next 0]

theorem fail_then_serve_settles : ∃ hd p₁, allWell.commandServerCreate 8080 2 twoDescriptors =
    (some hd, p₁) ∧ ∃ cfg : Config, hd.Has cfg ∧ ∃ q s,
      Program.Steps cfg hd (.start (fun _ => 0) (fun _ => 0) fun _ => 0#16)
        ⟨.idle, p₁, 0, 0, []⟩ failThenServe q ∧
      q.phase = .live s ∧ q.results = [-1, 0, -1] ∧ Owns twoDescriptors q.resources [] [] := by
  have hcreate : ∃ hd p₁, allWell.commandServerCreate 8080 2 twoDescriptors = (some hd, p₁) ∧
      ∃ cfg : Config, hd.Has cfg ∧ ∃ q s, Trace.exec
        (Program.step cfg hd (.start (fun _ => 0) (fun _ => 0) fun _ => 0#16))
        ⟨.idle, p₁, 0, 0, []⟩ failThenServe = some q ∧ q.phase = .live s ∧ s.pc = .destroyed ∧
      q.results = [-1, 0, -1] :=
    ⟨_, _, rfl, ⟨2, by decide, 16, 4, 8, by decide⟩, ⟨rfl, rfl⟩, _, _, rfl, rfl, rfl, rfl⟩
  obtain ⟨hd, p₁, hc, cfg, hhas, q, s, hq, hs, hpc, hres⟩ := hcreate
  have hrun := Trace.run_of_exec hq
  obtain ⟨_, _, _, hlive⟩ := lifetime_settles allWell hc hhas hrun
  exact ⟨hd, p₁, hc, cfg, hhas, q, s, hrun, hs, hres, (hlive s hs).2 hpc⟩

end CommandServer
end BvexLink
