import BvexLink.Trace.Run

/-!
# BvexLink.CommandServer.Thread

`server_thread` of `command_server.c` and the `command_server_destroy` that stops it, one step a
system call or loop iteration.

The two allocations are memories, of which the server's own counters say what is in use; `inside`
records whether every index used so far lay in its allocation. A `size_t` is a `Nat` with every
operation taken modulo `2 ^ 64`. `accepted`, `closed`, `polled`, `reads` and `commands` record the
calls made: `accept` and `close` since the start, the poll set and the `read`s of the current pass,
and the writes to the commands pipe.

* `onPoll_eq`, `onAccept_store`, `onAccept_reject`, `onRead_data`, `onRead_closes`: what the system
  calls do while no `size_t` wraps.
* `step_cases`: what each event finds and leaves.
-/

namespace BvexLink
namespace CommandServer

abbrev Fd := Nat

/-! ## `size_t` -/

def sizeAdd (a b : Nat) : Nat := (a + b) % 2 ^ 64

def sizeSub (a b : Nat) : Nat := (a + (2 ^ 64 - b)) % 2 ^ 64

def sizeMul (a b : Nat) : Nat := a * b % 2 ^ 64

theorem sizeAdd_eq {a b : Nat} (h : a + b < 2 ^ 64) : sizeAdd a b = a + b := Nat.mod_eq_of_lt h

theorem sizeSub_eq {a b : Nat} (hb : b ≤ a) (ha : a < 2 ^ 64) : sizeSub a b = a - b := by
  rw [sizeSub, show a + (2 ^ 64 - b) = a - b + 2 ^ 64 by omega, Nat.add_mod_right]
  exact Nat.mod_eq_of_lt (by omega)

theorem sizeMul_eq {a b : Nat} (h : a * b < 2 ^ 64) : sizeMul a b = a * b := Nat.mod_eq_of_lt h

/-- Also at index 0, where the decrement wraps around. -/
theorem sizeAdd_sizeSub_one {i : Nat} (h : i < 2 ^ 64) : sizeAdd (sizeSub i 1) 1 = i := by
  simp only [sizeAdd, sizeSub]
  omega

/-! ## The state -/

/-- What `command_server_create` was given and has opened. -/
structure Config where
  maxConnections : Nat
  maxConnections_lt : maxConnections < 2 ^ 64
  socketFd : Fd
  commandsReadFd : Fd
  commandsWriteFd : Fd
  own_nodup : [socketFd, commandsReadFd, commandsWriteFd].Nodup

namespace Config

variable (cfg : Config)

def own : List Fd := [cfg.socketFd, cfg.commandsReadFd, cfg.commandsWriteFd]

/-- `sizeof(client_connection_t)` and `sizeof(struct pollfd)`. -/
def sizeofConnection : Nat := 20

def sizeofPollfd : Nat := 8

def connectionsBytes : Nat := sizeMul cfg.maxConnections sizeofConnection

def fdsBytes : Nat := sizeMul (sizeAdd cfg.maxConnections 1) sizeofPollfd

def connectionInside (i : Nat) : Bool := decide ((i + 1) * sizeofConnection ≤ cfg.connectionsBytes)

def fdInside (i : Nat) : Bool := decide ((i + 1) * sizeofPollfd ≤ cfg.fdsBytes)

end Config

inductive PollResult where
  | ok
  | interrupted
  | failed
  deriving DecidableEq

/-- `read` returns data, `0` or `-1`. -/
inductive ReadResult where
  | data (d : List UInt8)
  | eof
  | error
  deriving DecidableEq

def ReadResult.closes : ReadResult → Bool
  | .data _ => false
  | _ => true

/-- `scan i` is the loop over the connections, `closing i` that of `command_server_destroy`. -/
inductive Pc where
  | start
  | top
  | accepting
  | scan (i : Nat)
  | done
  | closing (i : Nat)
  | destroyed
  deriving DecidableEq

structure Server where
  pc : Pc
  running : Bool
  destroying : Bool
  connections : Nat → Fd
  numConnections : Nat
  pollFd : Nat → Fd
  revents : Nat → BitVec 16
  inside : Bool
  accepted : List Fd
  closed : List Fd
  polled : List Fd
  reads : List (Fd × ReadResult)
  commands : List (List UInt8)

/-- `next` is a step without a system call, `exit` the end of the loop on `running`. -/
inductive Event where
  | malloc (ok : Bool)
  | poll (res : PollResult) (revents : Nat → BitVec 16)
  | accept (r : Option Fd)
  | next
  | read (r : ReadResult)
  | exit
  | destroy
  | join

/-! ## Memory -/

def BUFFER_SIZE : Nat := 1024

def POLLIN : BitVec 16 := 1#16

def newline : List UInt8 := [10]

namespace Server

variable (cfg : Config) (s : Server)

/-- The connections in use. -/
def table : List Fd := (List.range s.numConnections).map s.connections

/-- `fds[i].revents & POLLIN`. -/
def ready (i : Nat) : Bool := s.revents i &&& POLLIN != 0#16

def useConnection (i : Nat) : Server := { s with inside := s.inside && cfg.connectionInside i }

def useFd (i : Nat) : Server := { s with inside := s.inside && cfg.fdInside i }

def setConnection (i : Nat) (fd : Fd) : Server :=
  { s.useConnection cfg i with connections := Function.update s.connections i fd }

def setPollFd (i : Nat) (fd : Fd) : Server :=
  { s.useFd cfg i with pollFd := Function.update s.pollFd i fd }

/-- `close(fd)`. -/
def close (fd : Fd) : Server := { s with closed := s.closed ++ [fd] }

/-- The descriptor has been opened more often than closed. -/
def isOpen (fd : Fd) : Prop := s.closed.count fd < (cfg.own ++ s.accepted).count fd

instance (fd : Fd) : Decidable (s.isOpen cfg fd) := inferInstanceAs (Decidable (_ < _))

/-- `memmove` of `n` connections from `i + 1` to `i`. -/
def moveDown (i n : Nat) : Server :=
  { s with
    connections := fun j => s.connections (if i ≤ j ∧ j < i + n then j + 1 else j)
    inside := s.inside && (n == 0 || cfg.connectionInside (i + n)) }

end Server

/-! ## The thread -/

/-- The loop that sets up the poll set, with `n` connections to go; it ends with `nfds`. -/
def setupFds (cfg : Config) : Nat → Nat → Nat → Server → Server × Nat
  | 0, _, nfds, s => (s, nfds)
  | n + 1, i, nfds, s =>
    setupFds cfg n (sizeAdd i 1) (sizeAdd nfds 1)
      ((s.useConnection cfg i).setPollFd cfg nfds (s.connections i))

/-- The kernel fills in `revents` of the entries it was given. -/
def onPoll (cfg : Config) (s : Server) (res : PollResult) (revents : Nat → BitVec 16) : Server :=
  let (s, nfds) := setupFds cfg s.numConnections 0 1 s
  let s := { s with revents := fun k => if k < nfds then revents k else s.revents k }
  match res with
  | .ok => { s with
      pc := .accepting
      polled := (List.range (nfds - 1)).map fun k => s.pollFd (k + 1)
      reads := [] }
  | .interrupted => { s with pc := .top }
  | .failed => { s with pc := .done }

def onAccept (cfg : Config) (s : Server) (fd : Fd) : Server :=
  let s := { s with accepted := s.accepted ++ [fd] }
  if s.numConnections < cfg.maxConnections then
    { s.setConnection cfg s.numConnections fd with
      numConnections := sizeAdd s.numConnections 1 }
  else s.close fd

/-- The number of connections `memmove` is told to move. -/
def moved (s : Server) (i : Nat) : Nat :=
  sizeMul (sizeSub (sizeSub s.numConnections i) 1) Config.sizeofConnection /
    Config.sizeofConnection

/-- The connection at `i` has been read. -/
def onRead (cfg : Config) (s : Server) (i : Nat) (r : ReadResult) : Server :=
  let fd := s.connections i
  let s := { s.useConnection cfg i with reads := s.reads ++ [(fd, r)] }
  match r with
  | .data d => { s with commands := s.commands ++ [d, newline], pc := .scan (sizeAdd i 1) }
  | _ =>
    let s := (s.close fd).moveDown cfg i (moved s i)
    { s with
      numConnections := sizeSub s.numConnections 1
      pc := .scan (sizeAdd (sizeSub i 1) 1) }

/-- A `read` of at most `BUFFER_SIZE - 1` bytes may return this. -/
def ReadResult.fits : ReadResult → Bool
  | .data d => 0 < d.length && d.length ≤ BUFFER_SIZE - 1
  | _ => true

/-- One event; `none` where it cannot happen. `accept` returns a descriptor that is not open. -/
def step (cfg : Config) (s : Server) : Event → Option Server
  | .malloc ok =>
    if s.pc = .start then
      some (if ok then { s.setPollFd cfg 0 cfg.socketFd with pc := .top } else { s with pc := .done })
    else none
  | .poll res revents =>
    if s.pc = .top ∧ s.running = true then some (onPoll cfg s res revents) else none
  | .accept r =>
    if s.pc = .accepting ∧ s.ready 0 = true then
      match r with
      | none => some { s.useFd cfg 0 with pc := .scan 0 }
      | some fd =>
        if fd < 2 ^ 31 ∧ ¬ s.isOpen cfg fd then
          some { onAccept cfg (s.useFd cfg 0) fd with pc := .scan 0 }
        else none
    else none
  | .next =>
    match s.pc with
    | .accepting => if s.ready 0 = true then none else some { s.useFd cfg 0 with pc := .scan 0 }
    | .scan i =>
      if i < s.numConnections then
        if s.ready (sizeAdd i 1) = true then none
        else some { s.useFd cfg (sizeAdd i 1) with pc := .scan (sizeAdd i 1) }
      else some { s with pc := .top }
    | .closing i =>
      if i < s.numConnections then
        some { (s.useConnection cfg i).close (s.connections i) with pc := .closing (sizeAdd i 1) }
      else some { s with closed := s.closed ++ cfg.own, pc := .destroyed }
    | _ => none
  | .read r =>
    match s.pc with
    | .scan i =>
      if i < s.numConnections ∧ s.ready (sizeAdd i 1) = true ∧ r.fits = true then
        some (onRead cfg (s.useFd cfg (sizeAdd i 1)) i r)
      else none
    | _ => none
  | .exit => if s.pc = .top ∧ s.running = false then some { s with pc := .done } else none
  | .destroy =>
    if s.destroying = true then none else some { s with running := false, destroying := true }
  | .join =>
    if s.pc = .done ∧ s.destroying = true then some { s with pc := .closing 0 } else none

/-- The state `command_server_listen` starts the thread in; the memories hold anything. -/
def Server.start (connections pollFd : Nat → Fd) (revents : Nat → BitVec 16) : Server where
  pc := .start
  running := true
  destroying := false
  connections := connections
  numConnections := 0
  pollFd := pollFd
  revents := revents
  inside := true
  accepted := []
  closed := []
  polled := []
  reads := []
  commands := []

abbrev Steps (cfg : Config) : Server → List Event → Server → Prop :=
  Trace.Run (Trace.ofFn (step cfg))

/-! ## The loop that sets up the poll set -/

theorem setupFds_frame (cfg : Config) (n i nfds : Nat) (s : Server) :
    (setupFds cfg n i nfds s).1 = { s with
      pollFd := (setupFds cfg n i nfds s).1.pollFd
      inside := (setupFds cfg n i nfds s).1.inside } := by
  induction n generalizing i nfds s with
  | zero => rfl
  | succ n ih =>
    rw [setupFds, ih]
    rfl

theorem setupFds_nfds (cfg : Config) {n nfds : Nat} (i : Nat) (s : Server)
    (h : nfds + n < 2 ^ 64) : (setupFds cfg n i nfds s).2 = nfds + n := by
  induction n generalizing i nfds s with
  | zero => rfl
  | succ n ih =>
    rw [setupFds, sizeAdd_eq (a := nfds) (by omega), ih _ _ (by omega)]
    omega

theorem setupFds_pollFd (cfg : Config) {n i nfds : Nat} (s : Server) (hi : i + n < 2 ^ 64)
    (h : nfds + n < 2 ^ 64) (k : Nat) : (setupFds cfg n i nfds s).1.pollFd k =
      if nfds ≤ k ∧ k < nfds + n then s.connections (i + (k - nfds)) else s.pollFd k := by
  induction n generalizing i nfds s with
  | zero => rw [setupFds, if_neg (by omega)]
  | succ n ih =>
    rw [setupFds, sizeAdd_eq (a := i) (by omega), sizeAdd_eq (a := nfds) (by omega),
      ih _ (by omega) (by omega)]
    simp only [Server.setPollFd, Server.useConnection, Server.useFd, Function.update_apply]
    by_cases hk : k = nfds
    · subst hk
      rw [if_neg (by omega), if_pos rfl, if_pos (by omega), Nat.sub_self, Nat.add_zero]
    · by_cases hin : nfds + 1 ≤ k ∧ k < nfds + 1 + n
      · rw [if_pos hin, if_pos (by omega)]
        congr 1
        omega
      · rw [if_neg hin, if_neg hk, if_neg (by omega)]

theorem setupFds_inside (cfg : Config) {n i nfds : Nat} {s : Server} (hi : i + n < 2 ^ 64)
    (h : nfds + n < 2 ^ 64) (hs : s.inside = true)
    (hc : ∀ k < n, cfg.connectionInside (i + k) = true ∧ cfg.fdInside (nfds + k) = true) :
    (setupFds cfg n i nfds s).1.inside = true := by
  induction n generalizing i nfds s with
  | zero => exact hs
  | succ n ih =>
    have h0 := hc 0 (by omega)
    rw [setupFds, sizeAdd_eq (a := i) (by omega), sizeAdd_eq (a := nfds) (by omega)]
    refine ih (by omega) (by omega) ?_ fun k hk => ?_
    · simp only [Nat.add_zero] at h0
      simp [Server.setPollFd, Server.useFd, Server.useConnection, hs, h0.1, h0.2]
    · have := hc (k + 1) (by omega)
      rwa [show i + 1 + k = i + (k + 1) by omega, show nfds + 1 + k = nfds + (k + 1) by omega]

/-! ## The table -/

@[simp] theorem table_length (s : Server) : s.table.length = s.numConnections := by
  simp [Server.table]

theorem table_getElem? (s : Server) (i : Nat) :
    s.table[i]? = if i < s.numConnections then some (s.connections i) else none := by
  rw [Server.table, List.getElem?_map]
  split
  · rename_i h
    rw [List.getElem?_range h]
    rfl
  · rename_i h
    rw [List.getElem?_eq_none (by simpa using h)]
    rfl

theorem table_congr {s t : Server} (hn : t.numConnections = s.numConnections)
    (hc : t.connections = s.connections) : t.table = s.table := by
  rw [Server.table, Server.table, hn, hc]

/-- Storing behind the last connection in use. -/
theorem table_store {s t : Server} {fd : Fd} (hn : t.numConnections = s.numConnections + 1)
    (hc : t.connections = Function.update s.connections s.numConnections fd) :
    t.table = s.table ++ [fd] := by
  rw [Server.table, hn, hc, List.range_succ, List.map_append, Server.table]
  congr 1
  · refine List.map_congr_left fun i hi => ?_
    rw [Function.update_of_ne (by have := List.mem_range.mp hi; omega)]
  · simp

/-- Moving the connections behind `i` down by one. -/
theorem table_remove {s t : Server} {i : Nat} (hi : i < s.numConnections)
    (hn : t.numConnections = s.numConnections - 1)
    (hc : ∀ j, t.connections j =
      s.connections (if i ≤ j ∧ j < i + (s.numConnections - i - 1) then j + 1 else j)) :
    t.table = s.table.eraseIdx i := by
  apply List.ext_getElem?
  intro j
  rw [List.getElem?_eraseIdx, table_getElem?, table_getElem?, table_getElem?, hn, hc]
  by_cases hj : j < i
  · have hk : ¬ (i ≤ j ∧ j < i + (s.numConnections - i - 1)) := by omega
    rw [if_pos (show j < s.numConnections - 1 by omega), if_pos hj, if_neg hk,
      if_pos (show j < s.numConnections by omega)]
  · rw [if_neg hj]
    by_cases hl : j < s.numConnections - 1
    · have hk : i ≤ j ∧ j < i + (s.numConnections - i - 1) := by omega
      rw [if_pos hl, if_pos (show j + 1 < s.numConnections by omega), if_pos hk]
    · rw [if_neg hl, if_neg (by omega)]

/-! ## The system calls -/

def PollResult.pc : PollResult → Pc
  | .ok => .accepting
  | .interrupted => .top
  | .failed => .done

theorem onPoll_eq {cfg : Config} {s : Server} (res : PollResult) (revents : Nat → BitVec 16)
    (hn : 1 + s.numConnections < 2 ^ 64) : onPoll cfg s res revents = { s with
      pollFd := (setupFds cfg s.numConnections 0 1 s).1.pollFd
      inside := (setupFds cfg s.numConnections 0 1 s).1.inside
      revents := fun k => if k < 1 + s.numConnections then revents k else s.revents k
      pc := res.pc
      polled := if res = .ok then s.table else s.polled
      reads := if res = .ok then [] else s.reads } := by
  have hf := setupFds_frame cfg s.numConnections 0 1 s
  have hnf : (setupFds cfg s.numConnections 0 1 s).2 = 1 + s.numConnections :=
    setupFds_nfds cfg 0 s hn
  have htab : (List.range (1 + s.numConnections - 1)).map
      (fun k => (setupFds cfg s.numConnections 0 1 s).1.pollFd (k + 1)) = s.table := by
    rw [Server.table, show 1 + s.numConnections - 1 = s.numConnections by omega]
    refine List.map_congr_left fun k hk => ?_
    have hk := List.mem_range.mp hk
    rw [setupFds_pollFd cfg s (by omega) hn, if_pos (by omega)]
    congr 1
    omega
  cases res <;> (simp only [onPoll, hnf, htab]; rw [hf]; rfl)

theorem onAccept_store {cfg : Config} {s : Server} (fd : Fd)
    (h : s.numConnections < cfg.maxConnections) : onAccept cfg s fd =
      { s.useConnection cfg s.numConnections with
        connections := Function.update s.connections s.numConnections fd
        accepted := s.accepted ++ [fd]
        numConnections := s.numConnections + 1 } := by
  have hlt := cfg.maxConnections_lt
  have hsize : sizeAdd s.numConnections 1 = s.numConnections + 1 := sizeAdd_eq (by omega)
  rw [onAccept, if_pos h, ← hsize]
  rfl

theorem onAccept_reject {cfg : Config} {s : Server} (fd : Fd)
    (h : ¬ s.numConnections < cfg.maxConnections) : onAccept cfg s fd =
      { s with accepted := s.accepted ++ [fd], closed := s.closed ++ [fd] } := by
  rw [onAccept, if_neg h]
  rfl

theorem moved_eq {s : Server} {i : Nat} (hi : i < s.numConnections)
    (hn : s.numConnections ≤ 2 ^ 31) : moved s i = s.numConnections - i - 1 := by
  have h1 : sizeSub s.numConnections i = s.numConnections - i := sizeSub_eq (by omega) (by omega)
  have h2 : sizeSub (s.numConnections - i) 1 = s.numConnections - i - 1 :=
    sizeSub_eq (by omega) (by omega)
  rw [moved, h1, h2, Config.sizeofConnection, sizeMul_eq (by omega)]
  exact Nat.mul_div_cancel _ (by omega)

theorem onRead_data (cfg : Config) (s : Server) {i : Nat} (d : List UInt8)
    (hi : i + 1 < 2 ^ 64) : onRead cfg s i (.data d) = { s.useConnection cfg i with
      reads := s.reads ++ [(s.connections i, .data d)]
      commands := s.commands ++ [d, newline]
      pc := .scan (i + 1) } := by
  rw [onRead, sizeAdd_eq hi]
  rfl

theorem onRead_closes (cfg : Config) {s : Server} {i : Nat} {r : ReadResult}
    (hr : r.closes = true) (hi : i < s.numConnections) (hn : s.numConnections ≤ 2 ^ 31) :
    onRead cfg s i r =
      { (s.useConnection cfg i).moveDown cfg i (s.numConnections - i - 1) with
        reads := s.reads ++ [(s.connections i, r)]
        closed := s.closed ++ [s.connections i]
        numConnections := s.numConnections - 1
        pc := .scan i } := by
  have hm := moved_eq hi hn
  have hsub : sizeSub s.numConnections 1 = s.numConnections - 1 :=
    sizeSub_eq (by omega) (by omega)
  have hpc : sizeAdd (sizeSub i 1) 1 = i := sizeAdd_sizeSub_one (by omega)
  cases r with
  | data d => cases hr
  | eof =>
    rw [onRead, ← hm, ← hsub, hpc]
    · rfl
    · nofun
  | error =>
    rw [onRead, ← hm, ← hsub, hpc]
    · rfl
    · nofun

/-! ## One step -/

/-- What each event finds and leaves. -/
inductive StepCase (cfg : Config) (s : Server) : Event → Server → Prop where
  | malloc : s.pc = .start →
      StepCase cfg s (.malloc true) { s.setPollFd cfg 0 cfg.socketFd with pc := .top }
  | noMemory : s.pc = .start → StepCase cfg s (.malloc false) { s with pc := .done }
  | poll (res : PollResult) (revents : Nat → BitVec 16) : s.pc = .top →
      StepCase cfg s (.poll res revents) (onPoll cfg s res revents)
  | acceptFails : s.pc = .accepting →
      StepCase cfg s (.accept none) { s.useFd cfg 0 with pc := .scan 0 }
  | accept (fd : Fd) : s.pc = .accepting → fd < 2 ^ 31 → ¬ s.isOpen cfg fd →
      StepCase cfg s (.accept (some fd)) { onAccept cfg (s.useFd cfg 0) fd with pc := .scan 0 }
  | noClient : s.pc = .accepting → StepCase cfg s .next { s.useFd cfg 0 with pc := .scan 0 }
  | skip (i : Nat) : s.pc = .scan i → i < s.numConnections → s.ready (sizeAdd i 1) = false →
      StepCase cfg s .next { s.useFd cfg (sizeAdd i 1) with pc := .scan (sizeAdd i 1) }
  | scanned (i : Nat) : s.pc = .scan i → s.numConnections ≤ i →
      StepCase cfg s .next { s with pc := .top }
  | closeNext (i : Nat) : s.pc = .closing i → i < s.numConnections → StepCase cfg s .next
      { (s.useConnection cfg i).close (s.connections i) with pc := .closing (sizeAdd i 1) }
  | closeOwn (i : Nat) : s.pc = .closing i → s.numConnections ≤ i →
      StepCase cfg s .next { s with closed := s.closed ++ cfg.own, pc := .destroyed }
  | read (i : Nat) (r : ReadResult) : s.pc = .scan i → i < s.numConnections →
      s.ready (sizeAdd i 1) = true → r.fits = true →
      StepCase cfg s (.read r) (onRead cfg (s.useFd cfg (sizeAdd i 1)) i r)
  | exit : s.pc = .top → StepCase cfg s .exit { s with pc := .done }
  | destroy : StepCase cfg s .destroy { s with running := false, destroying := true }
  | join : s.pc = .done → StepCase cfg s .join { s with pc := .closing 0 }

theorem next_cases {cfg : Config} {s t : Server} (h : step cfg s .next = some t) :
    StepCase cfg s .next t := by
  simp only [step] at h
  split at h
  · rename_i hpc
    split at h <;> cases h
    exact .noClient hpc
  · rename_i i hpc
    split at h
    · rename_i hi
      split at h
      · cases h
      · rename_i hr
        cases h
        exact .skip i hpc hi (Bool.not_eq_true _ ▸ hr)
    · rename_i hi
      cases h
      exact .scanned i hpc (Nat.le_of_not_lt hi)
  · rename_i i hpc
    split at h
    · rename_i hi
      cases h
      exact .closeNext i hpc hi
    · rename_i hi
      cases h
      exact .closeOwn i hpc (Nat.le_of_not_lt hi)
  · cases h

theorem step_cases {cfg : Config} {s t : Server} {e : Event} (h : step cfg s e = some t) :
    StepCase cfg s e t := by
  cases e with
  | next => exact next_cases h
  | malloc ok =>
    simp only [step] at h
    split at h
    · rename_i hpc
      cases h
      cases ok with
      | true => exact .malloc hpc
      | false => exact .noMemory hpc
    · cases h
  | poll res revents =>
    simp only [step] at h
    split at h
    · rename_i hpc
      cases h
      exact .poll res revents hpc.1
    · cases h
  | accept r =>
    simp only [step] at h
    split at h
    · rename_i hpc
      split at h
      · cases h
        exact .acceptFails hpc.1
      · rename_i fd
        split at h
        · rename_i hfd
          cases h
          exact .accept fd hpc.1 hfd.1 hfd.2
        · cases h
    · cases h
  | read r =>
    simp only [step] at h
    split at h
    · rename_i i hpc
      split at h
      · rename_i hc
        cases h
        exact .read i r hpc hc.1 hc.2.1 hc.2.2
      · cases h
    · cases h
  | exit =>
    simp only [step] at h
    split at h
    · rename_i hpc
      cases h
      exact .exit hpc.1
    · cases h
  | destroy =>
    simp only [step] at h
    split at h <;> cases h
    exact .destroy
  | join =>
    simp only [step] at h
    split at h
    · rename_i hpc
      cases h
      exact .join hpc.1
    · cases h

end CommandServer
end BvexLink
