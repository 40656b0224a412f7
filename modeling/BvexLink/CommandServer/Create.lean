import BvexLink.CommandServer.Table
import BvexLink.Trace.Ownership

/-!
# BvexLink.CommandServer.Create

`command_server_create` of `command_server.c`, with the memory and the descriptors it takes. Which
of its calls succeed, and what numbers and addresses are new, is up to the system.

* `created`: each path through the function.
* `create_exact`: what is kept and what has been given back.
-/

namespace BvexLink
namespace CommandServer

open Trace.Descriptors

/-! ## The system -/

/-- `sizeof(command_server_t)` -/
def sizeofServer : Nat := 56

/-- `mallocOk i n`: the `i`-th `malloc` of the function, of `n` bytes, succeeds. -/
structure System where
  mallocOk : Nat → Nat → Bool
  pipeOk : Bool
  socketOk : Bool
  setsockoptOk : Bool
  bindOk : Nat → Bool
  listenOk : Bool
  block : Table → Nat
  block_fresh : ∀ t, block t ∉ t.numbers
  fd : Table → Nat
  fd_fresh : ∀ t, fd t ∉ t.numbers

/-- A `command_server_t` and its address; `connections` is an address too. -/
structure Handle where
  server : Nat
  socket_fd : Fd
  commands_read_fd : Fd
  commands_write_fd : Fd
  connections : Nat
  num_connections : Nat
  max_connections : Nat
  running : Bool
  port : Nat

namespace Handle

def own (hd : Handle) : List Fd := [hd.socket_fd, hd.commands_read_fd, hd.commands_write_fd]

def blocks (hd : Handle) : List Nat := [hd.connections, hd.server]

end Handle

namespace System

variable (sys : System)

def malloc (i size : Nat) (p : Resources) : Option Nat × Resources :=
  if sys.mallocOk i size then
    (some (sys.block p.heap), p.alloc (sys.block p.heap) (sys.block_fresh p.heap))
  else (none, p)

/-- The two ends, the one for reading first. -/
def pipe (p : Resources) : Option (Fd × Fd) × Resources :=
  if sys.pipeOk then
    let r := sys.fd p.descriptors
    let p := p.opening r (sys.fd_fresh p.descriptors)
    let w := sys.fd p.descriptors
    (some (r, w), p.opening w (sys.fd_fresh p.descriptors))
  else (none, p)

def socket (p : Resources) : Option Fd × Resources :=
  if sys.socketOk then
    (some (sys.fd p.descriptors), p.opening (sys.fd p.descriptors) (sys.fd_fresh p.descriptors))
  else (none, p)

/-- `command_server_create` -/
def commandServerCreate (port max_connections : Nat) (p : Resources) :
    Option Handle × Resources :=
  match sys.malloc 0 sizeofServer p with
  | (none, p) => (none, p)
  | (some server, p) =>
    match sys.malloc 1 (sizeMul max_connections Config.sizeofConnection) p with
    | (none, p) => (none, p.free server)
    | (some connections, p) =>
      match sys.pipe p with
      | (none, p) => (none, (p.free connections).free server)
      | (some (commands_read_fd, commands_write_fd), p) =>
        match sys.socket p with
        | (none, p) =>
          (none, (((p.close commands_read_fd).close commands_write_fd).free connections).free server)
        | (some socket_fd, p) =>
          if sys.setsockoptOk = false then
            (none, ((((p.close socket_fd).close commands_read_fd).close commands_write_fd).free
              connections).free server)
          else if sys.bindOk port = false then
            (none, ((((p.close socket_fd).close commands_read_fd).close commands_write_fd).free
              connections).free server)
          else if sys.listenOk = false then
            (none, ((((p.close socket_fd).close commands_read_fd).close commands_write_fd).free
              connections).free server)
          else
            (some {
              server := server
              socket_fd := socket_fd
              commands_read_fd := commands_read_fd
              commands_write_fd := commands_write_fd
              connections := connections
              num_connections := 0
              max_connections := max_connections
              running := false
              port := port }, p)

/-- No call of the function fails. -/
structure AllOk (port max_connections : Nat) : Prop where
  server : sys.mallocOk 0 sizeofServer = true
  connections : sys.mallocOk 1 (sizeMul max_connections Config.sizeofConnection) = true
  pipe : sys.pipeOk = true
  socket : sys.socketOk = true
  setsockopt : sys.setsockoptOk = true
  bind : sys.bindOk port = true
  listen : sys.listenOk = true

/-! ## Single calls -/

variable {p q : Resources} {fds blocks : List Nat}

theorem malloc_cases (h : Owns p q fds blocks) (i size : Nat) :
    (sys.mallocOk i size = false ∧ sys.malloc i size q = (none, q)) ∨
    ∃ b q', sys.mallocOk i size = true ∧ sys.malloc i size q = (some b, q') ∧
      Owns p q' fds (b :: blocks) := by
  cases hok : sys.mallocOk i size with
  | false => exact .inl ⟨rfl, by simp [malloc, hok]⟩
  | true => exact .inr ⟨_, _, rfl, if_pos hok, h.alloc (sys.block_fresh _)⟩

theorem pipe_cases (h : Owns p q fds blocks) :
    (sys.pipeOk = false ∧ sys.pipe q = (none, q)) ∨
    ∃ r w q', sys.pipeOk = true ∧ sys.pipe q = (some (r, w), q') ∧
      Owns p q' (r :: w :: fds) blocks := by
  cases hok : sys.pipeOk with
  | false => exact .inl ⟨rfl, by simp [pipe, hok]⟩
  | true =>
    have hr := h.opening (sys.fd_fresh q.descriptors)
    have hw := hr.opening (sys.fd_fresh _)
    exact .inr ⟨_, _, _, rfl, if_pos hok, hw.perm (.swap ..) (.refl _)⟩

theorem socket_cases (h : Owns p q fds blocks) :
    (sys.socketOk = false ∧ sys.socket q = (none, q)) ∨
    ∃ fd q', sys.socketOk = true ∧ sys.socket q = (some fd, q') ∧
      Owns p q' (fd :: fds) blocks := by
  cases hok : sys.socketOk with
  | false => exact .inl ⟨rfl, by simp [socket, hok]⟩
  | true => exact .inr ⟨_, _, rfl, if_pos hok, h.opening (sys.fd_fresh _)⟩

/-! ## The function -/

/-- What a call of `command_server_create` comes to. -/
inductive Created (sys : System) (port max_connections : Nat) (p : Resources) :
    Option Handle × Resources → Prop where
  | fails {q : Resources} : ¬ sys.AllOk port max_connections → Owns p q [] [] →
    Created sys port max_connections p (none, q)
  | succeeds {hd : Handle} {q : Resources} : sys.AllOk port max_connections →
    Owns p q hd.own hd.blocks → hd.num_connections = 0 → hd.max_connections = max_connections →
    hd.running = false → hd.port = port → Created sys port max_connections p (some hd, q)

theorem created (sys : System) (port max_connections : Nat) (p : Resources) :
    Created sys port max_connections p (sys.commandServerCreate port max_connections p) := by
  rw [commandServerCreate]
  rcases malloc_cases sys (owns_refl p) 0 sizeofServer with
    ⟨hok, hm⟩ | ⟨sv, p₁, hserver, hm, h₁⟩
  · simp only [hm]
    exact .fails (fun h => by rw [h.server] at hok; cases hok) (owns_refl p)
  rcases malloc_cases sys h₁ 1 (sizeMul max_connections Config.sizeofConnection) with
    ⟨hok, hm'⟩ | ⟨cn, p₂, hconnections, hm', h₂⟩
  · simp only [hm, hm']
    exact .fails (fun h => by rw [h.connections] at hok; cases hok) h₁.free
  rcases pipe_cases sys h₂ with ⟨hok, hp⟩ | ⟨r, w, p₃, hpipe, hp, h₃⟩
  · simp only [hm, hm', hp]
    exact .fails (fun h => by rw [h.pipe] at hok; cases hok) h₂.free.free
  rcases socket_cases sys h₃ with ⟨hok, hs⟩ | ⟨fd, p₄, hsocket, hs, h₄⟩
  · simp only [hm, hm', hp, hs]
    exact .fails (fun h => by rw [h.socket] at hok; cases hok) h₃.close.close.free.free
  simp only [hm, hm', hp, hs]
  have hback := h₄.close.close.close.free.free
  split
  · rename_i hok
    exact .fails (fun h => by rw [h.setsockopt] at hok; cases hok) hback
  rename_i hsetsockopt
  split
  · rename_i hok
    exact .fails (fun h => by rw [h.bind] at hok; cases hok) hback
  rename_i hbind
  split
  · rename_i hok
    exact .fails (fun h => by rw [h.listen] at hok; cases hok) hback
  rename_i hlisten
  refine .succeeds ⟨hserver, hconnections, hpipe, hsocket, ?_, ?_, ?_⟩ h₄ rfl rfl rfl rfl
  · simpa using hsetsockopt
  · simpa using hbind
  · simpa using hlisten

/-- A server is returned exactly if every call succeeds; it has two blocks and three distinct
descriptors, and no connections. On every other path all that was acquired has been given back,
each descriptor and block once, and on none is anything released that was not acquired. -/
theorem create_exact (sys : System) (port max_connections : Nat) (p : Resources) :
    let r := sys.commandServerCreate port max_connections p
    (r.1 = none ↔ ¬ sys.AllOk port max_connections) ∧ r.2.clean = p.clean ∧
    (r.1 = none → Owns p r.2 [] []) ∧
    ∀ hd, r.1 = some hd → Owns p r.2 hd.own hd.blocks ∧ hd.own.Nodup ∧ hd.blocks.Nodup ∧
      hd.num_connections = 0 ∧ hd.max_connections = max_connections ∧ hd.running = false ∧
      hd.port = port := by
  have hr := created sys port max_connections p
  generalize sys.commandServerCreate port max_connections p = r at hr
  cases hr with
  | fails hfail h =>
    exact ⟨iff_of_true rfl hfail, h.clean, fun _ => h, fun hd hhd => by cases hhd⟩
  | succeeds hall h hnum hmax hrun hport =>
    refine ⟨iff_of_false (by simp) (not_not.mpr hall), h.clean, fun hn => (by cases hn), ?_⟩
    intro hd' hhd
    cases hhd
    exact ⟨h, h.descriptors.nodup, h.heap.nodup, hnum, hmax, hrun, hport⟩

end System
end CommandServer
end BvexLink
