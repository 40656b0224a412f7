import BvexLink.CommandServer.Shutdown

/-!
# BvexLink.CommandServer.Clear

What the thread has still to read and to write before it looks at `running` again.

* `toRead`: the clients it will still read.
* `clear_step`: its steps keep it able to come to the end of the pass.
-/

namespace BvexLink
namespace CommandServer
namespace Shutdown

/-! ## What the thread will still read -/

section ToRead

variable (cfg : Config) (capacity : Nat) (s : Shutdown)

def connected : List Client := s.server.table.map s.clients

/-- The client that `accept` will store. -/
def newcomer : List Client :=
  if s.server.numConnections < cfg.maxConnections ∧ ∃ fd < 2 ^ 31, ¬ s.server.isOpen cfg fd then
    s.waiting.take 1
  else []

/-- The flags in the memory after `poll`: those behind the poll set are old. -/
def flags (k : Nat) : Bool :=
  if k < s.server.numConnections then (s.clients (s.server.connections k)).result.isSome
  else s.server.ready (k + 1)

/-- The clients that the thread still reads in the pass it is in. -/
def toRead : List Client :=
  match s.server.pc with
  | .top =>
    if s.polling then scanReads s.flags Client.closes 0 (s.connected ++ s.newcomer cfg) else []
  | .accepting =>
    scanReads (fun k => s.server.ready (k + 1)) Client.closes 0
      (s.connected ++ if s.server.ready 0 then s.newcomer cfg else [])
  | .scan i => scanReads (fun k => s.server.ready (k + 1)) Client.closes i (s.connected.drop i)
  | _ => []

/-- None of them is silent, and the pipe has room for all that the thread has still to write. -/
structure Clear : Prop where
  answers : ∀ c ∈ s.toRead cfg, c.result ≠ none
  fits : s.pipe.unread.length + ((s.toRead cfg).flatMap Client.commands).flatten.length ≤ capacity

end ToRead

variable {cfg : Config} {capacity : Nat} {s t : Shutdown}

/-! ## What a step of the thread leaves to read -/

theorem scanReads_sublist {α : Type} (ready : Nat → Bool) (closes : α → Bool) (i : Nat)
    (cs ds : List α) :
    (scanReads ready closes i cs).Sublist (scanReads ready closes i (cs ++ ds)) := by
  induction cs generalizing i with
  | nil => exact List.nil_sublist _
  | cons c cs ih =>
    rw [List.cons_append, scanReads, scanReads]
    split
    · exact (ih _).cons_cons c
    · exact ih _

theorem clear_congr (hr : t.toRead cfg = s.toRead cfg)
    (hp : t.pipe.unread.length = s.pipe.unread.length) :
    t.Clear cfg capacity ↔ s.Clear cfg capacity := by
  constructor
  · rintro ⟨ha, hf⟩
    rw [hr] at ha
    rw [hr, hp] at hf
    exact ⟨ha, hf⟩
  · rintro ⟨ha, hf⟩
    rw [← hr] at ha
    rw [← hr, ← hp] at hf
    exact ⟨ha, hf⟩

theorem Clear.sublist (h : s.Clear cfg capacity)
    (hr : (t.toRead cfg).Sublist (s.toRead cfg)) (hp : t.pipe = s.pipe) : t.Clear cfg capacity := by
  refine ⟨fun c hc => h.answers c (hr.subset hc), ?_⟩
  have hle := (hr.flatMap Client.commands).flatten.length_le
  have hfits := h.fits
  rw [hp]
  omega

theorem clear_of_nil (hi : Inv cfg capacity s) (hr : s.toRead cfg = [])
    (hp : s.pipe.pending = []) : s.Clear cfg capacity := by
  refine ⟨by simp [hr], ?_⟩
  rw [hr, Pipe.unread, hp]
  simpa using hi.capacity

theorem clear_read {c : Client} {cs : List Client} (hs : s.toRead cfg = c :: cs)
    (ht : t.toRead cfg = cs) (hc : c.result ≠ none) (hp : s.pipe.pending = [])
    (hpipe : t.pipe = { s.pipe with pending := c.commands }) :
    t.Clear cfg capacity ↔ s.Clear cfg capacity := by
  have hunread : t.pipe.unread.length = s.pipe.unread.length + c.commands.flatten.length := by
    rw [hpipe, Pipe.unread, Pipe.unread, hp]
    simp
  have hlen : ((c :: cs).flatMap Client.commands).flatten.length =
      c.commands.flatten.length + (cs.flatMap Client.commands).flatten.length := by
    rw [List.flatMap_cons, List.flatten_append, List.length_append]
  constructor
  · rintro ⟨ha, hf⟩
    rw [ht] at ha hf
    refine ⟨?_, by rw [hs, hlen]; omega⟩
    rw [hs]
    exact List.forall_mem_cons.mpr ⟨hc, ha⟩
  · rintro ⟨ha, hf⟩
    rw [hs] at ha
    rw [hs, hlen] at hf
    refine ⟨?_, by rw [ht]; omega⟩
    rw [ht]
    exact (List.forall_mem_cons.mp ha).2

theorem toRead_scan {i : Nat} (h : s.server.pc = .scan i) : s.toRead cfg =
    scanReads (fun k => s.server.ready (k + 1)) Client.closes i (s.connected.drop i) := by
  rw [toRead, h]

theorem toRead_accepting (h : s.server.pc = .accepting) : s.toRead cfg =
    scanReads (fun k => s.server.ready (k + 1)) Client.closes 0
      (s.connected ++ if s.server.ready 0 then s.newcomer cfg else []) := by
  rw [toRead, h]

theorem toRead_idle (h : s.server.pc = .top → s.polling = false)
    (hpc : s.server.pc.inPass = false) : s.toRead cfg = [] := by
  rw [toRead]
  split
  · rename_i ht
    rw [h ht]
    rfl
  · rename_i ha
    rw [ha] at hpc
    cases hpc
  · rename_i i hs
    rw [hs] at hpc
    cases hpc
  · rfl

theorem ready_congr {s t : Server} (h : t.revents = s.revents) (k : Nat) : t.ready k = s.ready k := by
  rw [Server.ready, Server.ready, h]

theorem connected_drop {i : Nat} (h : i < s.server.numConnections) : s.connected.drop i =
    s.clients (s.server.connections i) :: s.connected.drop (i + 1) := by
  rw [connected, ← List.map_drop, ← List.map_drop, table_drop h, List.map_cons]

/-- The client of a descriptor that is not looked at may change. -/
theorem map_update {fds : List Fd} {fd : Fd} (h : fd ∉ fds) (clients : Fd → Client) (c : Client) :
    fds.map (Function.update clients fd c) = fds.map clients := by
  refine List.map_congr_left fun x hx => Function.update_of_ne ?_ _ _
  rintro rfl
  exact h hx

/-- What `read` leaves of the table. -/
theorem read_server {s t : Server} {i : Nat} {r : ReadResult} (hi : CommandServer.Inv cfg s)
    (hpc : s.pc = .scan i) (h : CommandServer.step cfg s (.read r) = some t) :
    i < s.numConnections ∧ s.ready (i + 1) = true ∧
      t.pc = .scan (if r.closes then i else i + 1) ∧
      t.numConnections = (if r.closes then s.numConnections - 1 else s.numConnections) ∧
      t.table.drop (if r.closes then i else i + 1) = s.table.drop (i + 1) := by
  have hfew := hi.few
  cases step_cases h with
  | read j r hp hlt hr _ =>
    cases hpc.symm.trans hp
    rw [sizeAdd_eq (by omega)] at hr
    refine ⟨hlt, hr, ?_⟩
    rw [sizeAdd_eq (by omega)]
    cases hcl : r.closes with
    | false =>
      cases r with
      | data d =>
        rw [onRead_data cfg _ d (by omega)]
        exact ⟨rfl, rfl, rfl⟩
      | eof => cases hcl
      | error => cases hcl
    | true =>
      rw [onRead_closes cfg (s := s.useFd cfg (i + 1)) hcl hlt hfew]
      refine ⟨rfl, rfl, ?_⟩
      rw [table_remove hlt rfl fun _ => rfl]
      exact drop_eraseIdx (by rw [table_length]; exact hlt)

theorem clear_step_read (hi : Inv cfg capacity s) (h : step cfg capacity s .read = some t) :
    t.Clear cfg capacity ↔ s.Clear cfg capacity := by
  obtain ⟨i, r, server, hpc, hp, hr, hs, rfl⟩ := read_cases h
  obtain ⟨hlt, hready, hpc', _, htab⟩ := read_server hi.server hpc hs
  have hrev := (poll_frame (by rfl) hs).1
  have hclose : (s.clients (s.server.connections i)).closes = r.closes := by
    rw [Client.closes, hr]
    rfl
  refine clear_read (c := s.clients (s.server.connections i)) ?_ rfl (by simp [hr]) hp rfl
  rw [toRead_scan hpc, connected_drop hlt, scanReads, if_pos hready, hclose, toRead_scan hpc']
  simp only [ready_congr hrev]
  congr 2
  have hnot : s.server.connections i ∉ s.server.table.drop (i + 1) := by
    have hn := (List.nodup_append.mp hi.server.nodup).2.1
    have hd := hn.sublist (List.drop_sublist i _)
    rw [table_drop hlt] at hd
    exact (List.nodup_cons.mp hd).1
  rw [connected, connected, ← List.map_drop, ← List.map_drop]
  show _ = (server.table.drop _).map _
  rw [htab, map_update hnot]

theorem clear_step_write (h : step cfg capacity s .write = some t) :
    t.Clear cfg capacity ↔ s.Clear cfg capacity := by
  obtain ⟨w, ws, hp, _, rfl⟩ := write_cases h
  exact clear_congr rfl (by simp [Pipe.unread, hp])

theorem clear_step_next (hi : Inv cfg capacity s) (h : step cfg capacity s .next = some t) :
    t.Clear cfg capacity ↔ s.Clear cfg capacity := by
  obtain ⟨_, hpass, server, hs, rfl⟩ := next_cases h
  refine clear_congr ?_ rfl
  rcases next_in_pass hi.server hpass hs with
    ⟨hpc, hr, rfl⟩ | ⟨i, hpc, hlt, hr, rfl⟩ | ⟨i, hpc, hge, rfl⟩
  · rw [toRead_scan rfl, toRead_accepting hpc, hr, if_neg Bool.false_ne_true, List.append_nil,
      List.drop_zero]
    rfl
  · rw [toRead_scan rfl, toRead_scan hpc, connected_drop hlt, scanReads, hr,
      if_neg Bool.false_ne_true]
    rfl
  · have hnil : s.connected.drop i = [] := List.drop_eq_nil_of_le (by simpa [connected] using hge)
    have hp : s.polling = false := hi.polling_false (by simp [hpc])
    rw [toRead_scan hpc, hnil]
    exact toRead_idle (fun _ => hp) rfl

theorem newcomer_of_waiting (h : s.waiting = []) : s.newcomer cfg = [] := by
  rw [newcomer, h, List.take_nil, ite_self]

theorem connected_congr (h : Keeps s.server t.server) (hc : t.clients = s.clients) :
    t.connected = s.connected := by
  rw [connected, connected, h.table, hc]

theorem newcomer_congr (h : Keeps s.server t.server) (hw : t.waiting = s.waiting) :
    t.newcomer cfg = s.newcomer cfg := by
  rw [newcomer, newcomer, hw]
  refine if_congr ?_ rfl rfl
  simp only [Server.isOpen, h.numConnections, h.accepted, h.closed]

theorem clear_step_poll (hi : Inv cfg capacity s) {revents : Nat → BitVec 16}
    (hp : s.polling = true) (hr : s.Reports revents) :
    Clear cfg capacity { s with polling := false, server := onPoll cfg s.server .ok revents } ↔
      s.Clear cfg capacity := by
  have hfew := hi.server.few
  have heq : onPoll cfg s.server .ok revents = _ := onPoll_eq .ok revents (by omega)
  generalize onPoll cfg s.server .ok revents = server at heq
  have hkeeps : Keeps s.server server := by
    rw [heq]
    exact ⟨rfl, rfl, rfl, rfl⟩
  have hready (k : Nat) : server.ready k =
      if k < 1 + s.server.numConnections then revents k &&& POLLIN != 0#16 else s.server.ready k := by
    rw [heq, Server.ready]
    dsimp only
    split <;> rfl
  have hflags : (fun k => server.ready (k + 1)) = s.flags := by
    funext k
    rw [hready, flags]
    by_cases hk : k < s.server.numConnections
    · rw [if_pos (by omega), if_pos hk, ← hr.2 k hk]
      rfl
    · rw [if_neg (by omega), if_neg hk]
  have hzero : server.ready 0 = !s.waiting.isEmpty := by
    rw [hready, if_pos (by omega), hr.1]
  refine clear_congr ?_ rfl
  rw [toRead_accepting (by rw [heq]; rfl), toRead, hi.polling hp, hp]
  dsimp only
  have hconn : connected { s with polling := false, server := server } = s.connected :=
    connected_congr hkeeps rfl
  have hnew : newcomer cfg { s with polling := false, server := server } = s.newcomer cfg :=
    newcomer_congr hkeeps rfl
  rw [if_pos rfl, hflags, hconn, hnew]
  congr 2
  rw [hzero]
  cases hw : s.waiting with
  | nil => rw [newcomer_of_waiting hw, ite_self]
  | cons c cs => rfl

theorem accept_server {s t : Server} {fd : Fd} (hi : CommandServer.Inv cfg s)
    (h : CommandServer.step cfg s (.accept (some fd)) = some t) :
    fd < 2 ^ 31 ∧ ¬ s.isOpen cfg fd ∧ fd ∉ s.table ∧ t.pc = .scan 0 ∧
      t.table = s.table ++ if s.numConnections < cfg.maxConnections then [fd] else [] := by
  cases step_cases h with
  | accept fd hpc hlt hopen =>
    have hheld := hi.not_held hopen
    rw [held_live (by rw [hpc]; rfl)] at hheld
    refine ⟨hlt, hopen, fun hm => hheld (List.mem_append_right _ hm), rfl, ?_⟩
    by_cases hroom : s.numConnections < cfg.maxConnections
    · rw [onAccept_store (s := s.useFd cfg 0) fd hroom, if_pos hroom]
      exact table_store rfl rfl
    · rw [onAccept_reject (s := s.useFd cfg 0) fd hroom, if_neg hroom, List.append_nil]
      rfl

theorem accept_count {s t : Server} {r : Option Fd}
    (h : CommandServer.step cfg s (.accept r) = some t) :
    t.numConnections ≤ s.numConnections + 1 := by
  cases step_cases h with
  | acceptFails _ => exact Nat.le_succ _
  | accept fd _ _ _ =>
    by_cases hroom : s.numConnections < cfg.maxConnections
    · rw [onAccept_store (s := s.useFd cfg 0) fd hroom]
      exact Nat.le_refl _
    · rw [onAccept_reject (s := s.useFd cfg 0) fd hroom]
      exact Nat.le_succ _

theorem clear_step_accept (hi : Inv cfg capacity s) {fd : Fd}
    (h : step cfg capacity s (.accept (some fd)) = some t) :
    t.Clear cfg capacity ↔ s.Clear cfg capacity := by
  obtain ⟨c, cs, server, hw, hs, rfl⟩ := accept_some_cases h
  obtain ⟨hpc, hready⟩ := accept_ready hs
  obtain ⟨hlt, hopen, hnot, hpc', htab⟩ := accept_server hi.server hs
  have hrev := (poll_frame (by rfl) hs).1
  refine clear_congr ?_ rfl
  rw [toRead_scan hpc', toRead_accepting hpc, hready, if_pos rfl, List.drop_zero]
  simp only [ready_congr hrev]
  congr 1
  show server.table.map _ = _
  rw [htab, List.map_append, map_update hnot, connected, newcomer, hw]
  congr 1
  by_cases hroom : s.server.numConnections < cfg.maxConnections
  · rw [if_pos hroom, if_pos ⟨hroom, fd, hlt, hopen⟩]
    simp
  · rw [if_neg hroom, if_neg fun hc => hroom hc.1]
    rfl

theorem toRead_acceptFails (h : step cfg capacity s (.accept none) = some t) :
    s.toRead cfg = scanReads (fun k => s.server.ready (k + 1)) Client.closes 0
      (s.connected ++ s.newcomer cfg) ∧
    t.toRead cfg = scanReads (fun k => s.server.ready (k + 1)) Client.closes 0 s.connected ∧
    t.pipe = s.pipe := by
  obtain ⟨server, hs, rfl⟩ := onServer_eq_some.mp h
  obtain ⟨hpc, hready⟩ := accept_ready hs
  cases step_cases hs with
  | acceptFails _ =>
    refine ⟨?_, ?_, rfl⟩
    · rw [toRead_accepting hpc, hready, if_pos rfl]
    · rw [toRead_scan rfl, List.drop_zero]
      rfl

/-- Outside a pass there is nothing left to read. -/
theorem clear_idle (hi : Inv cfg capacity s) (h : s.server.pc = .top → s.polling = false)
    (hpc : s.server.pc.inPass = false) : s.Clear cfg capacity := by
  refine clear_of_nil hi (toRead_idle h hpc) (hi.pending_nil ?_)
  intro i hs
  rw [hs] at hpc
  cases hpc

/-- What no step of the thread adds to once `running` is cleared. -/
theorem clear_step {e : ShutdownEvent} (hi : Inv cfg capacity s) (hrun : s.server.running = false)
    (h : threadStep cfg capacity s e t) (hc : s.Clear cfg capacity) : t.Clear cfg capacity := by
  obtain ⟨hthread, h⟩ := h
  have hi' := inv_step hi h
  cases e with
  | malloc ok =>
    obtain ⟨hpc, server, _, rfl, hpc'⟩ := malloc_cases h
    refine clear_idle hi' (fun _ => hi.polling_false (by simp [hpc])) ?_
    rcases hpc' with hpc' | hpc' <;> rw [hpc'] <;> rfl
  | enterPoll =>
    obtain ⟨_, hrunning, _⟩ := enterPoll_cases h
    rw [hrun] at hrunning
    cases hrunning
  | poll res revents =>
    obtain ⟨hp, hr, rfl⟩ := poll_cases h
    cases res with
    | ok => exact (clear_step_poll hi hp (hr rfl)).mpr hc
    | interrupted => exact clear_idle hi' (fun _ => rfl) rfl
    | failed => exact clear_idle hi' (fun _ => rfl) rfl
  | accept r =>
    cases r with
    | none =>
      obtain ⟨hs, ht, hp⟩ := toRead_acceptFails h
      refine hc.sublist ?_ hp
      rw [hs, ht]
      exact scanReads_sublist _ _ _ _ _
    | some fd => exact (clear_step_accept hi h).mpr hc
  | next => exact (clear_step_next hi h).mpr hc
  | read => exact (clear_step_read hi h).mpr hc
  | write => exact (clear_step_write h).mpr hc
  | exit =>
    obtain ⟨_, hp, server, _, rfl, hpc'⟩ := exit_cases h
    exact clear_idle hi' (fun _ => hp) (by rw [hpc']; rfl)
  | _ => cases hthread

end Shutdown
end CommandServer
end BvexLink
