import BvexLink.CommandServer.Thread

/-!
# BvexLink.CommandServer.Table

The connection table and who owns which descriptor, over every run of the thread and the
destruction of the server.

* `inv_step`, `inv_steps`: the invariant.
* `inside_steps`: no index leaves its allocation, if the sizes of the two allocations do not wrap.
* `table_correct`: the invariant as a user of the server sees it.
-/

namespace BvexLink
namespace CommandServer

/-- The descriptors the program still has to close. -/
def Server.held (cfg : Config) (s : Server) : List Fd :=
  match s.pc with
  | .closing i => cfg.own ++ s.table.drop i
  | .destroyed => []
  | _ => cfg.own ++ s.table

structure Inv (cfg : Config) (s : Server) : Prop where
  size : s.numConnections ≤ cfg.maxConnections
  nodup : (cfg.own ++ s.table).Nodup
  small : ∀ fd ∈ s.table, fd < 2 ^ 31
  owned : (cfg.own ++ s.accepted).Perm (s.closed ++ s.held cfg)
  index : ∀ i, s.pc = .scan i ∨ s.pc = .closing i → i ≤ s.numConnections

/-- The parts of the state the invariant is about. -/
structure Keeps (s t : Server) : Prop where
  numConnections : t.numConnections = s.numConnections
  connections : t.connections = s.connections
  accepted : t.accepted = s.accepted
  closed : t.closed = s.closed

theorem Keeps.table {s t : Server} (h : Keeps s t) : t.table = s.table :=
  table_congr h.numConnections h.connections

/-- The thread runs or has returned; the server is not being taken down. -/
def Pc.live : Pc → Bool
  | .closing _ => false
  | .destroyed => false
  | _ => true

theorem held_live {cfg : Config} {s : Server} (h : s.pc.live = true) :
    s.held cfg = cfg.own ++ s.table := by
  unfold Server.held
  cases hp : s.pc <;> simp_all [Pc.live]

theorem held_closing {cfg : Config} {s : Server} {i : Nat} (h : s.pc = .closing i) :
    s.held cfg = cfg.own ++ s.table.drop i := by
  rw [Server.held, h]

theorem table_drop {s : Server} {i : Nat} (h : i < s.numConnections) :
    s.table.drop i = s.connections i :: s.table.drop (i + 1) := by
  have hget : s.table[i]? = some (s.connections i) := by rw [table_getElem?, if_pos h]
  obtain ⟨hl, he⟩ := List.getElem?_eq_some_iff.mp hget
  rw [List.drop_eq_getElem_cons hl, he]

theorem Inv.keeps {cfg : Config} {s t : Server} (hi : Inv cfg s) (hk : Keeps s t)
    (hh : t.held cfg = s.held cfg)
    (hx : ∀ i, t.pc = .scan i ∨ t.pc = .closing i → i ≤ s.numConnections) : Inv cfg t where
  size := by rw [hk.numConnections]; exact hi.size
  nodup := by rw [hk.table]; exact hi.nodup
  small := by rw [hk.table]; exact hi.small
  owned := by rw [hk.accepted, hk.closed, hh]; exact hi.owned
  index := by rw [hk.numConnections]; exact hx

theorem Inv.keeps_live {cfg : Config} {s t : Server} (hi : Inv cfg s) (hk : Keeps s t)
    (hs : s.pc.live = true) (ht : t.pc.live = true)
    (hx : ∀ i, t.pc = .scan i ∨ t.pc = .closing i → i ≤ s.numConnections) : Inv cfg t := by
  refine hi.keeps hk ?_ hx
  rw [held_live hs, held_live ht, hk.table]

/-- Descriptors are distinct numbers of type `int`, so there are few. -/
theorem Inv.few {cfg : Config} {s : Server} (hi : Inv cfg s) : s.numConnections ≤ 2 ^ 31 := by
  have hsub : s.table ⊆ List.range (2 ^ 31) := fun fd hfd => List.mem_range.mpr (hi.small fd hfd)
  have := ((List.nodup_append.mp hi.nodup).2.1.subperm hsub).length_le
  simpa using this

theorem inv_start (cfg : Config) (connections pollFd : Nat → Fd) (revents : Nat → BitVec 16) :
    Inv cfg (.start connections pollFd revents) where
  size := Nat.zero_le _
  nodup := cfg.own_nodup
  small := nofun
  owned := .refl _
  index := by rintro i (h | h) <;> cases h

theorem Inv.not_held {cfg : Config} {s : Server} (hi : Inv cfg s) {fd : Fd}
    (h : ¬ s.isOpen cfg fd) : fd ∉ s.held cfg := by
  have hc := hi.owned.count_eq fd
  rw [@List.count_append _ _ _ s.closed] at hc
  unfold Server.isOpen at h
  exact List.count_eq_zero.mp (by omega)

theorem Inv.store {cfg : Config} {s t : Server} {fd : Fd} (hi : Inv cfg s)
    (hs : s.pc.live = true) (ht : t.pc.live = true) (hfd : fd < 2 ^ 31)
    (ho : ¬ s.isOpen cfg fd) (hsize : t.numConnections ≤ cfg.maxConnections)
    (htab : t.table = s.table ++ [fd]) (hacc : t.accepted = s.accepted ++ [fd])
    (hcl : t.closed = s.closed)
    (hx : ∀ i, t.pc = .scan i ∨ t.pc = .closing i → i ≤ t.numConnections) : Inv cfg t := by
  have hnew := hi.not_held ho
  have howned := hi.owned
  rw [held_live hs] at hnew howned
  refine ⟨hsize, ?_, ?_, ?_, hx⟩
  · rw [htab, ← List.append_assoc, List.nodup_append]
    refine ⟨hi.nodup, List.nodup_singleton fd, ?_⟩
    rintro a ha b hb rfl
    rw [List.mem_singleton] at hb
    exact hnew (hb ▸ ha)
  · rw [htab]
    intro x hx
    rcases List.mem_append.mp hx with hx | hx
    · exact hi.small x hx
    · rw [List.mem_singleton.mp hx]; exact hfd
  · rw [held_live ht, htab, hacc, hcl, ← List.append_assoc, ← List.append_assoc cfg.own,
      ← List.append_assoc s.closed]
    exact howned.append_right [fd]

theorem Inv.reject {cfg : Config} {s t : Server} {fd : Fd} (hi : Inv cfg s)
    (hs : s.pc.live = true) (ht : t.pc.live = true)
    (hn : t.numConnections = s.numConnections) (hc : t.connections = s.connections)
    (hacc : t.accepted = s.accepted ++ [fd]) (hcl : t.closed = s.closed ++ [fd])
    (hx : ∀ i, t.pc = .scan i ∨ t.pc = .closing i → i ≤ t.numConnections) : Inv cfg t := by
  have htab := table_congr hn hc
  have howned := hi.owned
  rw [held_live hs] at howned
  refine ⟨hn ▸ hi.size, htab ▸ hi.nodup, htab ▸ hi.small, ?_, hx⟩
  rw [held_live ht, htab, hacc, hcl, ← List.append_assoc, List.append_assoc s.closed]
  refine (howned.append_right [fd]).trans ?_
  rw [List.append_assoc]
  exact List.perm_append_comm.append_left _

theorem Inv.remove {cfg : Config} {s t : Server} {i : Nat} (hi : Inv cfg s)
    (hs : s.pc.live = true) (ht : t.pc.live = true) (hlt : i < s.numConnections)
    (hn : t.numConnections = s.numConnections - 1) (htab : t.table = s.table.eraseIdx i)
    (hacc : t.accepted = s.accepted) (hcl : t.closed = s.closed ++ [s.connections i])
    (hx : ∀ i, t.pc = .scan i ∨ t.pc = .closing i → i ≤ t.numConnections) : Inv cfg t := by
  have hmem : s.table.Perm (s.connections i :: s.table.eraseIdx i) := by
    have hget : s.table[i]? = some (s.connections i) := by rw [table_getElem?, if_pos hlt]
    obtain ⟨h, he⟩ := List.getElem?_eq_some_iff.mp hget
    rw [← he]
    exact (List.getElem_cons_eraseIdx_perm h).symm
  have howned := hi.owned
  have hsize := hi.size
  rw [held_live hs] at howned
  refine ⟨by omega, ?_, ?_, ?_, hx⟩
  · rw [htab]
    exact hi.nodup.sublist ((List.Sublist.refl _).append (List.eraseIdx_sublist _ _))
  · rw [htab]
    exact fun fd hfd => hi.small fd (List.mem_of_mem_eraseIdx hfd)
  · rw [held_live ht, htab, hacc, hcl, List.append_assoc s.closed]
    refine howned.trans (List.Perm.append_left _ ?_)
    exact (hmem.append_left cfg.own).trans List.perm_middle

theorem Inv.closeNext {cfg : Config} {s t : Server} {i : Nat} (hi : Inv cfg s)
    (hs : s.pc = .closing i) (ht : t.pc = .closing (i + 1)) (hlt : i < s.numConnections)
    (hn : t.numConnections = s.numConnections) (hc : t.connections = s.connections)
    (hacc : t.accepted = s.accepted) (hcl : t.closed = s.closed ++ [s.connections i]) :
    Inv cfg t := by
  have htab := table_congr hn hc
  have howned := hi.owned
  rw [held_closing hs, table_drop hlt] at howned
  refine ⟨hn ▸ hi.size, htab ▸ hi.nodup, htab ▸ hi.small, ?_, ?_⟩
  · rw [held_closing ht, htab, hacc, hcl, List.append_assoc s.closed]
    exact howned.trans (List.Perm.append_left _ List.perm_middle)
  · rw [ht, hn]
    rintro j (h | h) <;> cases h
    exact hlt

theorem Inv.closeOwn {cfg : Config} {s t : Server} {i : Nat} (hi : Inv cfg s)
    (hs : s.pc = .closing i) (ht : t.pc = .destroyed) (hge : ¬ i < s.numConnections)
    (hn : t.numConnections = s.numConnections) (hc : t.connections = s.connections)
    (hacc : t.accepted = s.accepted) (hcl : t.closed = s.closed ++ cfg.own) : Inv cfg t := by
  have htab := table_congr hn hc
  have howned := hi.owned
  rw [held_closing hs, List.drop_eq_nil_of_le (by simpa using hge), List.append_nil] at howned
  refine ⟨hn ▸ hi.size, htab ▸ hi.nodup, htab ▸ hi.small, ?_, ?_⟩
  · rw [Server.held, ht, hacc, hcl, List.append_nil]
    exact howned
  · rw [ht]
    rintro j (h | h) <;> cases h

theorem inv_onAccept {cfg : Config} {s : Server} {fd : Fd} (hi : Inv cfg s)
    (hpc : s.pc = .accepting) (hfd : fd < 2 ^ 31) (ho : ¬ s.isOpen cfg fd) :
    Inv cfg { onAccept cfg s fd with pc := .scan 0 } := by
  have hlive : s.pc.live = true := by rw [hpc]; rfl
  have hx (n : Nat) (i : Nat) (h : Pc.scan 0 = .scan i ∨ Pc.scan 0 = .closing i) : i ≤ n := by
    rcases h with h | h <;> cases h
    exact Nat.zero_le n
  by_cases hroom : s.numConnections < cfg.maxConnections
  · rw [onAccept_store fd hroom]
    exact hi.store hlive rfl hfd ho hroom (table_store rfl rfl) rfl rfl (hx _)
  · rw [onAccept_reject fd hroom]
    exact hi.reject hlive rfl rfl rfl rfl rfl (hx _)

theorem inv_onRead {cfg : Config} {s : Server} {i : Nat} (hi : Inv cfg s)
    (hpc : s.pc = .scan i) (hlt : i < s.numConnections) (r : ReadResult) :
    Inv cfg (onRead cfg s i r) := by
  have hfew := hi.few
  have hlive : s.pc.live = true := by rw [hpc]; rfl
  cases hr : r.closes with
  | false =>
    cases r with
    | data d =>
      rw [onRead_data cfg s d (by omega)]
      refine hi.keeps_live ⟨rfl, rfl, rfl, rfl⟩ hlive rfl ?_
      rintro j (h | h) <;> cases h
      omega
    | eof => cases hr
    | error => cases hr
  | true =>
    rw [onRead_closes cfg hr hlt hfew]
    refine hi.remove hlive rfl hlt rfl (table_remove hlt rfl fun _ => rfl) rfl rfl ?_
    rintro j (h | h) <;> cases h
    show i ≤ s.numConnections - 1
    omega

theorem inv_step {cfg : Config} {s t : Server} {e : Event} (hi : Inv cfg s)
    (h : step cfg s e = some t) : Inv cfg t := by
  have hfew := hi.few
  have hkeep {u : Server} {p : Pc} (hk : Keeps s u) (hs : s.pc = p) (hp : p.live = true)
      (hu : u.pc.live = true) (hx : ∀ i, u.pc = .scan i → i ≤ s.numConnections) : Inv cfg u := by
    refine hi.keeps_live hk (by rw [hs]; exact hp) hu ?_
    rintro i (hi | hi)
    · exact hx i hi
    · rw [hi] at hu
      cases hu
  cases step_cases h with
  | malloc hpc => exact hkeep ⟨rfl, rfl, rfl, rfl⟩ hpc rfl rfl nofun
  | noMemory hpc => exact hkeep ⟨rfl, rfl, rfl, rfl⟩ hpc rfl rfl nofun
  | poll res revents hpc =>
    rw [onPoll_eq res revents (by omega)]
    cases res <;> exact hkeep ⟨rfl, rfl, rfl, rfl⟩ hpc rfl rfl nofun
  | acceptFails hpc =>
    refine hkeep ⟨rfl, rfl, rfl, rfl⟩ hpc rfl rfl fun i hx => ?_
    cases hx
    exact Nat.zero_le _
  | accept fd hpc hfd ho =>
    have hi' : Inv cfg (s.useFd cfg 0) := hi.keeps ⟨rfl, rfl, rfl, rfl⟩ rfl hi.index
    exact inv_onAccept hi' hpc hfd ho
  | noClient hpc =>
    refine hkeep ⟨rfl, rfl, rfl, rfl⟩ hpc rfl rfl fun i hx => ?_
    cases hx
    exact Nat.zero_le _
  | skip i hpc hlt _ =>
    refine hkeep ⟨rfl, rfl, rfl, rfl⟩ hpc rfl rfl fun j hx => ?_
    cases hx
    rw [sizeAdd_eq (by omega)]
    exact hlt
  | scanned i hpc _ => exact hkeep ⟨rfl, rfl, rfl, rfl⟩ hpc rfl rfl nofun
  | closeNext i hpc hlt =>
    rw [sizeAdd_eq (by omega)]
    exact hi.closeNext hpc rfl hlt rfl rfl rfl rfl
  | closeOwn i hpc hge => exact hi.closeOwn hpc rfl (Nat.not_lt.mpr hge) rfl rfl rfl rfl
  | read i r hpc hlt _ _ =>
    have hi' : Inv cfg (s.useFd cfg (sizeAdd i 1)) := hi.keeps ⟨rfl, rfl, rfl, rfl⟩ rfl hi.index
    exact inv_onRead hi' hpc hlt r
  | exit hpc => exact hkeep ⟨rfl, rfl, rfl, rfl⟩ hpc rfl rfl nofun
  | destroy => exact hi.keeps ⟨rfl, rfl, rfl, rfl⟩ rfl hi.index
  | join hpc =>
    refine hi.keeps ⟨rfl, rfl, rfl, rfl⟩ ?_ ?_
    · rw [held_live (s := s) (by rw [hpc]; rfl)]
      rfl
    · rintro i (h | h) <;> cases h
      exact Nat.zero_le _

theorem inv_steps {cfg : Config} {connections pollFd : Nat → Fd} {revents : Nat → BitVec 16}
    {es : List Event} {s : Server} (h : Steps cfg (.start connections pollFd revents) es s) :
    Inv cfg s :=
  h.invariant (inv_start cfg connections pollFd revents) fun _ _ _ hi hs => inv_step hi hs

/-! ## Indices -/

/-- Neither allocation size wraps. -/
structure Config.Fits (cfg : Config) : Prop where
  connections : cfg.maxConnections * Config.sizeofConnection < 2 ^ 64
  fds : (cfg.maxConnections + 1) * Config.sizeofPollfd < 2 ^ 64

theorem connectionInside_iff {cfg : Config} (hf : cfg.Fits) (i : Nat) :
    cfg.connectionInside i = true ↔ i < cfg.maxConnections := by
  have hconn := hf.connections
  rw [Config.sizeofConnection] at hconn
  have hm : sizeMul cfg.maxConnections 20 = cfg.maxConnections * 20 := sizeMul_eq hconn
  simp only [Config.connectionInside, Config.connectionsBytes, Config.sizeofConnection, hm,
    decide_eq_true_eq]
  omega

theorem fdInside_iff {cfg : Config} (hf : cfg.Fits) (i : Nat) :
    cfg.fdInside i = true ↔ i ≤ cfg.maxConnections := by
  have hfds := hf.fds
  rw [Config.sizeofPollfd] at hfds
  have hone : sizeAdd cfg.maxConnections 1 = cfg.maxConnections + 1 := sizeAdd_eq (by omega)
  have hm : sizeMul (cfg.maxConnections + 1) 8 = (cfg.maxConnections + 1) * 8 := sizeMul_eq hfds
  simp only [Config.fdInside, Config.fdsBytes, Config.sizeofPollfd, hone, hm, decide_eq_true_eq]
  omega

theorem inside_onAccept {cfg : Config} (hf : cfg.Fits) {s : Server} (fd : Fd)
    (hs : s.inside = true) : (onAccept cfg s fd).inside = true := by
  by_cases hroom : s.numConnections < cfg.maxConnections
  · rw [onAccept_store fd hroom]
    simp only [Server.useConnection, hs, Bool.true_and]
    exact (connectionInside_iff hf _).mpr hroom
  · rw [onAccept_reject fd hroom]
    exact hs

theorem inside_onRead {cfg : Config} (hf : cfg.Fits) {s : Server} {i : Nat} (hi : Inv cfg s)
    (hlt : i < s.numConnections) (hs : s.inside = true) (r : ReadResult) :
    (onRead cfg s i r).inside = true := by
  have hfew := hi.few
  have hsize := hi.size
  have huse := (connectionInside_iff hf i).mpr (by omega)
  cases hr : r.closes with
  | false =>
    cases r with
    | data d =>
      rw [onRead_data cfg s d (by omega)]
      simp only [Server.useConnection, hs, huse, Bool.and_self]
    | eof => cases hr
    | error => cases hr
  | true =>
    have hlast := (connectionInside_iff hf (i + (s.numConnections - i - 1))).mpr (by omega)
    rw [onRead_closes cfg hr hlt hfew]
    simp only [Server.moveDown, Server.useConnection, hs, huse, hlast, Bool.or_true,
      Bool.and_self]

theorem inside_step {cfg : Config} (hf : cfg.Fits) {s t : Server} {e : Event} (hi : Inv cfg s)
    (hs : s.inside = true) (h : step cfg s e = some t) : t.inside = true := by
  have hfew := hi.few
  have hsize := hi.size
  have hfd (i : Nat) (h : i ≤ cfg.maxConnections) : (s.useFd cfg i).inside = true := by
    simp only [Server.useFd, hs, Bool.true_and]
    exact (fdInside_iff hf i).mpr h
  cases step_cases h with
  | malloc _ => exact hfd 0 (Nat.zero_le _)
  | noMemory _ => exact hs
  | poll res revents _ =>
    rw [onPoll_eq res revents (by omega)]
    refine setupFds_inside cfg (by omega) (by omega) hs fun k hk => ⟨?_, ?_⟩
    · exact (connectionInside_iff hf _).mpr (by omega)
    · exact (fdInside_iff hf _).mpr (by omega)
  | acceptFails _ => exact hfd 0 (Nat.zero_le _)
  | accept fd _ _ _ => exact inside_onAccept hf fd (hfd 0 (Nat.zero_le _))
  | noClient _ => exact hfd 0 (Nat.zero_le _)
  | skip i _ hlt _ => exact hfd _ (by rw [sizeAdd_eq (by omega)]; omega)
  | scanned i _ _ => exact hs
  | closeNext i _ hlt =>
    simp only [Server.close, Server.useConnection, hs, Bool.true_and]
    exact (connectionInside_iff hf _).mpr (by omega)
  | closeOwn i _ _ => exact hs
  | read i r _ hlt _ _ =>
    have hi' : Inv cfg (s.useFd cfg (sizeAdd i 1)) := hi.keeps ⟨rfl, rfl, rfl, rfl⟩ rfl hi.index
    exact inside_onRead hf hi' hlt (hfd _ (by rw [sizeAdd_eq (by omega)]; omega)) r
  | exit _ => exact hs
  | destroy => exact hs
  | join _ => exact hs

theorem inside_steps {cfg : Config} (hf : cfg.Fits) {connections pollFd : Nat → Fd}
    {revents : Nat → BitVec 16} {es : List Event} {s : Server}
    (h : Steps cfg (.start connections pollFd revents) es s) : s.inside = true := by
  have key : Inv cfg s ∧ s.inside = true :=
    h.invariant (I := fun s => Inv cfg s ∧ s.inside = true)
      ⟨inv_start cfg connections pollFd revents, rfl⟩
      fun _ _ _ hi hs => ⟨inv_step hi.1 hs, inside_step hf hi.1 hi.2 hs⟩
  exact key.2

/-! ## The table as its user sees it -/

/-- The table holds exactly the connections accepted and not yet closed, each once, and within
bounds. No descriptor is closed that is not open, and in the end all are closed. -/
structure TableCorrect (cfg : Config) (s : Server) : Prop where
  size : s.numConnections ≤ cfg.maxConnections
  inside : s.inside = true
  distinct : s.table.Nodup
  owned : s.pc.live = true → ∀ fd, fd ∈ s.table ↔ s.closed.count fd < s.accepted.count fd
  once : ∀ fd, s.closed.count fd ≤ (cfg.own ++ s.accepted).count fd ∧
    (cfg.own ++ s.accepted).count fd ≤ s.closed.count fd + 1
  destroyed : s.pc = .destroyed → ∀ fd, s.closed.count fd = (cfg.own ++ s.accepted).count fd

theorem Inv.held_nodup {cfg : Config} {s : Server} (hi : Inv cfg s) : (s.held cfg).Nodup := by
  cases hpc : s.pc with
  | closing i =>
    rw [held_closing hpc]
    exact hi.nodup.sublist ((List.Sublist.refl _).append (List.drop_sublist _ _))
  | destroyed => rw [Server.held, hpc]; exact List.nodup_nil
  | _ => rw [held_live (by rw [hpc]; rfl)]; exact hi.nodup

theorem table_correct {cfg : Config} (hf : cfg.Fits) {connections pollFd : Nat → Fd}
    {revents : Nat → BitVec 16} {es : List Event} {s : Server}
    (h : Steps cfg (.start connections pollFd revents) es s) : TableCorrect cfg s := by
  have hi := inv_steps h
  have hcount (fd : Fd) := hi.owned.count_eq fd
  simp only [List.count_append] at hcount
  refine ⟨hi.size, inside_steps hf h, (List.nodup_append.mp hi.nodup).2.1, ?_, ?_, ?_⟩
  · intro hlive fd
    have hc := hcount fd
    rw [held_live hlive, List.count_append] at hc
    rw [← List.count_pos_iff]
    omega
  · intro fd
    have hc := hcount fd
    have hone := List.nodup_iff_count_le_one.mp hi.held_nodup fd
    rw [List.count_append]
    omega
  · intro hpc fd
    have hc := hcount fd
    rw [Server.held, hpc, List.count_nil] at hc
    rw [List.count_append]
    omega

/-- A server with room for two connections. -/
def twoConnections : Config := ⟨2, by decide, 3, 4, 5, by decide⟩

/-- The listening socket is ready, nothing else. -/
def onlyServer (k : Nat) : BitVec 16 := if k = 0 then POLLIN else 0#16

/-- One client connects, then the server is destroyed. -/
def connectAndDestroy : List Event :=
  [.malloc true, .poll .ok onlyServer, .accept (some 6), .next, .next, .destroy, .exit, .join,
    .next, .next]

theorem table_correct_run : ∃ s, Trace.exec (step twoConnections)
    (.start (fun _ => 0) (fun _ => 0) fun _ => 0#16) connectAndDestroy = some s ∧
    TableCorrect twoConnections s := by
  have hrun : ∃ s, Trace.exec (step twoConnections)
      (.start (fun _ => 0) (fun _ => 0) fun _ => 0#16) connectAndDestroy = some s := ⟨_, rfl⟩
  obtain ⟨s, hs⟩ := hrun
  exact ⟨s, hs, table_correct ⟨by decide, by decide⟩ (Trace.run_of_exec hs)⟩

end CommandServer
end BvexLink
