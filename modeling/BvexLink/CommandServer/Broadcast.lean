import BvexLink.CommandServer.Lifetime

/-!
# BvexLink.CommandServer.Broadcast

`command_server_broadcast` while the server's thread runs. The call reads the number of connections
and one connection in each pass of its loop; between two passes the thread may accept connections
and remove them. The steps of the two are taken one at a time, so each read sees what was written
last.

* `table_step`: what a step of the thread does to the table.
* `inv_server`, `inv_write`, `inv_done`: what each kind of step keeps.
* `broadcast_delivers`: what every client has been sent, over every run.
-/

namespace BvexLink
namespace CommandServer

/-! ## The call -/

/-- A call under way: the index of the loop, `success`, and what its writes returned. -/
structure BroadcastCall where
  message : List UInt8
  i : Nat
  success : Bool
  writes : List (Fd × Int)

/-- A call that has returned, and the table at that time. -/
structure Broadcast where
  message : List UInt8
  result : Int
  writes : List (Fd × Int)
  table : List Fd

/-- `joined` is how many calls had returned when a connection was accepted, `stream` what has been
written to it. -/
structure Console where
  server : Server
  call : Option BroadcastCall
  log : List Broadcast
  joined : Fd → Nat
  stream : Fd → List UInt8

inductive ConsoleEvent where
  | server (e : Event)
  | broadcast (message : List UInt8)
  | write (result : Int)
  | done

/-- The server is taken down only between two calls. -/
def Event.destroys : Event → Bool
  | .destroy => true
  | .join => true
  | _ => false

namespace Console

def start (connections pollFd : Nat → Fd) (revents : Nat → BitVec 16) : Console where
  server := .start connections pollFd revents
  call := none
  log := []
  joined _ := 0
  stream _ := []

def onAccept (s : Console) : Event → Console
  | .accept (some fd) => { s with
      joined := Function.update s.joined fd s.log.length
      stream := Function.update s.stream fd [] }
  | _ => s

def BroadcastCall.result (c : BroadcastCall) : Int := if c.success then 0 else -1

def step (cfg : Config) (s : Console) : ConsoleEvent → Option Console
  | .server e =>
    if s.call.isSome = true ∧ e.destroys = true then none
    else (CommandServer.step cfg s.server e).map fun t => { s.onAccept e with server := t }
  | .broadcast message =>
    if s.call.isSome = true ∨ s.server.destroying = true then none
    else some { s with call := some ⟨message, 0, true, []⟩ }
  | .write result =>
    match s.call with
    | some c =>
      if c.i < s.server.numConnections ∧ -1 ≤ result ∧ result ≤ c.message.length then
        let fd := s.server.connections c.i
        some { s with
          call := some {
            message := c.message
            i := sizeAdd c.i 1
            success := if result = c.message.length then c.success else false
            writes := c.writes ++ [(fd, result)] }
          stream := Function.update s.stream fd (s.stream fd ++ c.message.take result.toNat) }
      else none
    | none => none
  | .done =>
    match s.call with
    | some c =>
      if c.i < s.server.numConnections then none
      else some { s with
        call := none
        log := s.log ++ [⟨c.message, BroadcastCall.result c, c.writes, s.server.table⟩] }
    | none => none

/-- No connection that the call under way has already passed is removed. -/
def Undisturbed (s : Console) : ConsoleEvent → Prop
  | .server (.read r) => ∀ c k, s.call = some c → s.server.pc = .scan k → r.closes = true → c.i ≤ k
  | _ => True

end Console

/-! ## The table -/

/-- What a step of the thread does to the table. -/
inductive TableStep (s t : Server) : Event → Prop where
  | keeps {e : Event} : (∀ fd, e ≠ .accept (some fd)) → t.table = s.table → TableStep s t e
  | stores (fd : Fd) : t.table = s.table ++ [fd] → TableStep s t (.accept (some fd))
  | rejects (fd : Fd) : fd ∉ s.table → t.table = s.table → TableStep s t (.accept (some fd))
  | removes (k : Nat) (r : ReadResult) : s.pc = .scan k → k < s.numConnections →
      r.closes = true → t.table = s.table.eraseIdx k → TableStep s t (.read r)

theorem table_step {cfg : Config} {s t : Server} {e : Event} (hi : Inv cfg s)
    (h : step cfg s e = some t) : TableStep s t e := by
  have hfew := hi.few
  cases step_cases h with
  | accept fd hpc _ hopen =>
    by_cases hroom : s.numConnections < cfg.maxConnections
    · rw [onAccept_store (s := s.useFd cfg 0) fd hroom]
      exact .stores fd (table_store rfl rfl)
    · rw [onAccept_reject (s := s.useFd cfg 0) fd hroom]
      refine .rejects fd (fun hmem => hi.not_held hopen ?_) rfl
      rw [held_live (by rw [hpc]; rfl)]
      exact List.mem_append_right _ hmem
  | poll res revents _ =>
    rw [onPoll_eq res revents (by omega)]
    exact .keeps (by simp) rfl
  | read k r hpc hlt _ _ =>
    cases hr : r.closes with
    | false =>
      cases r with
      | data d =>
        rw [onRead_data cfg (s.useFd cfg (sizeAdd k 1)) d (by omega)]
        exact .keeps (by simp) rfl
      | eof => cases hr
      | error => cases hr
    | true =>
      rw [onRead_closes cfg (s := s.useFd cfg (sizeAdd k 1)) hr hlt hfew]
      exact .removes k r hpc hlt hr (table_remove hlt rfl fun _ => rfl)
  | _ => exact .keeps (by simp) rfl

/-! ## The invariant -/

/-- What a client got of a message, and what the call returned. -/
def Piece (p : List UInt8) (x : List UInt8 × Int) : Prop := p <+: x.1 ∧ (x.2 = 0 → p = x.1)

/-- Every connection there was written to, once, and the result says whether all of it was taken. -/
structure Broadcast.Right (b : Broadcast) : Prop where
  writes : b.writes.map (·.1) = b.table
  once : b.table.Nodup
  result : b.result = if ∀ w ∈ b.writes, w.2 = b.message.length then 0 else -1

/-- The same, for the connections the call has passed. -/
structure BroadcastCall.Right (c : BroadcastCall) (s : Server) : Prop where
  index : c.i ≤ s.numConnections
  writes : c.writes.map (·.1) = s.table.take c.i
  success : c.success = decide (∀ w ∈ c.writes, w.2 = c.message.length)

namespace Console

/-- The message of the call under way, at a connection that the call has passed. -/
def current (s : Console) (k : Nat) : List (List UInt8 × Int) :=
  match s.call with
  | some c => if k < c.i then [(c.message, BroadcastCall.result c)] else []
  | none => []

def since (s : Console) (fd : Fd) : List Broadcast := s.log.drop (s.joined fd)

structure Streamed (s : Console) (k : Nat) (fd : Fd) : Prop where
  joined : s.joined fd ≤ s.log.length
  pieces : ∃ ps, s.stream fd = ps.flatten ∧
    List.Forall₂ Piece ps ((s.since fd).map (fun b => (b.message, b.result)) ++ s.current k)

structure Inv (cfg : Config) (s : Console) : Prop where
  server : CommandServer.Inv cfg s.server
  call : ∀ c, s.call = some c → c.Right s.server
  log : ∀ b ∈ s.log, b.Right
  streamed : ∀ k fd, s.server.table[k]? = some fd → s.Streamed k fd

theorem inv_start (cfg : Config) (connections pollFd : Nat → Fd) (revents : Nat → BitVec 16) :
    Inv cfg (start connections pollFd revents) where
  server := CommandServer.inv_start cfg connections pollFd revents
  call := nofun
  log := nofun
  streamed := nofun

section Step

variable {cfg : Config} {s t : Console}

theorem current_none (h : s.call = none) (k : Nat) : s.current k = [] := by
  rw [current, h]

theorem current_ge {c : BroadcastCall} (h : s.call = some c) {k : Nat} (hk : c.i ≤ k) :
    s.current k = [] := by
  simp only [current, h]
  exact if_neg (Nat.not_lt.mpr hk)

theorem current_lt {c : BroadcastCall} (h : s.call = some c) {k : Nat} (hk : k < c.i) :
    s.current k = [(c.message, BroadcastCall.result c)] := by
  simp only [current, h]
  exact if_pos hk

theorem table_nodup {s : Server} (hi : CommandServer.Inv cfg s) : s.table.Nodup :=
  (List.nodup_append.mp hi.nodup).2.1

theorem Streamed.congr {k k' : Nat} {fd : Fd} (h : s.Streamed k fd) (hlog : t.log = s.log)
    (hj : t.joined fd = s.joined fd) (hs : t.stream fd = s.stream fd)
    (hc : t.current k' = s.current k) : t.Streamed k' fd := by
  obtain ⟨hjoined, ps, hstream, hps⟩ := h
  refine ⟨by rw [hj, hlog]; exact hjoined, ps, by rw [hs, hstream], ?_⟩
  rw [since, hlog, hj, hc]
  exact hps

theorem inv_keeps (hi : Inv cfg s) {u : Server} (hu : CommandServer.Inv cfg u)
    (ht : u.table = s.server.table) : Inv cfg { s with server := u } := by
  have hn : u.numConnections = s.server.numConnections := by
    rw [← table_length, ht, table_length]
  refine ⟨hu, fun c hc => ?_, hi.log, fun k fd hk => ?_⟩
  · obtain ⟨hindex, hwrites, hsuccess⟩ := hi.call c hc
    exact ⟨hn ▸ hindex, by rw [hwrites, ht], hsuccess⟩
  · rw [ht] at hk
    exact (hi.streamed k fd hk).congr rfl rfl rfl rfl

theorem inv_rejects (hi : Inv cfg s) {u : Server} (hu : CommandServer.Inv cfg u) {fd : Fd}
    (hnew : fd ∉ s.server.table) (ht : u.table = s.server.table) :
    Inv cfg { s.onAccept (.accept (some fd)) with server := u } := by
  have hkept := inv_keeps hi hu ht
  refine ⟨hu, hkept.call, hi.log, fun k fd' hk => ?_⟩
  have hne : fd' ≠ fd := by
    rintro rfl
    rw [← ht] at hnew
    exact hnew (List.mem_of_getElem? hk)
  exact (hkept.streamed k fd' hk).congr rfl (Function.update_of_ne hne ..)
    (Function.update_of_ne hne ..) rfl

theorem inv_stores (hi : Inv cfg s) {u : Server} (hu : CommandServer.Inv cfg u) {fd : Fd}
    (ht : u.table = s.server.table ++ [fd]) :
    Inv cfg { s.onAccept (.accept (some fd)) with server := u } := by
  have hn : u.numConnections = s.server.numConnections + 1 := by
    rw [← table_length, ht, List.length_append, table_length, List.length_singleton]
  have hnodup := table_nodup hu
  rw [ht] at hnodup
  have hnew : fd ∉ s.server.table := fun hmem =>
    (List.nodup_append.mp hnodup).2.2 fd hmem fd (List.mem_singleton_self fd) rfl
  refine ⟨hu, fun c hc => ?_, hi.log, fun k fd' hk => ?_⟩
  · obtain ⟨hindex, hwrites, hsuccess⟩ := hi.call c hc
    refine ⟨by rw [hn]; omega, ?_, hsuccess⟩
    have hlen : c.i ≤ s.server.table.length := by rwa [table_length]
    rw [hwrites, ht, List.take_append_of_le_length hlen]
  · rw [ht] at hk
    by_cases hlt : k < s.server.table.length
    · rw [List.getElem?_append_left hlt] at hk
      have hne : fd' ≠ fd := by
        rintro rfl
        exact hnew (List.mem_of_getElem? hk)
      exact (hi.streamed k fd' hk).congr rfl (Function.update_of_ne hne ..)
        (Function.update_of_ne hne ..) rfl
    · rw [List.getElem?_append_right (Nat.le_of_not_lt hlt)] at hk
      have hk0 : fd' = fd := by
        have hmem := List.mem_of_getElem? hk
        exact List.mem_singleton.mp hmem
      subst hk0
      have hcur : s.current k = [] := by
        cases hc : s.call with
        | none => exact current_none hc k
        | some c =>
          have hindex := (hi.call c hc).index
          rw [table_length] at hlt
          exact current_ge hc (by omega)
      refine ⟨?_, [], ?_, ?_⟩
      · show Function.update s.joined fd' s.log.length fd' ≤ s.log.length
        rw [Function.update_self]
      · show Function.update s.stream fd' [] fd' = _
        rw [Function.update_self]
        rfl
      · show List.Forall₂ Piece [] (((s.log.drop (Function.update s.joined fd' s.log.length fd')).map
          fun b => (b.message, b.result)) ++ s.current k)
        rw [Function.update_self, List.drop_length, hcur]
        exact .nil

theorem inv_removes (hi : Inv cfg s) {u : Server} (hu : CommandServer.Inv cfg u) {j : Nat}
    (hj : j < s.server.numConnections) (ht : u.table = s.server.table.eraseIdx j)
    (hpassed : ∀ c, s.call = some c → c.i ≤ j) : Inv cfg { s with server := u } := by
  have hn : u.numConnections = s.server.numConnections - 1 := by
    rw [← table_length, ht, List.length_eraseIdx, table_length, if_pos hj]
  refine ⟨hu, fun c hc => ?_, hi.log, fun k fd hk => ?_⟩
  · obtain ⟨hindex, hwrites, hsuccess⟩ := hi.call c hc
    have hle := hpassed c hc
    refine ⟨by rw [hn]; omega, ?_, hsuccess⟩
    rw [hwrites, ht, List.take_eraseIdx_eq_take_of_le _ _ _ hle]
  · rw [ht, List.getElem?_eraseIdx] at hk
    split at hk
    · exact (hi.streamed k fd hk).congr rfl rfl rfl rfl
    · rename_i hkj
      refine (hi.streamed (k + 1) fd hk).congr rfl rfl rfl ?_
      show s.current k = s.current (k + 1)
      cases hc : s.call with
      | none => rw [current_none hc, current_none hc]
      | some c =>
        have hle := hpassed c hc
        rw [current_ge hc (by omega), current_ge hc (by omega)]

theorem onAccept_eq {e : Event} (h : ∀ fd, e ≠ .accept (some fd)) : s.onAccept e = s := by
  unfold onAccept
  split
  · rename_i fd
    exact absurd rfl (h fd)
  · rfl

theorem inv_server (hi : Inv cfg s) {e : Event} (hm : s.Undisturbed (.server e)) {u : Server}
    (hu : CommandServer.step cfg s.server e = some u) :
    Inv cfg { s.onAccept e with server := u } := by
  have hinv := inv_step hi.server hu
  cases table_step hi.server hu with
  | keeps hne ht =>
    rw [onAccept_eq hne]
    exact inv_keeps hi hinv ht
  | stores fd ht => exact inv_stores hi hinv ht
  | rejects fd hnew ht => exact inv_rejects hi hinv hnew ht
  | removes k r hpc hk hr ht =>
    exact inv_removes hi hinv hk ht fun c hc => hm c k hc hpc hr

theorem inv_broadcast (hi : Inv cfg s) (hc : s.call = none) (message : List UInt8) :
    Inv cfg { s with call := some ⟨message, 0, true, []⟩ } := by
  refine ⟨hi.server, fun c h => ?_, hi.log, fun k fd hk => ?_⟩
  · cases h
    exact ⟨Nat.zero_le _, rfl, by simp⟩
  · refine (hi.streamed k fd hk).congr rfl rfl rfl ?_
    rw [current_none hc, current_ge rfl (Nat.zero_le k)]

theorem piece_take (message : List UInt8) {result : Int} {success : Bool}
    (h : result ≤ message.length) : Piece (message.take result.toNat)
      (message, if (if result = message.length then success else false) then 0 else -1) := by
  refine ⟨List.take_prefix .., fun hzero => ?_⟩
  split at hzero
  · rename_i hfull
    subst hfull
    simp
  · cases hzero

/-- A result that is no better says no more of what a client got. -/
theorem pieces_weaken {ps : List (List UInt8)} {xs : List (List UInt8 × Int)}
    {message : List UInt8} {r r' : Int} (hr : r' = 0 → r = 0)
    (h : List.Forall₂ Piece ps (xs ++ [(message, r)])) :
    List.Forall₂ Piece ps (xs ++ [(message, r')]) := by
  induction xs generalizing ps with
  | nil =>
    cases h with
    | cons hp hnil => exact .cons ⟨hp.1, fun hzero => hp.2 (hr hzero)⟩ hnil
  | cons x xs ih =>
    cases h with
    | cons hp hrest => exact .cons hp (ih hrest)

theorem inv_write (hi : Inv cfg s) {result : Int}
    (h : step cfg s (.write result) = some t) : Inv cfg t := by
  simp only [step] at h
  split at h
  · rename_i c hc
    split at h
    · rename_i hcond
      obtain ⟨hlt, hlow, hhigh⟩ := hcond
      cases h
      obtain ⟨hindex, hwrites, hsuccess⟩ := hi.call c hc
      have hfew := hi.server.few
      have hget : s.server.table[c.i]? = some (s.server.connections c.i) := by
        rw [table_getElem?, if_pos hlt]
      have hnext : sizeAdd c.i 1 = c.i + 1 := sizeAdd_eq (by omega)
      refine ⟨hi.server, fun c' hc' => ?_, hi.log, fun k fd hk => ?_⟩
      · cases hc'
        refine ⟨by simp only [hnext]; omega, ?_, ?_⟩
        · simp only [hnext, List.map_append, hwrites, List.map_cons, List.map_nil]
          rw [List.take_add_one, hget]
          rfl
        · simp only [hsuccess, List.forall_mem_append, List.forall_mem_singleton]
          split <;> simp_all
      · by_cases hki : k = c.i
        · -- the connection that is written to
          subst hki
          have hfd : fd = s.server.connections c.i := Option.some.inj (hk.symm.trans hget)
          subst hfd
          obtain ⟨hj, ps, hs, hps⟩ := hi.streamed c.i _ hget
          rw [current_ge hc (Nat.le_refl _), List.append_nil] at hps
          refine ⟨hj, ps ++ [c.message.take result.toNat], ?_, ?_⟩
          · show Function.update s.stream _ _ _ = _
            rw [Function.update_self, hs, List.flatten_append, List.flatten_singleton]
          · rw [current_lt rfl (by simp only [hnext]; omega)]
            exact List.rel_append hps (.cons (piece_take c.message hhigh) .nil)
        · have hne : fd ≠ s.server.connections c.i := by
            rintro rfl
            obtain ⟨hkl, hke⟩ := List.getElem?_eq_some_iff.mp hk
            obtain ⟨hil, hie⟩ := List.getElem?_eq_some_iff.mp hget
            exact hki ((table_nodup hi.server).getElem_inj_iff.mp (hke.trans hie.symm))
          obtain ⟨hj, ps, hs, hps⟩ := hi.streamed k fd hk
          refine ⟨hj, ps, ?_, ?_⟩
          · show Function.update s.stream _ _ fd = _
            rw [Function.update_of_ne hne, hs]
          · by_cases hlt' : k < c.i
            · rw [current_lt hc hlt'] at hps
              rw [current_lt rfl (by simp only [hnext]; omega)]
              refine pieces_weaken (fun hzero => ?_) hps
              simp only [BroadcastCall.result] at hzero ⊢
              split at hzero
              · exact hzero
              · cases hzero
            · rw [current_ge hc (by omega)] at hps
              rw [current_ge rfl (by simp only [hnext]; omega)]
              exact hps
    · cases h
  · cases h

theorem inv_done (hi : Inv cfg s) (h : step cfg s .done = some t) : Inv cfg t := by
  simp only [step] at h
  split at h
  · rename_i c hc
    split at h
    · cases h
    · rename_i hge
      cases h
      obtain ⟨hindex, hwrites, hsuccess⟩ := hi.call c hc
      have hall : s.server.table.take c.i = s.server.table :=
        List.take_of_length_le (by rw [table_length]; omega)
      refine ⟨hi.server, nofun, fun b hb => ?_, fun k fd hk => ?_⟩
      · rcases List.mem_append.mp hb with hb | hb
        · exact hi.log b hb
        · rw [List.mem_singleton.mp hb]
          refine ⟨hwrites.trans hall, table_nodup hi.server, ?_⟩
          show (if c.success = true then (0 : Int) else -1) = _
          rw [hsuccess]
          simp only [decide_eq_true_eq]
      · have hlt : k < c.i := by
          obtain ⟨hkl, _⟩ := List.getElem?_eq_some_iff.mp hk
          have hlen : k < s.server.table.length := hkl
          rw [table_length] at hlen
          omega
        obtain ⟨hj, ps, hs, hps⟩ := hi.streamed k fd hk
        rw [current_lt hc hlt] at hps
        refine ⟨?_, ps, hs, ?_⟩
        · show s.joined fd ≤ (s.log ++ [_]).length
          rw [List.length_append]
          omega
        · show List.Forall₂ Piece ps (((s.log ++ [_]).drop (s.joined fd)).map _ ++ _)
          rw [current_none rfl, List.append_nil, List.drop_append_of_le_length hj, List.map_append]
          exact hps
  · cases h

theorem inv_console_step (hi : Inv cfg s) {e : ConsoleEvent} (hm : s.Undisturbed e)
    (h : step cfg s e = some t) : Inv cfg t := by
  cases e with
  | server e =>
    simp only [step] at h
    split at h
    · cases h
    · obtain ⟨u, hu, rfl⟩ := Option.map_eq_some_iff.mp h
      exact inv_server hi hm hu
  | broadcast message =>
    simp only [step] at h
    split at h
    · cases h
    · rename_i hnone
      cases h
      exact inv_broadcast hi (by simpa using (not_or.mp hnone).1) message
  | write result => exact inv_write hi h
  | done => exact inv_done hi h

end Step

/-- The runs in which no call under way has a connection removed that it has passed. -/
abbrev Runs (cfg : Config) : Console → List ConsoleEvent → Console → Prop :=
  Trace.Run (Trace.Given Undisturbed (Trace.ofFn (step cfg)))

/-- What is sent and how it is told, while the thread accepts and removes connections: a call that
returns has written once to each connection that is there then, and it returns 0 exactly if every
write took the whole message. A connection has been sent a part from the front of each message
since it was accepted, in order; of a call that returned 0 it is the whole, so a connection that
has seen no failure has all the messages. -/
theorem broadcast_delivers {cfg : Config} {connections pollFd : Nat → Fd}
    {revents : Nat → BitVec 16} {es : List ConsoleEvent} {s : Console}
    (h : Runs cfg (start connections pollFd revents) es s) :
    (∀ b ∈ s.log, b.writes.map (·.1) = b.table ∧ b.table.Nodup ∧
      (b.result = 0 ↔ ∀ w ∈ b.writes, w.2 = b.message.length) ∧ (b.result = 0 ∨ b.result = -1)) ∧
    (s.call = none → ∀ fd ∈ s.server.table,
      (∃ ps, s.stream fd = ps.flatten ∧ List.Forall₂ (fun p b => p <+: b.message ∧
        (b.result = 0 → p = b.message)) ps (s.since fd)) ∧
      ((∀ b ∈ s.since fd, b.result = 0) →
        s.stream fd = ((s.since fd).map (·.message)).flatten)) := by
  have hi : Inv cfg s := h.invariant (inv_start cfg connections pollFd revents)
    fun _ _ _ hi hs => inv_console_step hi hs.1 hs.2
  refine ⟨fun b hb => ?_, fun hc fd hfd => ?_⟩
  · obtain ⟨hwrites, honce, hresult⟩ := hi.log b hb
    refine ⟨hwrites, honce, ?_, ?_⟩
    · rw [hresult]
      split
      · rename_i hfull
        exact iff_of_true rfl hfull
      · rename_i hfull
        exact iff_of_false (by simp) hfull
    · rw [hresult]
      split <;> simp
  · obtain ⟨k, hk⟩ := List.mem_iff_getElem?.mp hfd
    obtain ⟨_, ps, hs, hps⟩ := hi.streamed k fd hk
    rw [current_none hc, List.append_nil] at hps
    have hpieces := List.forall₂_map_right_iff.mp hps
    refine ⟨⟨ps, hs, hpieces⟩, fun hall => ?_⟩
    rw [hs]
    congr 1
    generalize s.since fd = bs at hpieces hall
    clear hs hps
    induction hpieces with
    | nil => rfl
    | cons hp _ ih =>
      rw [List.map_cons, hp.2 (hall _ (List.mem_cons_self ..)),
        ih fun b hb => hall b (List.mem_cons_of_mem _ hb)]

/-- A client connects; while the first message is sent to it a second one connects, and takes only
a part of the second message. -/
def twoMessages : List ConsoleEvent :=
  [.server (.malloc true), .server (.poll .ok onlyServer), .server (.accept (some 6)),
    .broadcast [104, 105], .write 2, .server .next, .server .next,
    .server (.poll .ok onlyServer), .server (.accept (some 7)), .write 2, .done,
    .broadcast [33, 33, 33], .write 3, .write 1, .done]

theorem two_messages_sent : ∃ s, Runs twoConnections
    (start (fun _ => 0) (fun _ => 0) fun _ => 0#16) twoMessages s ∧
    (s.log.map fun b => (b.result, b.writes)) = [(0, [(6, 2), (7, 2)]), (-1, [(6, 3), (7, 1)])] ∧
    (∀ fd ∈ s.server.table, ∃ ps, s.stream fd = ps.flatten ∧
      List.Forall₂ (fun p b => p <+: b.message ∧ (b.result = 0 → p = b.message)) ps
        (s.since fd)) := by
  have hexec : ∃ s, Trace.exec (step twoConnections)
      (start (fun _ => 0) (fun _ => 0) fun _ => 0#16) twoMessages = some s ∧ s.call = none ∧
      (s.log.map fun b => (b.result, b.writes)) =
        [(0, [(6, 2), (7, 2)]), (-1, [(6, 3), (7, 1)])] := ⟨_, rfl, rfl, by decide⟩
  obtain ⟨s, hs, hcall, hlog⟩ := hexec
  have hrun : Runs twoConnections (start (fun _ => 0) (fun _ => 0) fun _ => 0#16) twoMessages s :=
    (Trace.run_of_exec hs).given fun e he t => by
      simp only [twoMessages, List.mem_cons, List.not_mem_nil, or_false] at he
      rcases he with rfl | rfl | rfl | rfl | rfl | rfl | rfl | rfl | rfl | rfl | rfl | rfl | rfl |
        rfl | rfl <;> trivial
  exact ⟨s, hrun, hlog, fun fd hfd => ((broadcast_delivers hrun).2 hcall fd hfd).1⟩

end Console

end CommandServer
end BvexLink
