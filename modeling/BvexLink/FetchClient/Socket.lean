import BvexLink.FetchClient.SendSample
import BvexLink.Trace.Descriptors

/-!
# BvexLink.FetchClient.Socket

`connected_udp_socket` (`socket.c`): the loop over the addresses of the endpoint, with the system
calls it makes and the descriptors of the process. Which calls succeed, and what number a new
descriptor gets, is up to the kernel.

* `connectFirst_fail`, `connectFirst_ok`: one pass of the loop.
* `Failed`: what is so while no address has been connected to.
* `connected_udp_socket_selects`: the first address that works, and every descriptor accounted for.
-/

namespace BvexLink
namespace FetchClient

open Wire Trace.Descriptors

/-! ## The kernel -/

def AF_UNSPEC : Int := 0
def SOCK_DGRAM : Int := 2

structure Hints where
  ai_family : Int
  ai_socktype : Int

/-- A node of the list that `getaddrinfo` makes; `ai_next` is the next one. -/
structure AddrInfo where
  ai_family : Int
  ai_protocol : Int
  ai_addr : Bytes
  ai_addrlen : Nat
  deriving DecidableEq

/-- The `i`-th call of `socket`, and the `connect` after it, succeed or fail as it pleases. -/
structure Kernel where
  /-- The list, or a status other than zero. -/
  getaddrinfo : CString → CString → Hints → Except Int (List AddrInfo)
  socketOk : Nat → Bool
  connectOk : Nat → Bool
  pick : Nat → Table → Nat
  pick_fresh : ∀ i t, pick i t ∉ t.numbers

inductive Syscall where
  /-- `socket(a->ai_family, socktype, a->ai_protocol)` -/
  | socket (a : AddrInfo) (socktype : Int) (result : Int)
  /-- `connect(fd, a->ai_addr, a->ai_addrlen)` -/
  | connect (fd : Int) (a : AddrInfo) (result : Int)
  | close (fd : Int)
  | freeaddrinfo (servinfo : List AddrInfo)
  deriving DecidableEq

structure Process where
  descriptors : Table
  calls : List Syscall

namespace Process

/-- The addresses a socket was asked for, in order. -/
def tried (p : Process) : List AddrInfo :=
  p.calls.filterMap fun
    | .socket a _ _ => some a
    | _ => none

def freed (p : Process) : List (List AddrInfo) :=
  p.calls.filterMap fun
    | .freeaddrinfo servinfo => some servinfo
    | _ => none

def close (p : Process) (fd : Int) : Process :=
  ⟨p.descriptors.close fd, p.calls ++ [.close fd]⟩

def freeaddrinfo (p : Process) (servinfo : List AddrInfo) : Process :=
  { p with calls := p.calls ++ [.freeaddrinfo servinfo] }

end Process

namespace Kernel

variable (k : Kernel)

def socket (p : Process) (a : AddrInfo) : Int × Process :=
  if k.socketOk p.tried.length then
    let fd := k.pick p.tried.length p.descriptors
    (fd, ⟨p.descriptors.opening fd (k.pick_fresh _ _), p.calls ++ [.socket a SOCK_DGRAM fd]⟩)
  else (-1, { p with calls := p.calls ++ [.socket a SOCK_DGRAM (-1)] })

def connect (p : Process) (fd : Int) (a : AddrInfo) : Int × Process :=
  let status := if k.connectOk (p.tried.length - 1) then 0 else -1
  (status, { p with calls := p.calls ++ [.connect fd a status] })

/-! ## The function -/

/-- The loop; the list it ends with is the `p` of the source, `[]` for `NULL`. -/
def connectFirst : List AddrInfo → Int → Process → List AddrInfo × Int × Process
  | [], sockfd, s => ([], sockfd, s)
  | p :: ai_next, _, s =>
    let (sockfd, s) := k.socket s p
    if sockfd = -1 then connectFirst ai_next sockfd s
    else
      let (connect_status, s) := k.connect s sockfd p
      if connect_status = -1 then connectFirst ai_next (-1) (s.close sockfd)
      else (p :: ai_next, sockfd, s)

def hints : Hints := ⟨AF_UNSPEC, SOCK_DGRAM⟩

/-- `connected_udp_socket` -/
def connectedUdpSocket (node service : Option CString) (s : Process) : Int × Process :=
  match node, service with
  | some node, some service =>
    match k.getaddrinfo node service hints with
    | .error _ => (-1, s)
    | .ok servinfo =>
      let (p, sockfd, s) := k.connectFirst servinfo (-1) s
      let s := s.freeaddrinfo servinfo
      if p = [] then (-1, s.close sockfd) else (sockfd, s)
  | _, _ => (-1, s)

/-! ## One pass -/

def succeeds (i : Nat) : Bool := k.socketOk i && k.connectOk i

def opens (n : Nat) : Nat := (List.range n).countP k.socketOk

theorem opens_succ (n : Nat) : k.opens (n + 1) = k.opens n + if k.socketOk n then 1 else 0 := by
  simp [opens, List.range_succ, List.countP_singleton]

/-- After the addresses `done`, none of which was connected to: what was opened since `t` is
closed. -/
structure Failed (t : Table) (done : List AddrInfo) (s : Process) : Prop where
  tried : s.tried = done
  freed : s.freed = []
  descriptors : s.descriptors = t.used (k.opens done.length)

theorem failed_start (t : Table) : k.Failed t [] ⟨t, []⟩ := ⟨rfl, rfl, by simp [opens]⟩

variable {k} {t : Table} {done : List AddrInfo} {s : Process} {a : AddrInfo}

theorem socket_ok (h : k.socketOk s.tried.length = true) (a : AddrInfo) :
    ∃ (fd : Nat) (hfd : fd ∉ s.descriptors.numbers), k.socket s a =
      ((fd : Int), ⟨s.descriptors.opening fd hfd, s.calls ++ [.socket a SOCK_DGRAM fd]⟩) :=
  ⟨_, k.pick_fresh _ _, if_pos h⟩

theorem socket_fail (h : k.socketOk s.tried.length = false) (a : AddrInfo) :
    k.socket s a = (-1, { s with calls := s.calls ++ [.socket a SOCK_DGRAM (-1)] }) := by
  simp [socket, h]

theorem connect_after (s : Process) (d : Table) (a : AddrInfo) (fd : Int) :
    k.connect ⟨d, s.calls ++ [.socket a SOCK_DGRAM fd]⟩ fd a =
      (if k.connectOk s.tried.length then 0 else -1,
        ⟨d, s.calls ++ [.socket a SOCK_DGRAM fd, .connect fd a
          (if k.connectOk s.tried.length then 0 else -1)]⟩) := by
  have hasked : (Process.tried ⟨d, s.calls ++ [.socket a SOCK_DGRAM fd]⟩).length - 1 =
      s.tried.length := by simp [Process.tried]
  simp only [connect, hasked, List.append_assoc]
  rfl

/-- An address that fails costs at most a descriptor that is closed at once. -/
theorem connectFirst_fail (hs : k.Failed t done s) (hfail : k.succeeds done.length = false)
    (a : AddrInfo) (as : List AddrInfo) (sockfd : Int) : ∃ s', k.Failed t (done ++ [a]) s' ∧
      k.connectFirst (a :: as) sockfd s = k.connectFirst as (-1) s' := by
  have hcount := k.opens_succ done.length
  cases hsock : k.socketOk done.length with
  | false =>
    refine ⟨{ s with calls := s.calls ++ [.socket a SOCK_DGRAM (-1)] }, ⟨?_, ?_, ?_⟩, ?_⟩
    · simp [Process.tried, ← hs.tried]
    · simpa [Process.freed] using hs.freed
    · simp [hs.descriptors, hcount, hsock]
    · rw [← hs.tried] at hsock
      simp [connectFirst, socket_fail hsock]
  | true =>
    have hconn : k.connectOk s.tried.length = false := by
      rw [hs.tried]
      simpa [succeeds, hsock] using hfail
    obtain ⟨fd, hfd, hsocket⟩ := socket_ok (by rw [hs.tried]; exact hsock) a
    refine ⟨⟨(s.descriptors.opening fd hfd).close fd,
      s.calls ++ [.socket a SOCK_DGRAM fd, .connect fd a (-1), .close fd]⟩, ⟨?_, ?_, ?_⟩, ?_⟩
    · simp [Process.tried, ← hs.tried]
    · simpa [Process.freed] using hs.freed
    · simp [Table.close_opened, hs.descriptors, Table.used_used, hcount, hsock]
    · have hne : (fd : Int) ≠ -1 := by omega
      simp [connectFirst, hsocket, hne, connect_after, hconn, Process.close]

/-- An address that works ends the loop with a descriptor that is open. -/
theorem connectFirst_ok (hs : k.Failed t done s) (hok : k.succeeds done.length = true)
    (a : AddrInfo) (as : List AddrInfo) (sockfd : Int) :
    ∃ (fd : Nat) (hfd : fd ∉ s.descriptors.numbers), k.connectFirst (a :: as) sockfd s =
      (a :: as, (fd : Int), ⟨s.descriptors.opening fd hfd,
        s.calls ++ [.socket a SOCK_DGRAM fd, .connect fd a 0]⟩) := by
  rw [succeeds, Bool.and_eq_true, ← hs.tried] at hok
  obtain ⟨fd, hfd, hsocket⟩ := socket_ok hok.1 a
  have hne : (fd : Int) ≠ -1 := by omega
  exact ⟨fd, hfd, by simp [connectFirst, hsocket, hne, connect_after, hok.2]⟩

/-! ## The loop -/

theorem connectFirst_skip (hs : k.Failed t done s) (pre rest : List AddrInfo)
    (hfail : ∀ j < pre.length, k.succeeds (done.length + j) = false) :
    ∃ s', k.Failed t (done ++ pre) s' ∧
      k.connectFirst (pre ++ rest) (-1) s = k.connectFirst rest (-1) s' := by
  induction pre generalizing done s with
  | nil => exact ⟨s, by simpa using hs, rfl⟩
  | cons a pre ih =>
    obtain ⟨s₁, hs₁, hpass⟩ := connectFirst_fail hs (hfail 0 (by simp)) a (pre ++ rest) (-1)
    obtain ⟨s', hs', hrest⟩ := ih hs₁ fun j hj => by
      have := hfail (j + 1) (by simpa using hj)
      rw [List.length_append, List.length_singleton, Nat.add_assoc, Nat.add_comm 1]
      exact this
    refine ⟨s', by simpa using hs', ?_⟩
    rw [List.cons_append, hpass, hrest]

/-! ## The whole function -/

/-- The list there is for an endpoint, if any. -/
def addresses (k : Kernel) (node service : Option CString) : Option (List AddrInfo) :=
  match node, service with
  | some node, some service => (k.getaddrinfo node service hints).toOption
  | _, _ => none

theorem connectedUdpSocket_none {node service : Option CString}
    (h : k.addresses node service = none) (s : Process) :
    k.connectedUdpSocket node service s = (-1, s) := by
  cases node <;> cases service <;> try rfl
  rename_i node service
  rw [addresses] at h
  rw [connectedUdpSocket]
  cases hlist : k.getaddrinfo node service hints with
  | error _ => rfl
  | ok _ =>
    rw [hlist] at h
    cases h

theorem connectedUdpSocket_some {node service : Option CString} {servinfo : List AddrInfo}
    (h : k.addresses node service = some servinfo) (s : Process) :
    k.connectedUdpSocket node service s =
      if (k.connectFirst servinfo (-1) s).1 = [] then
        (-1, ((k.connectFirst servinfo (-1) s).2.2.freeaddrinfo servinfo).close
          (k.connectFirst servinfo (-1) s).2.1)
      else ((k.connectFirst servinfo (-1) s).2.1,
        (k.connectFirst servinfo (-1) s).2.2.freeaddrinfo servinfo) := by
  cases node <;> cases service <;> try cases h
  rename_i node service
  rw [addresses] at h
  rw [connectedUdpSocket]
  cases hlist : k.getaddrinfo node service hints with
  | error _ =>
    rw [hlist] at h
    cases h
  | ok _ =>
    rw [hlist] at h
    cases h
    rfl

variable {node service : Option CString} {servinfo : List AddrInfo}

theorem connectedUdpSocket_fails (h : k.addresses node service = some servinfo) (t : Table)
    (hfail : ∀ i < servinfo.length, k.succeeds i = false) :
    ∃ s, k.connectedUdpSocket node service ⟨t, []⟩ = (-1, s) ∧ s.tried = servinfo ∧
      s.freed = [servinfo] ∧ s.descriptors = t.used (k.opens servinfo.length) := by
  obtain ⟨s, hs, hloop⟩ := connectFirst_skip (k.failed_start t) servinfo []
    fun j hj => by simpa using hfail j hj
  rw [List.append_nil, connectFirst] at hloop
  refine ⟨(s.freeaddrinfo servinfo).close (-1), ?_, ?_, ?_, ?_⟩
  · rw [connectedUdpSocket_some h, hloop]
    rfl
  · simpa [Process.tried, Process.close, Process.freeaddrinfo] using hs.tried
  · simpa [Process.freed, Process.close, Process.freeaddrinfo] using hs.freed
  · exact (Table.close_neg _ (by decide)).trans hs.descriptors

theorem connectedUdpSocket_connects (h : k.addresses node service = some servinfo) (t : Table)
    {i : Nat} (hi : i < servinfo.length) (hok : k.succeeds i = true)
    (hfirst : ∀ j < i, k.succeeds j = false) :
    ∃ (fd : Nat) (hfd : fd ∉ (t.used (k.opens i)).numbers) (s : Process) (calls : List Syscall),
      k.connectedUdpSocket node service ⟨t, []⟩ = ((fd : Int), s) ∧
      s.tried = servinfo.take (i + 1) ∧ s.freed = [servinfo] ∧
      s.calls = calls ++ [.socket servinfo[i] SOCK_DGRAM fd, .connect fd servinfo[i] 0,
        .freeaddrinfo servinfo] ∧
      s.descriptors = (t.used (k.opens i)).opening fd hfd := by
  have hlen : (servinfo.take i).length = i := by
    rw [List.length_take]
    omega
  obtain ⟨s, hs, hloop⟩ := connectFirst_skip (k.failed_start t) (servinfo.take i) (servinfo.drop i)
    fun j hj => by simpa using hfirst j (by omega)
  rw [List.take_append_drop, List.drop_eq_getElem_cons hi] at hloop
  rw [List.nil_append] at hs
  obtain ⟨fd, hfd, hlast⟩ := connectFirst_ok hs (by rw [hlen]; exact hok) servinfo[i]
    (servinfo.drop (i + 1)) (-1)
  obtain ⟨d, calls⟩ := s
  have hd : d = t.used (k.opens i) := by
    rw [← hlen]
    exact hs.descriptors
  subst hd
  have hrun : k.connectedUdpSocket node service ⟨t, []⟩ =
      ((fd : Int), ⟨(t.used (k.opens i)).opening fd hfd,
        calls ++ [.socket servinfo[i] SOCK_DGRAM fd, .connect fd servinfo[i] 0,
          .freeaddrinfo servinfo]⟩) := by
    rw [connectedUdpSocket_some h, hloop, hlast, if_neg (List.cons_ne_nil _ _)]
    simp [Process.freeaddrinfo]
  refine ⟨fd, hfd, _, calls, hrun, ?_, ?_, rfl, rfl⟩
  · have htried : (Process.tried ⟨t.used (k.opens i), calls⟩) = servinfo.take i := hs.tried
    rw [List.take_succ_eq_append_getElem hi, ← htried]
    simp [Process.tried]
  · have hfreed : (Process.freed ⟨t.used (k.opens i), calls⟩) = [] := hs.freed
    simpa [Process.freed] using hfreed

/-- The descriptor returned is that of the first address for which both calls succeed, and no
later address is tried; `-1` is returned exactly if there is none. Either way every other
descriptor that was opened has been closed once, none that was open before has been, and the list
has been freed once. Without a list nothing happens. -/
theorem connected_udp_socket_selects (k : Kernel) (node service : Option CString) (t : Table) :
    let r := k.connectedUdpSocket node service ⟨t, []⟩
    (k.addresses node service = none → r = (-1, ⟨t, []⟩)) ∧
    ∀ servinfo, k.addresses node service = some servinfo →
      r.2.freed = [servinfo] ∧
      (r.1 = -1 ↔ ∀ i < servinfo.length, k.succeeds i = false) ∧
      (r.1 = -1 → r.2.tried = servinfo ∧ t.Settled r.2.descriptors []) ∧
      ∀ i (hi : i < servinfo.length), k.succeeds i = true → (∀ j < i, k.succeeds j = false) →
        ∃ (fd : Nat) (calls : List Syscall), r.1 = fd ∧
          r.2.tried = servinfo.take (i + 1) ∧
          r.2.calls = calls ++ [.socket servinfo[i] SOCK_DGRAM fd, .connect fd servinfo[i] 0,
            .freeaddrinfo servinfo] ∧
          t.Settled r.2.descriptors [(fd, t.opened + k.opens i)] := by
  intro r
  refine ⟨fun h => connectedUdpSocket_none h _, fun servinfo h => ?_⟩
  by_cases hfail : ∀ i < servinfo.length, k.succeeds i = false
  · obtain ⟨s, hr, htried, hfreed, hd⟩ := connectedUdpSocket_fails h t hfail
    have hr : r = (-1, s) := hr
    rw [hr]
    refine ⟨hfreed, iff_of_true rfl hfail, fun _ => ⟨htried, ?_⟩, fun i hi hok => ?_⟩
    · rw [hd]
      exact Table.settled_used t _
    · rw [hfail i hi] at hok
      cases hok
  · have hex : ∃ i, i < servinfo.length ∧ k.succeeds i = true := by
      simpa using hfail
    obtain ⟨hi, hok⟩ := Nat.find_spec hex
    have hfirst : ∀ j < Nat.find hex, k.succeeds j = false := fun j hj => by
      have := Nat.find_min hex hj
      simpa [show j < servinfo.length by omega] using this
    obtain ⟨fd, hfd, s, calls, hr, htried, hfreed, hcalls, hd⟩ :=
      connectedUdpSocket_connects h t hi hok hfirst
    have hr : r = ((fd : Int), s) := hr
    have hne : (fd : Int) ≠ -1 := by omega
    rw [hr]
    refine ⟨hfreed, iff_of_false hne hfail, fun h => absurd h hne, fun i hi' hok' hfirst' => ?_⟩
    have hii : i = Nat.find hex := by
      refine Nat.le_antisymm ?_ (Nat.find_min' hex ⟨hi', hok'⟩)
      by_contra hlt
      have := hfirst' _ (Nat.not_le.mp hlt)
      rw [hok] at this
      cases this
    subst hii
    refine ⟨fd, calls, rfl, htried, hcalls, ?_⟩
    rw [hd]
    exact Table.settled_opening t _ hfd

/-! ## An instance -/

/-- Two addresses of one host; the connection to the first is refused. -/
def secondWorks : Kernel where
  getaddrinfo _ _ _ := .ok [⟨10, 17, [0, 0, 31, 144], 28⟩, ⟨2, 17, [31, 144], 16⟩]
  socketOk _ := true
  connectOk i := i == 1
  pick _ t := t.numbers.sum + 1
  pick_fresh _ _ h := Nat.not_succ_le_self _ (List.le_sum_of_mem h)

/-- Standard input, output and error. -/
def standardStreams : Table := ⟨[(0, 0), (1, 1), (2, 2)], 3, [], by decide, by decide⟩

theorem second_address_selected :
    let r := secondWorks.connectedUdpSocket (some ⟨[104], by decide⟩) (some ⟨[56], by decide⟩)
      ⟨standardStreams, []⟩
    ∃ fd : Nat, r.1 = fd ∧ r.2.tried.length = 2 ∧
      standardStreams.Settled r.2.descriptors [(fd, 4)] := by
  intro r
  obtain ⟨_, hlist⟩ := connected_udp_socket_selects secondWorks (some ⟨[104], by decide⟩)
    (some ⟨[56], by decide⟩) standardStreams
  obtain ⟨_, _, _, hfirst⟩ := hlist _ rfl
  obtain ⟨fd, calls, hr, htried, _, hsettled⟩ := hfirst 1 (by simp) (by decide) (by decide)
  exact ⟨fd, hr, by rw [htried]; rfl, hsettled⟩

end Kernel
end FetchClient
end BvexLink
