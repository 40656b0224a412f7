import BvexLink.CommandServer.Table

/-!
# BvexLink.CommandServer.Pass

Which connections one pass of the thread's loop reads. The loop removes closed connections from
the table while the poll set stays as it was, so from the first removal on a connection is read by
the flag of an earlier one.

* `scanReads`: the loop as a function of the flags and the table; `scan_run` connects it.
* `scanReads_perm_iff`: when it reads exactly the ready connections.
* `pass_reads_iff`: the same for a pass of any run.
-/

namespace BvexLink
namespace CommandServer

section Scan

variable {α : Type} {ready : Nat → Bool} {closes : α → Bool}

/-- The connections read from index `i` on, `cs` being the table from there. One that closes is
removed, so the next one takes its index. -/
def scanReads (ready : Nat → Bool) (closes : α → Bool) : Nat → List α → List α
  | _, [] => []
  | i, c :: cs =>
    if ready i then c :: scanReads ready closes (if closes c then i else i + 1) cs
    else scanReads ready closes (i + 1) cs

/-- The connections whose own flag is set. -/
def readyOf (ready : Nat → Bool) : Nat → List α → List α
  | _, [] => []
  | i, c :: cs => if ready i then c :: readyOf ready (i + 1) cs else readyOf ready (i + 1) cs

theorem readyOf_sublist (i : Nat) (cs : List α) : (readyOf ready i cs).Sublist cs := by
  induction cs generalizing i with
  | nil => exact .slnil
  | cons c cs ih =>
    rw [readyOf]
    split
    · exact (ih (i + 1)).cons_cons c
    · exact (ih (i + 1)).cons c

theorem readyOf_append (i : Nat) (cs ds : List α) :
    readyOf ready i (cs ++ ds) = readyOf ready i cs ++ readyOf ready (i + cs.length) ds := by
  induction cs generalizing i with
  | nil => rfl
  | cons c cs ih =>
    rw [List.cons_append, readyOf, readyOf, ih, List.length_cons,
      show i + 1 + cs.length = i + (cs.length + 1) by omega]
    split <;> rfl

theorem scanReads_append {i : Nat} {cs : List α} (ds : List α)
    (h : ∀ k c, cs[k]? = some c → ready (i + k) = true → closes c = false) :
    scanReads ready closes i (cs ++ ds) =
      readyOf ready i cs ++ scanReads ready closes (i + cs.length) ds := by
  induction cs generalizing i with
  | nil => rfl
  | cons c cs ih =>
    have hcs := @ih (i + 1) fun k d hd hr => h (k + 1) d hd (by
      rwa [show i + (k + 1) = i + 1 + k by omega])
    rw [List.cons_append, scanReads, readyOf, List.length_cons,
      show i + (cs.length + 1) = i + 1 + cs.length by omega]
    split
    · rename_i hr
      rw [h 0 c rfl hr, if_neg (by simp), hcs]
      rfl
    · exact hcs

/-- Behind a removal a set flag is followed by set flags only if every connection is read. -/
theorem scanReads_all {p i : Nat} {cs : List α} (hi : i ≤ p)
    (h : ∀ k, i ≤ k → k < p + cs.length → ready k = true) : scanReads ready closes i cs = cs := by
  induction cs generalizing p i with
  | nil => rfl
  | cons c cs ih =>
    rw [List.length_cons] at h
    rw [scanReads, if_pos (h i (by omega) (by omega))]
    congr 1
    split
    · exact ih (p := p + 1) (by omega) fun k hk hl => h k hk (by omega)
    · exact ih (p := p + 1) (by omega) fun k hk hl => h k (by omega) (by omega)

/-- `post` are the connections behind the removal that were polled, the first one with own flag
`p`, and `i` is the index the loop has got to. -/
theorem ready_of_perm {p i : Nat} {post new : List α} (hi : i < p)
    (hr : ∀ k, i ≤ k → k < p → ready k = true) (hn : (post ++ new).Nodup)
    (h : (scanReads ready closes i (post ++ new)).Perm (readyOf ready p post)) :
    (∀ k, k < post.length → ready (p + k) = true) ∧ new = [] := by
  induction post generalizing p i with
  | nil =>
    refine ⟨nofun, ?_⟩
    cases new with
    | nil => rfl
    | cons c cs =>
      rw [List.nil_append, scanReads, if_pos (hr i (Nat.le_refl i) hi)] at h
      exact absurd h.length_eq (by simp [readyOf])
  | cons c post ih =>
    rw [List.cons_append, scanReads, if_pos (hr i (Nat.le_refl i) hi)] at h
    have hc : ready p = true := by
      by_contra hp
      rw [readyOf, if_neg hp] at h
      -- `c` is read, so it would be among the later connections
      have hmem := (readyOf_sublist (p + 1) post).subset (h.subset (List.mem_cons_self ..))
      exact (List.nodup_cons.mp hn).1 (List.mem_append_left _ hmem)
    rw [readyOf, if_pos hc] at h
    have hstep (k : Nat) (hk : i ≤ k) (hl : k < p + 1) : ready k = true := by
      by_cases hkp : k = p
      · rw [hkp]; exact hc
      · exact hr k hk (by omega)
    have hrest : (∀ k, k < post.length → ready (p + 1 + k) = true) ∧ new = [] := by
      have hperm := h.cons_inv
      split at hperm
      · exact ih (by omega) hstep (List.nodup_cons.mp hn).2 hperm
      · exact ih (by omega) (fun k hk hl => hstep k (by omega) hl) (List.nodup_cons.mp hn).2 hperm
    refine ⟨fun k hk => ?_, hrest.2⟩
    cases k with
    | zero => exact hc
    | succ k =>
      rw [show p + (k + 1) = p + 1 + k by omega]
      exact hrest.1 k (by simpa using hk)

theorem first_closing (ready : Nat → Bool) (closes : α → Bool) (i : Nat) (cs : List α) :
    (∀ k c, cs[k]? = some c → ready (i + k) = true → closes c = false) ∨
      ∃ pre c post, cs = pre ++ c :: post ∧ ready (i + pre.length) = true ∧ closes c = true ∧
        ∀ k d, pre[k]? = some d → ready (i + k) = true → closes d = false := by
  induction cs generalizing i with
  | nil => exact .inl (by simp)
  | cons c cs ih =>
    by_cases hc : ready i = true ∧ closes c = true
    · exact .inr ⟨[], c, cs, rfl, hc.1, hc.2, by simp⟩
    · have hhead (hr : ready i = true) : closes c = false := by
        cases hcl : closes c with
        | true => exact absurd ⟨hr, hcl⟩ hc
        | false => rfl
      rcases ih (i + 1) with hall | ⟨pre, d, post, rfl, hr, hd, hpre⟩
      · refine .inl fun k d hk hr => ?_
        cases k with
        | zero => cases hk; exact hhead hr
        | succ k => exact hall k d hk (by rwa [show i + 1 + k = i + (k + 1) by omega])
      · refine .inr ⟨c :: pre, d, post, rfl, ?_, hd, fun k e hk hr' => ?_⟩
        · rw [List.length_cons, show i + (pre.length + 1) = i + 1 + pre.length by omega]
          exact hr
        · cases k with
          | zero => cases hk; exact hhead hr'
          | succ k => exact hpre k e hk (by rwa [show i + 1 + k = i + (k + 1) by omega])

/-- Flags and connections correspond wherever it matters: no ready connection closes, and a
connection that was not polled finds its flag clear; or behind the first ready connection that
closes all are ready, and none was added. -/
def NoSkew (ready : Nat → Bool) (closes : α → Bool) (polled new : List α) : Prop :=
  ((∀ k c, polled[k]? = some c → ready k = true → closes c = false) ∧
      (new = [] ∨ ready polled.length = false)) ∨
    ∃ pre c post, polled = pre ++ c :: post ∧ ready pre.length = true ∧ closes c = true ∧
      (∀ k d, pre[k]? = some d → ready k = true → closes d = false) ∧
      (∀ k, k < post.length → ready (pre.length + 1 + k) = true) ∧ new = []

theorem scanReads_perm_iff {polled new : List α} (hn : (polled ++ new).Nodup)
    (hnew : new.length ≤ 1) :
    (scanReads ready closes 0 (polled ++ new)).Perm (readyOf ready 0 polled) ↔
      NoSkew ready closes polled new := by
  constructor
  · intro h
    have hfirst := first_closing ready closes 0 polled
    simp only [Nat.zero_add] at hfirst
    rcases hfirst with hall | ⟨pre, c, post, rfl, hr, hc, hpre⟩
    · refine .inl ⟨hall, ?_⟩
      rw [scanReads_append new (by simpa using hall)] at h
      have hl := h.length_eq
      cases new with
      | nil => exact .inl rfl
      | cons d ds =>
        right
        cases hd : ready polled.length with
        | false => rfl
        | true => simp [scanReads, hd] at hl
    · refine .inr ⟨pre, c, post, rfl, hr, hc, hpre, ?_⟩
      rw [List.append_assoc, List.cons_append, scanReads_append _ (by simpa using hpre),
        readyOf_append, scanReads, readyOf, Nat.zero_add, if_pos hr, if_pos hr, if_pos hc] at h
      have hperm := ((List.perm_append_left_iff _).mp h).cons_inv
      rw [List.append_assoc, List.cons_append] at hn
      have hn' := (List.nodup_cons.mp (List.nodup_append.mp hn).2.1).2
      refine ready_of_perm (Nat.lt_succ_self _) (fun k hk hl => ?_) hn' hperm
      rw [show k = pre.length by omega]
      exact hr
  · rintro (⟨hall, hclear⟩ | ⟨pre, c, post, rfl, hr, hc, hpre, hpost, rfl⟩)
    · rw [scanReads_append new (by simpa using hall)]
      have hnil : scanReads ready closes (0 + polled.length) new = [] := by
        rcases hclear with rfl | hclear
        · rfl
        · match new, hnew with
          | [], _ => rfl
          | [d], _ => simp [scanReads, hclear]
      rw [hnil, List.append_nil]
    · rw [List.append_nil, scanReads_append _ (by simpa using hpre), readyOf_append, scanReads,
        readyOf, Nat.zero_add, if_pos hr, if_pos hr, if_pos hc]
      have hscan : scanReads ready closes pre.length post = post := by
        refine scanReads_all (p := pre.length + 1) (by omega) fun k hk hl => ?_
        by_cases hkp : k = pre.length
        · rw [hkp]; exact hr
        · have := hpost (k - (pre.length + 1)) (by omega)
          rwa [show pre.length + 1 + (k - (pre.length + 1)) = k by omega] at this
      have hready : readyOf ready (pre.length + 1) post = post := by
        have := @scanReads_append α ready (fun _ => false) (pre.length + 1) post []
          (fun _ _ _ _ => rfl)
        rw [List.append_nil, scanReads, List.append_nil] at this
        rw [← this]
        exact scanReads_all (p := pre.length + 1) (Nat.le_refl _) fun k hk hl => by
          have := hpost (k - (pre.length + 1)) (by omega)
          rwa [show pre.length + 1 + (k - (pre.length + 1)) = k by omega] at this
      rw [hscan, hready]

end Scan

/-! ## The pass of a run -/

def Event.isPoll : Event → Bool
  | .poll _ _ => true
  | _ => false

def Event.accepted : Event → Option Fd
  | .accept r => r
  | _ => none

/-- Between `poll` and the end of the loop over the connections. -/
def Pc.inPass : Pc → Bool
  | .accepting => true
  | .scan _ => true
  | _ => false

theorem poll_frame {cfg : Config} {s t : Server} {e : Event} (he : e.isPoll = false)
    (h : step cfg s e = some t) : t.revents = s.revents ∧ t.polled = s.polled := by
  cases step_cases h with
  | poll res revents _ => cases he
  | accept fd _ _ _ =>
    by_cases hroom : s.numConnections < cfg.maxConnections
    · rw [onAccept_store (s := s.useFd cfg 0) fd hroom]
      exact ⟨rfl, rfl⟩
    · rw [onAccept_reject (s := s.useFd cfg 0) fd hroom]
      exact ⟨rfl, rfl⟩
  | read i r _ _ _ _ => cases r <;> exact ⟨rfl, rfl⟩
  | _ => exact ⟨rfl, rfl⟩

theorem polled_run {cfg : Config} {s t : Server} {es : List Event} (h : Steps cfg s es t)
    (he : ∀ e ∈ es, e.isPoll = false) : t.polled = s.polled := by
  induction h with
  | nil => rfl
  | cons hst _ ih =>
    rw [ih fun e hm => he e (List.mem_cons_of_mem _ hm)]
    exact (poll_frame (he _ (List.mem_cons_self ..)) hst).2

theorem quiet_step {cfg : Config} {s t : Server} {e : Event} (hs : s.pc.inPass = false)
    (he : e.isPoll = false) (h : step cfg s e = some t) :
    t.pc.inPass = false ∧ t.reads = s.reads ∧ e.accepted = none := by
  have hnot {p : Pc} (hpc : s.pc = p) (hp : p.inPass = true) : False := by
    rw [hpc, hp] at hs
    cases hs
  cases step_cases h with
  | poll res revents _ => cases he
  | acceptFails hpc => exact (hnot hpc rfl).elim
  | accept fd hpc _ _ => exact (hnot hpc rfl).elim
  | noClient hpc => exact (hnot hpc rfl).elim
  | skip i hpc _ _ => exact (hnot hpc rfl).elim
  | scanned i hpc _ => exact (hnot hpc rfl).elim
  | read i r hpc _ _ _ => exact (hnot hpc rfl).elim
  | destroy => exact ⟨hs, rfl, rfl⟩
  | _ => exact ⟨rfl, rfl, rfl⟩

theorem quiet_run {cfg : Config} {s t : Server} {es : List Event} (h : Steps cfg s es t)
    (hs : s.pc.inPass = false) (he : ∀ e ∈ es, e.isPoll = false) :
    t.reads = s.reads ∧ es.filterMap Event.accepted = [] := by
  induction h with
  | nil => exact ⟨rfl, rfl⟩
  | cons hst _ ih =>
    obtain ⟨hpc, hreads, hacc⟩ := quiet_step hs (he _ (List.mem_cons_self ..)) hst
    have hrest := ih hpc fun e hm => he e (List.mem_cons_of_mem _ hm)
    rw [List.filterMap_cons_none hacc, hrest.1, hreads]
    exact ⟨rfl, hrest.2⟩

inductive ScanStep (s : Server) (i : Nat) (t : Server) : Prop where
  | destroy : t.pc = .scan i → t.table = s.table → t.reads = s.reads → ScanStep s i t
  | finish : s.numConnections ≤ i → t.pc = .top → t.reads = s.reads → ScanStep s i t
  | skip : i < s.numConnections → s.ready (i + 1) = false → t.pc = .scan (i + 1) →
      t.table = s.table → t.reads = s.reads → ScanStep s i t
  | read (r : ReadResult) (j : Nat) : i < s.numConnections → s.ready (i + 1) = true →
      j = (if r.closes then i else i + 1) → t.pc = .scan j →
      t.table.drop j = s.table.drop (i + 1) → t.reads = s.reads ++ [(s.connections i, r)] →
      ScanStep s i t

theorem drop_eraseIdx {α : Type} {l : List α} {i : Nat} (h : i < l.length) :
    (l.eraseIdx i).drop i = l.drop (i + 1) := by
  have hlen : (l.take i).length = i := by
    rw [List.length_take]
    omega
  rw [List.eraseIdx_eq_take_drop_succ, List.drop_append_of_le_length (by omega),
    List.drop_eq_nil_of_le (by omega), List.nil_append]

theorem scan_step {cfg : Config} {s t : Server} {e : Event} {i : Nat} (hi : Inv cfg s)
    (hpc : s.pc = .scan i) (he : e.isPoll = false) (h : step cfg s e = some t) :
    e.accepted = none ∧ ScanStep s i t := by
  have hfew := hi.few
  cases step_cases h with
  | poll res revents _ => cases he
  | skip j hp hlt hr =>
    cases hpc.symm.trans hp
    rw [sizeAdd_eq (by omega)] at hr ⊢
    exact ⟨rfl, .skip hlt hr rfl rfl rfl⟩
  | scanned j hp hge =>
    cases hpc.symm.trans hp
    exact ⟨rfl, .finish hge rfl rfl⟩
  | read j r hp hlt hr _ =>
    cases hpc.symm.trans hp
    rw [sizeAdd_eq (by omega)] at hr ⊢
    cases hcl : r.closes with
    | false =>
      cases r with
      | data d =>
        rw [onRead_data cfg _ d (by omega)]
        exact ⟨rfl, .read (.data d) (i + 1) hlt hr rfl rfl rfl rfl⟩
      | eof => cases hcl
      | error => cases hcl
    | true =>
      rw [onRead_closes cfg (s := s.useFd cfg (i + 1)) hcl hlt hfew]
      refine ⟨rfl, .read r i hlt hr (if_pos hcl).symm rfl ?_ rfl⟩
      rw [table_remove hlt rfl fun _ => rfl]
      exact drop_eraseIdx (by rw [table_length]; exact hlt)
  | destroy => exact ⟨rfl, .destroy hpc rfl rfl⟩
  | malloc hp => cases hpc.symm.trans hp
  | noMemory hp => cases hpc.symm.trans hp
  | acceptFails hp => cases hpc.symm.trans hp
  | accept fd hp _ _ => cases hpc.symm.trans hp
  | noClient hp => cases hpc.symm.trans hp
  | closeNext j hp _ => cases hpc.symm.trans hp
  | closeOwn j hp _ => cases hpc.symm.trans hp
  | exit hp => cases hpc.symm.trans hp
  | join hp => cases hpc.symm.trans hp

/-- `read` on each of `rs` returned what `result` says. -/
def Answers (result : Fd → ReadResult) (rs : List (Fd × ReadResult)) : Prop :=
  ∀ x ∈ rs, result x.1 = x.2

theorem Answers.cons {result : Fd → ReadResult} {fd : Fd} {r : ReadResult}
    {rs : List (Fd × ReadResult)} (h : Answers result ((fd, r) :: rs)) :
    result fd = r ∧ Answers result rs :=
  ⟨h (fd, r) (List.mem_cons_self ..), fun x hx => h x (List.mem_cons_of_mem _ hx)⟩

theorem scan_run {cfg : Config} (result : Fd → ReadResult) {s t : Server} {i : Nat}
    {es : List Event} (h : Steps cfg s es t) (hi : Inv cfg s) (hpc : s.pc = .scan i)
    (he : ∀ e ∈ es, e.isPoll = false) (ht : t.pc = .top) :
    es.filterMap Event.accepted = [] ∧ ∃ rs, t.reads = s.reads ++ rs ∧
      (Answers result rs → rs.map Prod.fst = scanReads (fun k => s.ready (k + 1))
        (fun fd => (result fd).closes) i (s.table.drop i)) := by
  induction h generalizing i with
  | nil =>
    rw [hpc] at ht
    cases ht
  | @cons s u t e es hst hrun ih =>
    have hi' := inv_step hi hst
    have he' (x : Event) (hx : x ∈ es) := he x (List.mem_cons_of_mem _ hx)
    obtain ⟨hacc, hstep⟩ := scan_step hi hpc (he e (List.mem_cons_self ..)) hst
    have hrev := (poll_frame (he e (List.mem_cons_self ..)) hst).1
    have hready (k : Nat) : u.ready k = s.ready k := by rw [Server.ready, Server.ready, hrev]
    rw [List.filterMap_cons_none hacc]
    cases hstep with
    | destroy hu htab hreads =>
      have hrest := ih hi' hu he' ht
      simp only [hready, htab, hreads] at hrest
      exact hrest
    | finish hge hu hreads =>
      obtain ⟨hr, hnil⟩ := quiet_run hrun (by rw [hu]; rfl) he'
      refine ⟨hnil, [], by rw [hr, hreads, List.append_nil], fun _ => ?_⟩
      rw [List.drop_eq_nil_of_le (by simpa using hge)]
      rfl
    | skip hlt hr hu htab hreads =>
      have hrest := ih hi' hu he' ht
      simp only [hready, htab, hreads] at hrest
      rw [table_drop hlt, scanReads, hr]
      exact hrest
    | read r j hlt hr hj hu hdrop hreads =>
      obtain ⟨hnil, rs, hrs, hscan⟩ := ih hi' hu he' ht
      simp only [hready, hdrop] at hscan
      refine ⟨hnil, (s.connections i, r) :: rs, by rw [hrs, hreads, List.append_assoc]; rfl, ?_⟩
      intro hans
      obtain ⟨hres, hans⟩ := hans.cons
      rw [table_drop hlt, scanReads, if_pos hr, hres, ← hj, List.map_cons, hscan hans]

def newConnections (cfg : Config) (s : Server) (es : List Event) : List Fd :=
  if s.numConnections < cfg.maxConnections then es.filterMap Event.accepted else []

theorem accept_step {cfg : Config} {s t : Server} {e : Event} (hpc : s.pc = .accepting)
    (he : e.isPoll = false) (h : step cfg s e = some t) : t.reads = s.reads ∧
      ((t.pc = .accepting ∧ t.numConnections = s.numConnections ∧ t.table = s.table ∧
          e.accepted = none) ∨
        (t.pc = .scan 0 ∧ t.table = s.table ++ newConnections cfg s [e])) := by
  have hnone (hacc : e.accepted = none) : s.table = s.table ++ newConnections cfg s [e] := by
    rw [newConnections, List.filterMap_cons_none hacc, List.filterMap_nil, ite_self,
      List.append_nil]
  cases step_cases h with
  | poll res revents _ => cases he
  | acceptFails _ => exact ⟨rfl, .inr ⟨rfl, hnone rfl⟩⟩
  | accept fd _ _ _ =>
    by_cases hroom : s.numConnections < cfg.maxConnections
    · rw [onAccept_store (s := s.useFd cfg 0) fd hroom, newConnections, if_pos hroom]
      exact ⟨rfl, .inr ⟨rfl, table_store rfl rfl⟩⟩
    · rw [onAccept_reject (s := s.useFd cfg 0) fd hroom, newConnections, if_neg hroom,
        List.append_nil]
      exact ⟨rfl, .inr ⟨rfl, rfl⟩⟩
  | noClient _ => exact ⟨rfl, .inr ⟨rfl, hnone rfl⟩⟩
  | destroy => exact ⟨rfl, .inl ⟨hpc, rfl, rfl, rfl⟩⟩
  | malloc hp => cases hpc.symm.trans hp
  | noMemory hp => cases hpc.symm.trans hp
  | skip j hp _ _ => cases hpc.symm.trans hp
  | scanned j hp _ => cases hpc.symm.trans hp
  | read j r hp _ _ _ => cases hpc.symm.trans hp
  | closeNext j hp _ => cases hpc.symm.trans hp
  | closeOwn j hp _ => cases hpc.symm.trans hp
  | exit hp => cases hpc.symm.trans hp
  | join hp => cases hpc.symm.trans hp

theorem newConnections_cons_none (cfg : Config) (s : Server) {e : Event} (es : List Event)
    (h : e.accepted = none) : newConnections cfg s (e :: es) = newConnections cfg s es := by
  rw [newConnections, newConnections, List.filterMap_cons_none h]

theorem newConnections_cons (cfg : Config) (s : Server) (e : Event) {es : List Event}
    (h : es.filterMap Event.accepted = []) :
    newConnections cfg s (e :: es) = newConnections cfg s [e] := by
  rw [newConnections, newConnections, ← List.singleton_append, List.filterMap_append, h,
    List.append_nil]

theorem newConnections_single (cfg : Config) (s : Server) (e : Event) :
    (newConnections cfg s [e]).length ≤ 1 := by
  rw [newConnections]
  split
  · exact List.length_filterMap_le _ _
  · exact Nat.zero_le _

theorem accept_run {cfg : Config} (result : Fd → ReadResult) {s t : Server} {es : List Event}
    (h : Steps cfg s es t) (hi : Inv cfg s) (hpc : s.pc = .accepting)
    (he : ∀ e ∈ es, e.isPoll = false) (ht : t.pc = .top) :
    (s.table ++ newConnections cfg s es).Nodup ∧ (newConnections cfg s es).length ≤ 1 ∧
      ∃ rs, t.reads = s.reads ++ rs ∧
        (Answers result rs → rs.map Prod.fst = scanReads (fun k => s.ready (k + 1))
          (fun fd => (result fd).closes) 0 (s.table ++ newConnections cfg s es)) := by
  induction h with
  | nil =>
    rw [hpc] at ht
    cases ht
  | @cons s u t e es hst hrun ih =>
    have hi' := inv_step hi hst
    have he' (x : Event) (hx : x ∈ es) := he x (List.mem_cons_of_mem _ hx)
    have hrev := (poll_frame (he e (List.mem_cons_self ..)) hst).1
    have hready (k : Nat) : u.ready k = s.ready k := by rw [Server.ready, Server.ready, hrev]
    obtain ⟨hreads, ⟨hu, hn, htab, hacc⟩ | ⟨hu, htab⟩⟩ :=
      accept_step hpc (he e (List.mem_cons_self ..)) hst
    · have hnew : newConnections cfg u es = newConnections cfg s (e :: es) := by
        rw [newConnections_cons_none cfg s es hacc, newConnections, newConnections, hn]
      have hrest := ih hi' hu he' ht
      simp only [hready, htab, hreads, hnew] at hrest
      exact hrest
    · obtain ⟨hnil, rs, hrs, hscan⟩ := scan_run result hrun hi' hu he' ht
      rw [newConnections_cons cfg s e hnil, ← htab]
      simp only [hready, List.drop_zero] at hscan
      refine ⟨(List.nodup_append.mp hi'.nodup).2.1, newConnections_single cfg s e, rs, ?_, hscan⟩
      rw [hrs, hreads]

/-- `poll` reports connection `k` ready. -/
def pollin (revents : Nat → BitVec 16) (k : Nat) : Bool := revents (k + 1) &&& POLLIN != 0#16

/-- The flags in the memory after `poll`: those behind the poll set are old. -/
def Server.flags (s : Server) (revents : Nat → BitVec 16) (k : Nat) : Bool :=
  if k < s.numConnections then pollin revents k else s.ready (k + 1)

theorem readyOf_congr {α : Type} {ready ready' : Nat → Bool} {i : Nat} {cs : List α}
    (h : ∀ k < i + cs.length, ready k = ready' k) : readyOf ready i cs = readyOf ready' i cs := by
  induction cs generalizing i with
  | nil => rfl
  | cons c cs ih =>
    rw [List.length_cons] at h
    rw [readyOf, readyOf, h i (by omega), @ih (i + 1) fun k hk => h k (by omega)]

/-- The state in which `poll` has returned. -/
structure Polled (s : Server) (revents : Nat → BitVec 16) (u : Server) : Prop where
  pc : u.pc = .accepting
  numConnections : u.numConnections = s.numConnections
  table : u.table = s.table
  reads : u.reads = []
  polled : u.polled = s.table
  ready : ∀ k, u.ready (k + 1) = s.flags revents k

theorem poll_step {cfg : Config} {s u : Server} {revents : Nat → BitVec 16} (hi : Inv cfg s)
    (h : step cfg s (.poll .ok revents) = some u) : Polled s revents u := by
  have hfew := hi.few
  simp only [step] at h
  split at h
  · cases h
    rw [onPoll_eq .ok revents (by omega)]
    refine ⟨rfl, rfl, rfl, rfl, rfl, fun k => ?_⟩
    by_cases hk : k < s.numConnections
    · have hk' : k + 1 < 1 + s.numConnections := by omega
      simp only [Server.ready, Server.flags, pollin, if_pos hk, if_pos hk']
    · have hk' : ¬ k + 1 < 1 + s.numConnections := by omega
      simp only [Server.ready, Server.flags, if_neg hk, if_neg hk']
  · cases h

/-- A pass of the loop, from a `poll` to the next, reads exactly the connections that this `poll`
reported ready, if and only if there is no skew. -/
theorem pass_reads_iff {cfg : Config} {connections pollFd : Nat → Fd}
    {old revents : Nat → BitVec 16} (result : Fd → ReadResult) {pre es : List Event}
    {s t : Server} (h0 : Steps cfg (.start connections pollFd old) pre s)
    (h : Steps cfg s (.poll .ok revents :: es) t) (he : ∀ e ∈ es, e.isPoll = false)
    (ht : t.pc = .top) (hr : Answers result t.reads) :
    (t.reads.map Prod.fst).Perm (readyOf (pollin revents) 0 t.polled) ↔
      NoSkew (s.flags revents) (fun fd => (result fd).closes) s.table
        (newConnections cfg s es) := by
  have hi := inv_steps h0
  cases h with
  | @cons _ u _ _ _ hst hrun =>
    have hp := poll_step hi hst
    obtain ⟨hnodup, hone, rs, hrs, hscan⟩ :=
      accept_run result hrun (inv_step hi hst) hp.pc he ht
    have hnew : newConnections cfg u es = newConnections cfg s es := by
      rw [newConnections, newConnections, hp.numConnections]
    have hown : readyOf (pollin revents) 0 s.table = readyOf (s.flags revents) 0 s.table := by
      refine readyOf_congr fun k hk => ?_
      rw [Server.flags, if_pos (by simpa using hk)]
    simp only [hp.ready, hp.table, hnew] at hnodup hone hscan
    rw [hp.reads, List.nil_append] at hrs
    rw [hrs] at hr ⊢
    rw [hscan hr, polled_run hrun he, hp.polled, hown]
    exact scanReads_perm_iff hnodup hone

/-! ## A pass that reads an idle connection -/

def connectTwo : List Event :=
  [.malloc true, .poll .ok onlyServer, .accept (some 6), .next, .next, .poll .ok onlyServer,
    .accept (some 7), .next, .next, .next]

def onlyFirst (k : Nat) : BitVec 16 := if k = 1 then POLLIN else 0#16

/-- The first client is ready and has hung up. `read` of the idle second one returns when that
client sends something, later. -/
def hangUp : List Event := [.next, .read .eof, .read (.data [65]), .next]

theorem idle_connection_is_read : ∃ s t, Steps twoConnections
    (.start (fun _ => 0) (fun _ => 0) fun _ => 0#16) connectTwo s ∧
    Steps twoConnections s (.poll .ok onlyFirst :: hangUp) t ∧ t.pc = .top ∧
    readyOf (pollin onlyFirst) 0 t.polled = [6] ∧ t.reads.map Prod.fst = [6, 7] := by
  have hrun : ∃ s t, Trace.exec (step twoConnections)
      (.start (fun _ => 0) (fun _ => 0) fun _ => 0#16) connectTwo = some s ∧
      Trace.exec (step twoConnections) s (.poll .ok onlyFirst :: hangUp) = some t ∧
      t.pc = .top ∧ readyOf (pollin onlyFirst) 0 t.polled = [6] ∧
      t.reads.map Prod.fst = [6, 7] := ⟨_, _, rfl, rfl, rfl, rfl, by decide +kernel⟩
  obtain ⟨s, t, hs, ht, hrest⟩ := hrun
  exact ⟨s, t, Trace.run_of_exec hs, Trace.run_of_exec ht, hrest⟩

def sendOne : List Event := [.next, .read (.data [65]), .next, .next]

theorem ready_connection_is_read : ∃ s t, Steps twoConnections s (.poll .ok onlyFirst :: sendOne) t ∧
    t.pc = .top ∧ (t.reads.map Prod.fst).Perm (readyOf (pollin onlyFirst) 0 t.polled) := by
  have hrun : ∃ s t, Trace.exec (step twoConnections)
      (.start (fun _ => 0) (fun _ => 0) fun _ => 0#16) connectTwo = some s ∧
      Trace.exec (step twoConnections) s (.poll .ok onlyFirst :: sendOne) = some t ∧
      t.pc = .top ∧ t.reads = [(6, .data [65])] ∧ s.numConnections = 2 :=
    ⟨_, _, rfl, rfl, rfl, rfl, rfl⟩
  obtain ⟨s, t, hs, ht, hpc, hreads, hn⟩ := hrun
  refine ⟨s, t, Trace.run_of_exec ht, hpc, ?_⟩
  refine (pass_reads_iff (fun _ => .data [65]) (Trace.run_of_exec hs) (Trace.run_of_exec ht) ?_
    hpc ?_).mpr (.inl ⟨fun _ _ _ _ => rfl, .inl ?_⟩)
  · intro e he
    simp only [sendOne, List.mem_cons, List.not_mem_nil, or_false] at he
    rcases he with rfl | rfl | rfl | rfl <;> rfl
  · rw [hreads]
    intro x hx
    rw [List.mem_singleton.mp hx]
  · rw [newConnections, hn, twoConnections, if_neg (by decide)]

end CommandServer
end BvexLink
