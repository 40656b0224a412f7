import BvexLink.CommandServer.Thread

/-!
# BvexLink.CommandServer.Pipe

The commands pipe between `server_thread` and `command_server_recv`. The thread frames a command
with a newline; the reader takes what there is in the pipe.

* `commands_step`: what a step of the thread writes.
* `delivered_iff`: when every call of `command_server_recv` returns one command.
-/

namespace BvexLink
namespace CommandServer

/-! ## The two ends -/

/-- The writes for the chunks `ds`. -/
def writes (ds : List (List UInt8)) : List (List UInt8) := ds.flatMap fun d => [d, newline]

/-- The string a `char *` points to. -/
def cString (buffer : List UInt8) : List UInt8 := buffer.takeWhile (· != 0)

/-- `command_server_recv` after its `read`; `strdup` fails if there is no memory. -/
def commandServerRecv (r : ReadResult) (strdup : Bool) : Option (List UInt8) :=
  match r with
  | .data d =>
    let buffer := d ++ [0]
    let buffer := if d.getLast? = some 10 then buffer.set (d.length - 1) 0 else buffer
    if strdup then some (cString buffer) else none
  | _ => none

structure Pipe where
  pending : List (List UInt8)
  bytes : List UInt8
  results : List (List UInt8)

inductive PipeEvent where
  | write
  | recv

namespace Pipe

/-- `command_server_recv` blocks while the pipe is empty. -/
def step (p : Pipe) : PipeEvent → Option Pipe
  | .write =>
    match p.pending with
    | [] => none
    | w :: ws => some { p with pending := ws, bytes := p.bytes ++ w }
  | .recv =>
    if p.bytes = [] then none
    else (commandServerRecv (.data (p.bytes.take (BUFFER_SIZE - 1))) true).map fun r =>
      { p with bytes := p.bytes.drop (BUFFER_SIZE - 1), results := p.results ++ [r] }

/-- The thread has the chunks `ds` to write. -/
def start (ds : List (List UInt8)) : Pipe := ⟨writes ds, [], []⟩

abbrev Steps : Pipe → List PipeEvent → Pipe → Prop := Trace.Run (Trace.ofFn step)

/-- The bytes not yet read, those still to be written included. -/
def unread (p : Pipe) : List UInt8 := p.bytes ++ p.pending.flatten

end Pipe

/-! ## What the thread writes -/

def Event.chunk : Event → Option (List UInt8)
  | .read (.data d) => some d
  | _ => none

theorem writes_append (ds ds' : List (List UInt8)) :
    writes (ds ++ ds') = writes ds ++ writes ds' := List.flatMap_append

theorem onPoll_commands (cfg : Config) (s : Server) (res : PollResult)
    (revents : Nat → BitVec 16) : (onPoll cfg s res revents).commands = s.commands := by
  have hf := congrArg Server.commands (setupFds_frame cfg s.numConnections 0 1 s)
  cases res <;> exact hf

theorem commands_step {cfg : Config} {s t : Server} {e : Event} (h : step cfg s e = some t) :
    t.commands = s.commands ++ writes e.chunk.toList ∧
      ∀ d ∈ e.chunk, 0 < d.length ∧ d.length ≤ BUFFER_SIZE - 1 := by
  have hnone (ht : t.commands = s.commands) (he : e.chunk = none) :
      t.commands = s.commands ++ writes e.chunk.toList ∧
        ∀ d ∈ e.chunk, 0 < d.length ∧ d.length ≤ BUFFER_SIZE - 1 := by
    rw [he, ht]
    exact ⟨(List.append_nil _).symm, nofun⟩
  cases step_cases h with
  | poll res revents _ => exact hnone (onPoll_commands cfg s res revents) rfl
  | accept fd _ _ _ =>
    refine hnone ?_ rfl
    simp only [onAccept]
    split <;> rfl
  | read i r _ _ _ hfits =>
    cases r with
    | data d =>
      refine ⟨rfl, ?_⟩
      rintro d' hd'
      cases hd'
      simpa [ReadResult.fits] using hfits
    | eof => exact hnone rfl rfl
    | error => exact hnone rfl rfl
  | _ => exact hnone rfl rfl

/-! ## What `command_server_recv` returns -/

/-- Without its last newline, if it ends in one. -/
def stripNewline (d : List UInt8) : List UInt8 := if d.getLast? = some 10 then d.dropLast else d

theorem cString_zero {d : List UInt8} (h : 0 ∉ d) (e : List UInt8) :
    cString (d ++ 0 :: e) = d := by
  rw [cString, List.takeWhile_append_of_pos]
  · simp
  · intro b hb
    simp only [bne_iff_ne, ne_eq]
    rintro rfl
    exact h hb

theorem commandServerRecv_data {d : List UInt8} (h : 0 ∉ d) :
    commandServerRecv (.data d) true = some (stripNewline d) := by
  simp only [commandServerRecv, stripNewline, if_true]
  split
  · rename_i hl
    obtain ⟨d, rfl⟩ := List.getLast?_eq_some_iff.mp hl
    have hd : 0 ∉ d := fun hm => h (List.mem_append_left _ hm)
    have hset : (d ++ [10] ++ [0]).set ((d ++ [10]).length - 1) 0 = d ++ 0 :: [0] := by
      rw [List.append_assoc, List.length_append, List.length_singleton, Nat.add_sub_cancel,
        List.set_append_right _ _ (Nat.le_refl _), Nat.sub_self]
      rfl
    rw [hset, cString_zero hd, List.dropLast_concat]
  · rw [cString_zero h]

theorem stripNewline_frame (d : List UInt8) : stripNewline (d ++ newline) = d := by
  rw [stripNewline, newline, List.getLast?_concat, if_pos rfl, List.dropLast_concat]

theorem length_le_stripNewline (d : List UInt8) : d.length ≤ (stripNewline d).length + 1 := by
  rw [stripNewline]
  split
  · rw [List.length_dropLast]
    omega
  · omega

/-- Only a command and its newline are one byte longer than the command. -/
theorem eq_frame_of_length {d b : List UInt8} (h : stripNewline b = d)
    (hl : d.length + 1 ≤ b.length) : b = d ++ newline := by
  rw [stripNewline] at h
  split at h
  · rename_i hlast
    obtain ⟨d', rfl⟩ := List.getLast?_eq_some_iff.mp hlast
    rw [List.dropLast_concat] at h
    rw [h, newline]
  · rw [h] at hl
    omega

/-! ## The bytes in the pipe -/

theorem writes_cons (d : List UInt8) (ds : List (List UInt8)) :
    (writes (d :: ds)).flatten = d ++ newline ++ (writes ds).flatten := by
  simp [writes]

theorem writes_length (ds : List (List UInt8)) :
    (writes ds).flatten.length = (ds.map fun d => d.length + 1).sum := by
  induction ds with
  | nil => rfl
  | cons d ds ih =>
    rw [writes_cons, List.length_append, List.length_append, ih, List.map_cons, List.sum_cons]
    rfl

theorem writes_zero {ds : List (List UInt8)} (hd : ∀ d ∈ ds, 0 ∉ d) : 0 ∉ (writes ds).flatten := by
  induction ds with
  | nil => nofun
  | cons d ds ih =>
    rw [writes_cons, List.mem_append, List.mem_append]
    rintro ((h | h) | h)
    · exact hd d (List.mem_cons_self ..) h
    · exact absurd h (by decide)
    · exact ih (fun d hm => hd d (List.mem_cons_of_mem _ hm)) h

namespace Pipe

theorem step_write {p q : Pipe} (h : p.step .write = some q) :
    q.unread = p.unread ∧ q.results = p.results := by
  simp only [step] at h
  split at h
  · cases h
  · rename_i w ws hp
    cases h
    exact ⟨by simp [unread, hp], rfl⟩

theorem step_recv {p q : Pipe} (hz : 0 ∉ p.unread) (h : p.step .recv = some q) :
    p.unread = p.bytes.take (BUFFER_SIZE - 1) ++ q.unread ∧
      q.results = p.results ++ [stripNewline (p.bytes.take (BUFFER_SIZE - 1))] := by
  have htake : 0 ∉ p.bytes.take (BUFFER_SIZE - 1) := fun hm =>
    hz (List.mem_append_left _ (List.mem_of_mem_take hm))
  simp only [step] at h
  split at h
  · cases h
  · rw [commandServerRecv_data htake] at h
    cases h
    refine ⟨?_, rfl⟩
    rw [unread, unread, ← List.append_assoc, List.take_append_drop]

/-- Each call takes at most one byte more than it returns. -/
theorem unread_length {p q : Pipe} {es : List PipeEvent} (h : Steps p es q) (hz : 0 ∉ p.unread) :
    ∃ rs, q.results = p.results ++ rs ∧
      p.unread.length ≤ (rs.map fun r => r.length + 1).sum + q.unread.length := by
  induction h with
  | nil => exact ⟨[], by simp, by simp⟩
  | @cons p u q e es hst _ ih =>
    cases e with
    | write =>
      obtain ⟨hu, hr⟩ := step_write hst
      have hrest := ih (by rwa [hu])
      rwa [hu, hr] at hrest
    | recv =>
      obtain ⟨hu, hr⟩ := step_recv hz hst
      obtain ⟨rs, hrs, hl⟩ := ih fun hm => hz (by rw [hu]; exact List.mem_append_right _ hm)
      refine ⟨stripNewline (p.bytes.take (BUFFER_SIZE - 1)) :: rs, by rw [hrs, hr]; simp, ?_⟩
      have hone := length_le_stripNewline (p.bytes.take (BUFFER_SIZE - 1))
      rw [hu, List.length_append, List.map_cons, List.sum_cons]
      omega

/-! ## One command a call -/

/-- `command_server_recv` finds the oldest chunk not yet returned with its newline, and these are
all the pipe holds or all one `read` takes. -/
def Framed (ds : List (List UInt8)) (p : Pipe) : PipeEvent → Prop
  | .write => True
  | .recv => ∃ d, ds[p.results.length]? = some d ∧
      (p.bytes = d ++ newline ∧ d.length ≤ BUFFER_SIZE - 2 ∨
        d.length = BUFFER_SIZE - 2 ∧ ∃ rest, p.bytes = d ++ newline ++ rest)

theorem take_eq_frame_iff (d bytes : List UInt8) :
    bytes.take (BUFFER_SIZE - 1) = d ++ newline ↔
      bytes = d ++ newline ∧ d.length ≤ BUFFER_SIZE - 2 ∨
        d.length = BUFFER_SIZE - 2 ∧ ∃ rest, bytes = d ++ newline ++ rest := by
  have hl : (d ++ newline).length = d.length + 1 := List.length_append
  constructor
  · intro h
    have hlen := congrArg List.length h
    rw [List.length_take, hl, BUFFER_SIZE] at hlen
    by_cases hb : bytes.length ≤ BUFFER_SIZE - 1
    · rw [List.take_of_length_le hb] at h
      rw [BUFFER_SIZE] at hb ⊢
      exact .inl ⟨h, by omega⟩
    · rw [BUFFER_SIZE] at hb
      refine .inr ⟨by rw [BUFFER_SIZE]; omega, bytes.drop (BUFFER_SIZE - 1), ?_⟩
      rw [← h, List.take_append_drop]
  · rintro (⟨h, hd⟩ | ⟨hd, rest, h⟩)
    · rw [h]
      rw [BUFFER_SIZE] at hd ⊢
      exact List.take_of_length_le (by omega)
    · rw [BUFFER_SIZE] at hd ⊢
      rw [h]
      exact List.take_left' (by omega)

/-- What the calls so far have returned is the first of the chunks; the rest is unread. -/
structure Delivered (ds : List (List UInt8)) (p : Pipe) : Prop where
  results : p.results = ds.take p.results.length
  unread : p.unread = (writes (ds.drop p.results.length)).flatten

theorem Delivered.zero {ds : List (List UInt8)} {p : Pipe} (h : Delivered ds p)
    (hd : ∀ d ∈ ds, 0 ∉ d) : 0 ∉ p.unread := by
  rw [h.unread]
  exact writes_zero fun d hm => hd d (List.mem_of_mem_drop hm)

theorem delivered_start (ds : List (List UInt8)) : Delivered ds (start ds) := ⟨rfl, rfl⟩

theorem drop_of_getElem? {ds : List (List UInt8)} {n : Nat} {d : List UInt8}
    (h : ds[n]? = some d) : ds.drop n = d :: ds.drop (n + 1) := by
  obtain ⟨hl, he⟩ := List.getElem?_eq_some_iff.mp h
  rw [List.drop_eq_getElem_cons hl, he]

theorem delivered_recv {ds : List (List UInt8)} {p q : Pipe} {d : List UInt8}
    (hp : Delivered ds p) (hd : ∀ d ∈ ds, 0 ∉ d) (h : p.step .recv = some q)
    (hnext : ds[p.results.length]? = some d)
    (htake : p.bytes.take (BUFFER_SIZE - 1) = d ++ newline) : Delivered ds q := by
  obtain ⟨hu, hr⟩ := step_recv (hp.zero hd) h
  rw [htake, stripNewline_frame] at hr
  have hlen : q.results.length = p.results.length + 1 := by rw [hr, List.length_append]; rfl
  constructor
  · rw [hlen, List.take_add_one, hnext, ← hp.results, hr]
    rfl
  · rw [htake, hp.unread, drop_of_getElem? hnext, writes_cons] at hu
    rw [hlen, ← List.append_cancel_left hu]

theorem delivered_step {ds : List (List UInt8)} {p q : Pipe} {e : PipeEvent}
    (hp : Delivered ds p) (hd : ∀ d ∈ ds, 0 ∉ d) (hf : Framed ds p e)
    (h : p.step e = some q) : Delivered ds q := by
  cases e with
  | write =>
    obtain ⟨hu, hr⟩ := step_write h
    exact ⟨by rw [hr]; exact hp.results, by rw [hu, hr]; exact hp.unread⟩
  | recv =>
    obtain ⟨d, hnext, hbytes⟩ := hf
    exact delivered_recv hp hd h hnext ((take_eq_frame_iff d p.bytes).mpr hbytes)

/-- A run that reads everything and returns the chunks has met `Framed` throughout. -/
theorem framed_of_results {ds : List (List UInt8)} (hd : ∀ d ∈ ds, 0 ∉ d) {p q : Pipe}
    {es : List PipeEvent} (h : Steps p es q) (hp : Delivered ds p) (hq : q.unread = [])
    (hr : q.results = ds) : Trace.Run (Trace.Given (Framed ds) (Trace.ofFn step)) p es q := by
  induction h with
  | nil => exact .nil
  | @cons p u q e es hst hrun ih =>
    cases e with
    | write => exact .cons ⟨trivial, hst⟩ (ih (delivered_step (e := .write) hp hd trivial hst) hq hr)
    | recv =>
      obtain ⟨hu, hres⟩ := step_recv (hp.zero hd) hst
      have hzu : 0 ∉ u.unread := fun hm => hp.zero hd (by rw [hu]; exact List.mem_append_right _ hm)
      obtain ⟨rs, hrs, hl⟩ := unread_length hrun hzu
      set b := p.bytes.take (BUFFER_SIZE - 1)
      have hdrop : ds.drop p.results.length = stripNewline b :: rs := by
        have hsplit : ds = p.results ++ (stripNewline b :: rs) := by
          rw [← hr, hrs, hres, List.append_assoc]
          rfl
        rw [hsplit]
        exact List.drop_left
      have hnext : ds[p.results.length]? = some (stripNewline b) := by
        rw [← List.head?_drop, hdrop]
        rfl
      -- the later calls take no more than the later chunks, so this one took its whole chunk
      have hlong : (stripNewline b).length + 1 ≤ b.length := by
        have hlen := congrArg List.length hu
        rw [hp.unread, hdrop, writes_length, List.length_append, List.map_cons,
          List.sum_cons] at hlen
        rw [hq, List.length_nil] at hl
        omega
      have hframe : b = stripNewline b ++ newline := eq_frame_of_length rfl hlong
      refine .cons ⟨⟨_, hnext, (take_eq_frame_iff _ _).mp hframe⟩, hst⟩ (ih ?_ hq hr)
      exact delivered_recv hp hd hst hnext hframe

section Start

variable {ds : List (List UInt8)} {es : List PipeEvent} {q : Pipe}

theorem delivered_steps (hd : ∀ d ∈ ds, 0 ∉ d)
    (h : Trace.Run (Trace.Given (Framed ds) (Trace.ofFn step)) (start ds) es q) : Delivered ds q :=
  h.invariant (delivered_start ds) fun _ _ _ hp hst => delivered_step hp hd hst.1 hst.2

theorem results_eq_iff (hd : ∀ d ∈ ds, 0 ∉ d) (h : Steps (start ds) es q) (hq : q.unread = []) :
    q.results = ds ↔ Trace.Run (Trace.Given (Framed ds) (Trace.ofFn step)) (start ds) es q := by
  refine ⟨framed_of_results hd h (delivered_start ds) hq, fun hg => ?_⟩
  have hdel := delivered_steps hd hg
  have hnil : ds.drop q.results.length = [] := by
    have hlen := congrArg List.length (hq.symm.trans hdel.unread)
    rw [writes_length] at hlen
    cases hds : ds.drop q.results.length with
    | nil => rfl
    | cons d ds' =>
      rw [hds, List.map_cons, List.sum_cons, List.length_nil] at hlen
      omega
  rw [hdel.results, List.take_of_length_le (List.drop_eq_nil_iff.mp hnil)]

/-- While every call finds the pipe framed, the calls return the chunks in order, one each. A run
that reads everything returns the chunks only so. -/
theorem delivered_iff {ds : List (List UInt8)} (hd : ∀ d ∈ ds, 0 ∉ d) {es : List PipeEvent}
    {q : Pipe} (h : Steps (start ds) es q) :
    (Trace.Run (Trace.Given (Framed ds) (Trace.ofFn step)) (start ds) es q → Delivered ds q) ∧
      (q.unread = [] → (q.results = ds ↔
        Trace.Run (Trace.Given (Framed ds) (Trace.ofFn step)) (start ds) es q)) :=
  ⟨delivered_steps hd, results_eq_iff hd h⟩

end Start

/-- A command of one byte is written with its newline, then read. -/
theorem one_command_delivered : ∃ q, Steps (start [[65]]) [.write, .write, .recv] q ∧
    Delivered [[65]] q := by
  have hrun : ∃ q, Trace.exec step (start [[65]]) [.write, .write, .recv] = some q ∧
      q.results = [[65]] ∧ q.unread = [] := ⟨_, rfl, rfl, rfl⟩
  obtain ⟨q, hs, hr, hq⟩ := hrun
  have hz : ∀ d ∈ [[(65 : UInt8)]], 0 ∉ d := by decide
  have hiff := delivered_iff hz (Trace.run_of_exec hs)
  exact ⟨q, Trace.run_of_exec hs, hiff.1 ((hiff.2 hq).mp hr)⟩

/-- Two commands are in the pipe before the first call. -/
theorem commands_merged : ∃ q, Steps (start [[65], [66]]) [.write, .write, .write, .write, .recv] q ∧
    q.unread = [] ∧ q.results = [[65, 10, 66]] := by
  have hrun : ∃ q, Trace.exec step (start [[65], [66]]) [.write, .write, .write, .write, .recv] =
      some q ∧ q.unread = [] ∧ q.results = [[65, 10, 66]] := ⟨_, rfl, rfl, rfl⟩
  obtain ⟨q, hs, hrest⟩ := hrun
  exact ⟨q, Trace.run_of_exec hs, hrest⟩

end Pipe

end CommandServer
end BvexLink
