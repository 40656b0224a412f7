import BvexLink.Ground.Downlink
import BvexLink.Trace.Run

/-!
# BvexLink.Onboard.DownlinkLoop

`downlink_loop` of `handle_commands.py` as a timed state machine, one step from one suspension to
the next. Time is rational and passes by `advance`; `sends` records what was written, and when.

The pause after a sample of `n` bytes is `max(1 / max_downlink_hz, n / bps)` seconds: bytes are
divided by bits per second.

* `RateLimited.of_gaps`: a rate that each gap keeps is kept between any two sends.
* `step_cases`: what each event finds and leaves.
* `paced_steps`: the sends of a run are as far apart as the pauses.
* `exists_fastest`: the loop can send a sequence of samples without any further delay.
* `rate_limited_iff`: for which samples the rate asked for is kept.
-/

namespace BvexLink
namespace Onboard

open Wire Codec Ground

/-! ## Rates -/

/-- Data written at a time, in seconds. -/
structure Send where
  time : ℚ
  data : Bytes

def Send.bits (s : Send) : ℚ := 8 * s.data.length

/-- Between any two sends, the bits sent before the later one are at most `bps` times the time. -/
def RateLimited (bps : Int) (sends : List Send) : Prop :=
  ∀ a l b, (a :: l ++ [b]) <:+: sends → ((a :: l).map Send.bits).sum ≤ bps * (b.time - a.time)

/-- Each send is followed by the pause its length asks for. -/
def Paced (pause : Nat → ℚ) (sends : List Send) : Prop :=
  sends.IsChain fun a b => a.time + pause a.data.length ≤ b.time

theorem RateLimited.of_gaps {bps : Int} {sends : List Send}
    (h : sends.IsChain fun a b : Send => a.bits ≤ bps * (b.time - a.time)) : RateLimited bps sends := by
  intro a l b hi
  replace h := h.infix hi
  clear hi
  induction l generalizing a with
  | nil =>
    have hab := (List.isChain_cons_cons.mp h).1
    simpa using hab
  | cons c l ih =>
    obtain ⟨hac, hc⟩ := List.isChain_cons_cons.mp h
    have hsum := ih c hc
    rw [List.map_cons, List.sum_cons]
    calc a.bits + ((c :: l).map Send.bits).sum
        ≤ bps * (c.time - a.time) + bps * (b.time - c.time) := add_le_add hac hsum
      _ = bps * (b.time - a.time) := by ring

theorem RateLimited.gap {bps : Int} {pre post : List Send} {a b : Send}
    (h : RateLimited bps (pre ++ a :: b :: post)) : a.bits ≤ bps * (b.time - a.time) := by
  have := h a [] b ⟨pre, post, by simp⟩
  simpa using this

/-! ## The loop -/

section Loop

variable {F : Type} [Primitives F]

/-- `get_sample` of `asyncio.py`, for what the cache holds. -/
def getSampleAsync (py : Pydantic) (sample_json : Option Bytes) : Except Errors (Sample F) :=
  match sample_json with
  | none => fail .wrongType
  | some b =>
    match Utf8.decode b with
    | none => fail .invalidJson
    | some s => Sample.modelValidateJson py s

theorem getSampleAsync_encode (hF : FloatsRoundTrip F) {py : Pydantic} {sample sample' : Sample F} :
    getSampleAsync py (some (Utf8.encode sample.modelDumpJson)) = .ok sample' ↔
      sample' = sample ∧ sample.Readable := by
  simp only [getSampleAsync, Utf8.decode_encode]
  exact Sample.modelValidateJson_dump_eq_ok hF

def maxDownlinkHz : ℚ := 2

/-- `max(min_sleep, bytes_sent / bps)`; `none` is a `ZeroDivisionError`. -/
def pause (bps : Int) (bytes_sent : Nat) : Option ℚ :=
  let min_sleep := 1 / maxDownlinkHz
  if bps = 0 then none else some (max min_sleep (bytes_sent / bps))

inductive LoopExit where
  | validationError (e : Errors)
  | zeroDivisionError
  | raised

/-- Where the loop is suspended. -/
inductive LoopPc where
  | getting
  | draining (bytes_sent : Nat)
  | sleeping (until_ : ℚ)
  | ended (x : LoopExit)

structure DownlinkLoop (F : Type) where
  pc : LoopPc
  now : ℚ
  lastSample : Option (Sample F)
  sockBufSize : Nat
  sends : List Send

/-- `raised` is an exception from outside at one of the `await`s. -/
inductive LoopEvent where
  | advance (d : ℚ)
  | got (sample_json : Option Bytes)
  | drained
  | wake
  | raised

namespace DownlinkLoop

def start (now : ℚ) (sockBufSize : Nat) : DownlinkLoop F := ⟨.getting, now, none, sockBufSize, []⟩

def onSample (py : Pydantic) (same : Sample F → Sample F → Bool) (s : DownlinkLoop F)
    (sample : Sample F) : DownlinkLoop F :=
  if s.lastSample.any (same sample) then { s with pc := .sleeping (s.now + 1) }
  else
    match downlinkLatestSample py sample with
    | .error e => { s with lastSample := some sample, pc := .ended (.validationError e) }
    | .ok (data, bytes_sent) =>
      { s with
        lastSample := some sample
        sends := s.sends ++ [⟨s.now, data⟩]
        pc := .draining bytes_sent }

def onDrained (bps : Int) (s : DownlinkLoop F) (bytes_sent : Nat) : DownlinkLoop F :=
  let s :=
    if bytes_sent > 0 ∧ (s.sockBufSize < bytes_sent + 1 ∨ s.sockBufSize > bytes_sent * 2) then
      { s with sockBufSize := bytes_sent * 2 }
    else s
  match pause bps bytes_sent with
  | none => { s with pc := .ended .zeroDivisionError }
  | some d => { s with pc := .sleeping (s.now + d) }

def step (py : Pydantic) (same : Sample F → Sample F → Bool) (bps : Int) (s : DownlinkLoop F) :
    LoopEvent → Option (DownlinkLoop F)
  | .advance d => if 0 ≤ d then some { s with now := s.now + d } else none
  | .got sample_json =>
    match s.pc with
    | .getting =>
      match getSampleAsync py sample_json with
      | .ok sample => some (s.onSample py same sample)
      | .error e => some { s with pc := .ended (.validationError e) }
    | _ => none
  | .drained =>
    match s.pc with
    | .draining bytes_sent => some (s.onDrained bps bytes_sent)
    | _ => none
  | .wake =>
    match s.pc with
    | .sleeping until_ => if until_ ≤ s.now then some { s with pc := .getting } else none
    | _ => none
  | .raised =>
    match s.pc with
    | .ended _ => none
    | _ => some { s with pc := .ended .raised }

abbrev Steps (py : Pydantic) (same : Sample F → Sample F → Bool) (bps : Int) :
    DownlinkLoop F → List LoopEvent → DownlinkLoop F → Prop :=
  Trace.Run (Trace.ofFn (step py same bps))

inductive StepCase (py : Pydantic) (same : Sample F → Sample F → Bool) (bps : Int)
    (s : DownlinkLoop F) : LoopEvent → DownlinkLoop F → Prop where
  | advance {d : ℚ} : 0 ≤ d → StepCase py same bps s (.advance d) { s with now := s.now + d }
  | got {sample_json : Option Bytes} {sample : Sample F} : s.pc = .getting →
      getSampleAsync py sample_json = .ok sample →
      StepCase py same bps s (.got sample_json) (s.onSample py same sample)
  | invalid {sample_json : Option Bytes} {e : Errors} : s.pc = .getting →
      getSampleAsync (F := F) py sample_json = .error e →
      StepCase py same bps s (.got sample_json) { s with pc := .ended (.validationError e) }
  | drained {bytes_sent : Nat} : s.pc = .draining bytes_sent →
      StepCase py same bps s .drained (s.onDrained bps bytes_sent)
  | wake {until_ : ℚ} : s.pc = .sleeping until_ → until_ ≤ s.now →
      StepCase py same bps s .wake { s with pc := .getting }
  | raised : StepCase py same bps s .raised { s with pc := .ended .raised }

theorem step_cases {py : Pydantic} {same : Sample F → Sample F → Bool} {bps : Int}
    {s t : DownlinkLoop F} {e : LoopEvent} (h : step py same bps s e = some t) :
    StepCase py same bps s e t := by
  cases e with
  | advance d =>
    simp only [step] at h
    split at h <;> cases h
    rename_i hd
    exact .advance hd
  | got sample_json =>
    simp only [step] at h
    split at h
    · rename_i hpc
      split at h
      · rename_i sample hget
        cases h
        exact .got hpc hget
      · rename_i e hget
        cases h
        exact .invalid hpc hget
    · cases h
  | drained =>
    simp only [step] at h
    split at h <;> cases h
    rename_i n hpc
    exact .drained hpc
  | wake =>
    simp only [step] at h
    split at h
    · rename_i u hpc
      split at h <;> cases h
      rename_i hu
      exact .wake hpc hu
    · cases h
  | raised =>
    simp only [step] at h
    split at h <;> cases h
    exact .raised

/-! ## The pauses -/

def seconds (bps : Int) (bytes_sent : Nat) : ℚ := max (1 / maxDownlinkHz) (bytes_sent / bps)

omit [Primitives F] in
theorem pause_eq {bps : Int} (h : bps ≠ 0) (n : Nat) : pause bps n = some (seconds bps n) :=
  if_neg h

/-- The latest send as far as the loop has dealt with it. -/
def Waits (bps : Int) (s : DownlinkLoop F) (a : Send) : Prop :=
  match s.pc with
  | .getting => a.time + seconds bps a.data.length ≤ s.now
  | .draining bytes_sent => bytes_sent = a.data.length ∧ a.time ≤ s.now
  | .sleeping until_ => a.time + seconds bps a.data.length ≤ until_
  | .ended _ => True

structure Inv (bps : Int) (s : DownlinkLoop F) : Prop where
  paced : Paced (seconds bps) s.sends
  waits : ∀ a ∈ s.sends.getLast?, s.Waits bps a

omit [Primitives F] in
theorem inv_start (bps : Int) (now : ℚ) (sockBufSize : Nat) :
    Inv bps (start now sockBufSize : DownlinkLoop F) := ⟨.nil, nofun⟩

theorem onSample_eq (py : Pydantic) (same : Sample F → Sample F → Bool) (s : DownlinkLoop F)
    (sample : Sample F) : s.onSample py same sample =
      if s.lastSample.any (same sample) then { s with pc := .sleeping (s.now + 1) }
      else { s with
        lastSample := some sample
        sends := s.sends ++ [⟨s.now, encodeMessage (.sample sample)⟩]
        pc := .draining (encodeMessage (.sample sample)).length } := by
  rw [onSample, downlinkLatestSample_eq]

omit [Primitives F] in
theorem onDrained_eq {bps : Int} (h : bps ≠ 0) (s : DownlinkLoop F) (n : Nat) :
    ∃ size, s.onDrained bps n =
      { s with sockBufSize := size, pc := .sleeping (s.now + seconds bps n) } := by
  simp only [onDrained, pause_eq h]
  split
  · exact ⟨_, rfl⟩
  · exact ⟨_, rfl⟩

theorem inv_onSample {py : Pydantic} {same : Sample F → Sample F → Bool} {bps : Int}
    {s : DownlinkLoop F} (hi : Inv bps s) (hpc : s.pc = .getting) (sample : Sample F) :
    Inv bps (s.onSample py same sample) := by
  have hw (a : Send) (ha : a ∈ s.sends.getLast?) : a.time + seconds bps a.data.length ≤ s.now := by
    have := hi.waits a ha
    rwa [Waits, hpc] at this
  rw [onSample_eq]
  split
  · refine ⟨hi.paced, fun a ha => ?_⟩
    have := hw a ha
    show a.time + seconds bps a.data.length ≤ s.now + 1
    linarith
  · constructor
    · refine List.IsChain.append hi.paced (.singleton _) fun a ha b hb => ?_
      rw [List.head?_cons, Option.mem_some] at hb
      subst hb
      exact hw a ha
    · intro a ha
      rw [List.getLast?_concat, Option.mem_some] at ha
      subst ha
      simp only [Waits, le_refl, and_self]

theorem inv_step {py : Pydantic} {same : Sample F → Sample F → Bool} {bps : Int} (hb : bps ≠ 0)
    {s t : DownlinkLoop F} {e : LoopEvent} (hi : Inv bps s) (h : step py same bps s e = some t) :
    Inv bps t := by
  cases step_cases h with
  | advance hd =>
    refine ⟨hi.paced, fun a ha => ?_⟩
    have := hi.waits a ha
    unfold Waits at this ⊢
    dsimp only
    split at this
    · linarith
    · exact ⟨this.1, by linarith [this.2]⟩
    · exact this
    · trivial
  | got hpc _ => exact inv_onSample hi hpc _
  | invalid _ _ => exact ⟨hi.paced, fun _ _ => trivial⟩
  | @drained n hpc =>
    obtain ⟨size, heq⟩ := onDrained_eq hb s n
    rw [heq]
    refine ⟨hi.paced, fun a ha => ?_⟩
    have := hi.waits a ha
    rw [Waits, hpc] at this
    obtain ⟨rfl, ht⟩ := this
    show a.time + seconds bps a.data.length ≤ s.now + seconds bps a.data.length
    linarith
  | wake hpc hu =>
    refine ⟨hi.paced, fun a ha => ?_⟩
    have := hi.waits a ha
    rw [Waits, hpc] at this
    exact this.trans hu
  | raised => exact ⟨hi.paced, fun _ _ => trivial⟩

theorem paced_steps {py : Pydantic} {same : Sample F → Sample F → Bool} {bps : Int} (hb : bps ≠ 0)
    {now : ℚ} {sockBufSize : Nat} {es : List LoopEvent} {s : DownlinkLoop F}
    (h : Steps py same bps (start now sockBufSize) es s) : Paced (seconds bps) s.sends :=
  (h.invariant (inv_start bps now sockBufSize) fun _ _ _ hi hst => inv_step hb hi hst).paced

/-! ## The fastest run -/

/-- The sends of `samples` if none comes later than it has to. -/
def fastest (bps : Int) : ℚ → List (Sample F) → List Send
  | _, [] => []
  | now, s :: ss =>
    ⟨now, encodeMessage (.sample s)⟩ ::
      fastest bps (now + seconds bps (encodeMessage (.sample s)).length) ss

/-- The cache can hold a text that is read as this sample. -/
def Readable (py : Pydantic) (s : Sample F) : Prop :=
  ∃ sample_json, getSampleAsync py sample_json = .ok s

omit [Primitives F] in
theorem seconds_nonneg (bps : Int) (n : Nat) : 0 ≤ seconds bps n := by
  refine le_trans ?_ (le_max_left _ _)
  norm_num [maxDownlinkHz]

theorem send_steps {py : Pydantic} {same : Sample F → Sample F → Bool} {bps : Int} (hb : bps ≠ 0)
    {s : DownlinkLoop F} (hpc : s.pc = .getting) {sample : Sample F} (hr : Readable py sample)
    (hn : s.lastSample.any (same sample) = false) :
    ∃ es t, Steps py same bps s es t ∧ t.pc = .getting ∧ t.lastSample = some sample ∧
      t.now = s.now + seconds bps (encodeMessage (.sample sample)).length ∧
      t.sends = s.sends ++ [⟨s.now, encodeMessage (.sample sample)⟩] := by
  obtain ⟨text, ht⟩ := hr
  set n := (encodeMessage (.sample sample)).length
  let s1 : DownlinkLoop F := { s with
    lastSample := some sample
    sends := s.sends ++ [⟨s.now, encodeMessage (.sample sample)⟩]
    pc := .draining n }
  have h1 : step py same bps s (.got text) = some s1 := by
    simp only [step, hpc, ht]
    rw [onSample_eq, hn]
    rfl
  obtain ⟨size, hdrain⟩ := onDrained_eq hb s1 n
  have h2 : step py same bps s1 .drained =
      some { s1 with sockBufSize := size, pc := .sleeping (s.now + seconds bps n) } :=
    congrArg some hdrain
  let s3 : DownlinkLoop F := { s1 with
    sockBufSize := size
    pc := .sleeping (s.now + seconds bps n)
    now := s.now + seconds bps n }
  have h3 : step py same bps { s1 with sockBufSize := size, pc := .sleeping (s.now + seconds bps n) }
      (.advance (seconds bps n)) = some s3 := if_pos (seconds_nonneg bps n)
  have h4 : step py same bps s3 .wake = some { s3 with pc := .getting } := if_pos (le_refl _)
  exact ⟨[.got text, .drained, .advance _, .wake], _,
    .cons h1 (.cons h2 (.cons h3 (.single h4))), rfl, rfl, rfl, rfl⟩

/-- Samples that can be read, each one new to the loop, are sent without any further delay. -/
theorem exists_fastest {py : Pydantic} {same : Sample F → Sample F → Bool} {bps : Int}
    (hb : bps ≠ 0) {ss : List (Sample F)} (hr : ∀ s ∈ ss, Readable py s)
    (hn : ss.IsChain fun s s' => same s' s = false) {d : DownlinkLoop F} (hpc : d.pc = .getting)
    (hlast : ∀ s ∈ ss.head?, d.lastSample.any (same s) = false) :
    ∃ es t, Steps py same bps d es t ∧ t.sends = d.sends ++ fastest bps d.now ss := by
  induction ss generalizing d with
  | nil => exact ⟨[], d, .nil, (List.append_nil _).symm⟩
  | cons s ss ih =>
    obtain ⟨es, t, ht, hpct, hlt, hnow, hsends⟩ :=
      send_steps hb hpc (hr s (List.mem_cons_self ..)) (hlast s rfl)
    obtain ⟨es', u, hu, husends⟩ := ih (fun s' h => hr s' (List.mem_cons_of_mem _ h)) hn.of_cons
      (d := t) hpct fun s' hs' => by
        rw [hlt]
        exact hn.rel_head? hs'
    refine ⟨es ++ es', u, ht.append hu, ?_⟩
    rw [husends, hsends, hnow, List.append_assoc]
    rfl

omit [Primitives F] in
/-- The pause is long enough for the bits it follows exactly if the minimum is. -/
theorem bits_le_iff {bps : Int} (hb : 0 < bps) {n : Nat} (hn : 0 < n) :
    (8 * n : ℚ) ≤ bps * seconds bps n ↔ 16 * (n : Int) ≤ bps := by
  have hb' : (0 : ℚ) < bps := by exact_mod_cast hb
  have hn' : (0 : ℚ) < n := by exact_mod_cast hn
  have hmul : (bps : ℚ) * seconds bps n = max ((bps : ℚ) / 2) (n : ℚ) := by
    rw [seconds, mul_max_of_nonneg _ _ hb'.le, mul_div_cancel₀ _ hb'.ne', maxDownlinkHz,
      mul_one_div]
  have hcast : 16 * (n : Int) ≤ bps ↔ (16 * n : ℚ) ≤ bps := by
    exact_mod_cast Iff.rfl
  rw [hmul, hcast, le_max_iff]
  constructor
  · rintro (h | h)
    · linarith
    · linarith
  · intro h
    exact .inl (by linarith)

omit [Primitives F] in
theorem gaps_of_paced {bps : Int} (hb : 0 < bps) {sends : List Send}
    (h : Paced (seconds bps) sends) (hl : ∀ a ∈ sends.dropLast, 16 * (a.data.length : Int) ≤ bps) :
    sends.IsChain fun a b : Send => a.bits ≤ bps * (b.time - a.time) := by
  have hb' : (0 : ℚ) < bps := by exact_mod_cast hb
  induction sends with
  | nil => exact .nil
  | cons a sends ih =>
    cases sends with
    | nil => exact .singleton a
    | cons b sends =>
      obtain ⟨hab, hrest⟩ := List.isChain_cons_cons.mp h
      refine List.isChain_cons_cons.mpr ⟨?_, ih hrest fun c hc => hl c (List.mem_cons_of_mem _ hc)⟩
      have ha := hl a (List.mem_cons_self ..)
      rcases Nat.eq_zero_or_pos a.data.length with hz | hz
      · have hs := seconds_nonneg bps a.data.length
        rw [Send.bits, hz, Nat.cast_zero, mul_zero]
        exact mul_nonneg hb'.le (by linarith)
      · calc a.bits ≤ bps * seconds bps a.data.length := (bits_le_iff hb hz).mpr ha
          _ ≤ bps * (b.time - a.time) := mul_le_mul_of_nonneg_left (by linarith) hb'.le

theorem fastest_data (bps : Int) (now : ℚ) (ss : List (Sample F)) :
    (fastest bps now ss).map Send.data = ss.map fun s => encodeMessage (.sample s) := by
  induction ss generalizing now with
  | nil => rfl
  | cons s ss ih => rw [fastest, List.map_cons, ih, List.map_cons]

theorem fastest_append (bps : Int) (now : ℚ) (ss ss' : List (Sample F)) :
    ∃ pre now', fastest bps now (ss ++ ss') = pre ++ fastest bps now' ss' := by
  induction ss generalizing now with
  | nil => exact ⟨[], now, rfl⟩
  | cons s ss ih =>
    obtain ⟨pre, now', h⟩ := ih (now + seconds bps (encodeMessage (.sample s)).length)
    exact ⟨_ :: pre, now', by rw [List.cons_append, fastest, h]; rfl⟩

/-- Without any further delay, only samples of at most `bps / 16` bytes keep the rate. -/
theorem fastest_limited {bps : Int} (hb : 0 < bps) {now : ℚ} {pre post : List (Sample F)}
    {s s' : Sample F} (h : RateLimited bps (fastest bps now (pre ++ s :: s' :: post))) :
    16 * ((encodeMessage (.sample s)).length : Int) ≤ bps := by
  obtain ⟨sent, now', heq⟩ := fastest_append bps now pre (s :: s' :: post)
  rw [heq, fastest, fastest] at h
  have hgap := h.gap
  dsimp only [Send.bits] at hgap
  rw [add_sub_cancel_left] at hgap
  have hne := (frames_telemetry (F := F) .subscribe Pydantic.strict).ne_nil (.sample s)
  exact (bits_le_iff hb (List.length_pos_iff.mpr hne)).mp hgap

/-- The rate asked for is kept in every run that sends the samples exactly if each of them but the
last takes at most a sixteenth of it: only the minimum pause is counted in bits. -/
theorem rate_limited_iff {bps : Int} (hb : 0 < bps) {py : Pydantic}
    {same : Sample F → Sample F → Bool} {ss : List (Sample F)} (hr : ∀ s ∈ ss, Readable py s)
    (hn : ss.IsChain fun s s' => same s' s = false) :
    (∀ now sockBufSize es d, Steps py same bps (start now sockBufSize) es d →
      d.sends.map Send.data = ss.map (fun s => encodeMessage (.sample s)) →
        RateLimited bps d.sends) ↔
      ∀ s ∈ ss.dropLast, 16 * ((encodeMessage (.sample s)).length : Int) ≤ bps := by
  constructor
  · intro h s hs
    obtain ⟨es, d, hd, hsends⟩ := exists_fastest hb.ne' hr hn (d := start 0 0) rfl fun _ _ => rfl
    have hlim := h 0 0 es d hd (by rw [hsends]; exact fastest_data bps 0 ss)
    rw [hsends] at hlim
    obtain ⟨pre, mid, hsplit⟩ := List.append_of_mem hs
    have hne : ss ≠ [] := by rintro rfl; cases hs
    have hss : ss = pre ++ s :: (mid ++ [ss.getLast hne]) := by
      have := List.dropLast_append_getLast hne
      rw [hsplit] at this
      simpa using this.symm
    obtain ⟨s', post, hpost⟩ : ∃ s' post, mid ++ [ss.getLast hne] = s' :: post := by
      cases mid with
      | nil => exact ⟨_, _, rfl⟩
      | cons s' mid => exact ⟨s', mid ++ [ss.getLast hne], rfl⟩
    rw [hss, hpost] at hlim
    exact fastest_limited hb hlim
  · intro h now sockBufSize es d hd hdata
    refine .of_gaps (gaps_of_paced hb (paced_steps hb.ne' hd) fun a ha => ?_)
    have hmem : a.data ∈ (d.sends.map Send.data).dropLast := by
      rw [← List.map_dropLast]
      exact List.mem_map_of_mem ha
    rw [hdata, ← List.map_dropLast] at hmem
    obtain ⟨s, hs, hsd⟩ := List.mem_map.mp hmem
    rw [← hsd]
    exact h s hs

end DownlinkLoop

end Loop

namespace DownlinkLoop

/-! ## Two samples -/

def readings : List (Sample Bool) := [flagSample false, flagSample true]

def sameText (s s' : Sample Bool) : Bool :=
  decide (@Sample.modelDumpJson Bool twoFloats s = @Sample.modelDumpJson Bool twoFloats s')

theorem readings_readable :
    ∀ s ∈ readings, @Readable Bool twoFloats Pydantic.strict s := by
  intro s hs
  refine ⟨some (Utf8.encode (@Sample.modelDumpJson Bool twoFloats s)), ?_⟩
  simp only [getSampleAsync, Utf8.decode_encode]
  refine (@Sample.modelValidateJson_dump_iff Bool twoFloats twoFloats_roundTrip _ s).mpr ?_
  simp only [readings, List.mem_cons, List.not_mem_nil, or_false] at hs
  rcases hs with rfl | rfl <;> exact flagSample_readable _

theorem readings_differ : readings.IsChain fun s s' => sameText s' s = false := by
  refine List.isChain_cons_cons.mpr ⟨?_, .singleton _⟩
  unfold sameText Sample.modelDumpJson
  rw [decide_eq_false_iff_not, String.ofList_inj]
  decide +kernel

theorem readings_length :
    (@encodeMessage Bool twoFloats (.sample (flagSample false))).length = 156 := by
  unfold encodeMessage Telemetry.modelDumpJson Utf8.encode
  rw [String.toList_ofList]
  decide +kernel

/-- At 10000 bits per second the samples keep the rate, also when nothing else delays them. -/
theorem readings_rate_limited : ∃ es d,
    @Steps Bool twoFloats Pydantic.strict sameText 10000 (start 0 0) es d ∧
      d.sends.map Send.data = readings.map (fun s => @encodeMessage Bool twoFloats (.sample s)) ∧
      RateLimited 10000 d.sends := by
  obtain ⟨es, d, hd, hsends⟩ := @exists_fastest Bool twoFloats Pydantic.strict sameText 10000
    (by decide) readings readings_readable readings_differ (start 0 0) rfl fun _ _ => rfl
  have hdata : d.sends.map Send.data =
      readings.map (fun s => @encodeMessage Bool twoFloats (.sample s)) := by
    rw [hsends]
    exact @fastest_data Bool twoFloats 10000 0 readings
  refine ⟨es, d, hd, hdata, ?_⟩
  refine (@rate_limited_iff Bool twoFloats 10000 (by decide) _ _ _ readings_readable
    readings_differ).mpr (fun s hs => ?_) 0 0 es d hd hdata
  rw [show s = flagSample false by simpa [readings] using hs, readings_length]
  decide

/-- At 8 bits per second, the pause after 156 bytes is `156 / 8` seconds instead of 156. -/
theorem readings_exceed_rate : ¬ ∀ (bps : Int), 0 < bps → ∀ now sockBufSize es d,
    @Steps Bool twoFloats Pydantic.strict sameText bps (start now sockBufSize) es d →
      RateLimited bps d.sends := by
  intro h
  obtain ⟨es, d, hd, hsends⟩ := @exists_fastest Bool twoFloats Pydantic.strict sameText 8
    (by decide) readings readings_readable readings_differ (start 0 0) rfl fun _ _ => rfl
  have hlim := h 8 (by decide) 0 0 es d hd
  rw [hsends] at hlim
  have := @fastest_limited Bool twoFloats 8 (by decide) 0 [] [] (flagSample false) (flagSample true) hlim
  rw [readings_length] at this
  exact absurd this (by decide)

end DownlinkLoop

end Onboard
end BvexLink
