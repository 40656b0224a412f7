import BvexLink.Ground.FairShare
import BvexLink.Onboard.DownlinkLoop

/-!
# BvexLink.EndToEnd.Budget

What the subscriptions of a fair share take of the link: the rates that the ground has set, and the
loops on board that were asked for them.

* `window_le`: what one loop sends in a window of time.
* `budget_kept`: together the loops send at most as many bytes a second as the maximum allows bits,
  and one message each.
-/

namespace BvexLink
namespace EndToEnd

open Wire Codec Onboard Ground MetricSubscribeHandler

/-! ## One loop -/

def window (t u : ℚ) (sends : List Send) : List Send :=
  sends.filter fun a => t ≤ a.time ∧ a.time ≤ u

def bytes (sends : List Send) : Nat := (sends.map fun a => a.data.length).sum

section Window

variable {bps : Int} {sends : List Send} {t u : ℚ} {B : Nat}

/-- The later send waits for all pauses in between. -/
theorem pairwise_of_paced (h : Paced (DownlinkLoop.seconds bps) sends) :
    sends.Pairwise fun a b => a.time + DownlinkLoop.seconds bps a.data.length ≤ b.time := by
  induction sends with
  | nil => exact .nil
  | cons a sends ih =>
    cases sends with
    | nil => exact List.pairwise_singleton _ a
    | cons b sends =>
      obtain ⟨hab, hrest⟩ := List.isChain_cons_cons.mp h
      have hpair := ih hrest
      refine List.pairwise_cons.mpr ⟨fun c hc => ?_, hpair⟩
      rcases List.mem_cons.mp hc with rfl | hc
      · exact hab
      · have hbc := (List.pairwise_cons.mp hpair).1 c hc
        have hpause := DownlinkLoop.seconds_nonneg bps b.data.length
        linarith

def pauses (bps : Int) (sends : List Send) : ℚ :=
  (sends.dropLast.map fun a => DownlinkLoop.seconds bps a.data.length).sum

theorem pauses_cons_cons (a b : Send) (sends : List Send) : pauses bps (a :: b :: sends) =
    DownlinkLoop.seconds bps a.data.length + pauses bps (b :: sends) := by
  rw [pauses, List.dropLast_cons_cons, List.map_cons, List.sum_cons]
  rfl

theorem pauses_le {a : Send}
    (h : (a :: sends).Pairwise fun a b => a.time + DownlinkLoop.seconds bps a.data.length ≤ b.time)
    (hu : ∀ b ∈ a :: sends, b.time ≤ u) : pauses bps (a :: sends) ≤ u - a.time := by
  induction sends generalizing a with
  | nil =>
    have := hu a (List.mem_singleton_self a)
    simp only [pauses, List.dropLast_singleton, List.map_nil, List.sum_nil]
    linarith
  | cons b sends ih =>
    obtain ⟨hab, hrest⟩ := List.pairwise_cons.mp h
    have hsum := ih hrest fun c hc => hu c (List.mem_cons_of_mem _ hc)
    have hb := hab b (List.mem_cons_self ..)
    rw [pauses_cons_cons]
    linarith

theorem pauses_window_le (h : Paced (DownlinkLoop.seconds bps) sends) (htu : t ≤ u) :
    pauses bps (window t u sends) ≤ u - t := by
  have hpair := (pairwise_of_paced h).filter fun a => decide (t ≤ a.time ∧ a.time ≤ u)
  have hin : ∀ a ∈ window t u sends, t ≤ a.time ∧ a.time ≤ u := by
    intro a ha
    simpa using (List.mem_filter.mp ha).2
  change (window t u sends).Pairwise _ at hpair
  cases hw : window t u sends with
  | nil =>
    simp only [pauses, List.dropLast_nil, List.map_nil, List.sum_nil]
    linarith
  | cons a l =>
    rw [hw] at hpair hin
    have hle := pauses_le hpair fun b hb => (hin b hb).2
    have ha := (hin a (List.mem_cons_self ..)).1
    linarith

/-- A message of `n` bytes is followed by `n / bps` seconds, but the last one. -/
theorem bytes_le (hb : 0 < bps) (hB : ∀ a ∈ sends, a.data.length ≤ B) :
    (bytes sends : ℚ) ≤ bps * pauses bps sends + B := by
  have hb' : (0 : ℚ) < bps := by exact_mod_cast hb
  induction sends with
  | nil => simp [bytes, pauses]
  | cons a sends ih =>
    cases sends with
    | nil =>
      have ha : (a.data.length : ℚ) ≤ B := by exact_mod_cast hB a (List.mem_singleton_self a)
      simpa [bytes, pauses] using ha
    | cons b sends =>
      have hrest := ih fun c hc => hB c (List.mem_cons_of_mem _ hc)
      have hlen : (a.data.length : ℚ) ≤ bps * DownlinkLoop.seconds bps a.data.length := by
        have hmax := le_max_right (1 / maxDownlinkHz) ((a.data.length : ℚ) / bps)
        have hmul := mul_le_mul_of_nonneg_left hmax hb'.le
        rwa [mul_div_cancel₀ _ hb'.ne'] at hmul
      rw [pauses_cons_cons]
      calc (bytes (a :: b :: sends) : ℚ) = a.data.length + bytes (b :: sends) := by
            rw [bytes, List.map_cons, List.sum_cons, Nat.cast_add]
            rfl
        _ ≤ bps * DownlinkLoop.seconds bps a.data.length + (bps * pauses bps (b :: sends) + B) :=
            add_le_add hlen hrest
        _ = _ := by ring

theorem length_le_pauses : (sends.length : ℚ) ≤ maxDownlinkHz * pauses bps sends + 1 := by
  induction sends with
  | nil => simp [pauses]
  | cons a sends ih =>
    cases sends with
    | nil => simp [pauses]
    | cons b sends =>
      have hmin := le_max_left (1 / maxDownlinkHz) ((a.data.length : ℚ) / bps)
      have hpause : (1 : ℚ) ≤ maxDownlinkHz * DownlinkLoop.seconds bps a.data.length := by
        rw [DownlinkLoop.seconds, maxDownlinkHz] at *
        linarith
      rw [pauses_cons_cons, List.length_cons, Nat.cast_add, Nat.cast_one, mul_add]
      linarith

end Window

section Loops

variable {F : Type} [Primitives F] {py : Pydantic} {same : Sample F → Sample F → Bool}

/-- A loop sends at most `bps` bytes a second and one message more, and two messages a second and
one more. -/
theorem window_le {bps : Int} (hb : 0 < bps) {now : ℚ} {sockBufSize : Nat} {es : List LoopEvent}
    {d : DownlinkLoop F} (h : DownlinkLoop.Steps py same bps (.start now sockBufSize) es d)
    {B : Nat} (hB : ∀ a ∈ d.sends, a.data.length ≤ B) {t u : ℚ} (htu : t ≤ u) :
    (bytes (window t u d.sends) : ℚ) ≤ bps * (u - t) + B ∧
      ((window t u d.sends).length : ℚ) ≤ maxDownlinkHz * (u - t) + 1 := by
  have hfit := pauses_window_le (DownlinkLoop.paced_steps hb.ne' h) htu
  have hb' : (0 : ℚ) ≤ bps := by exact_mod_cast hb.le
  have hin : ∀ a ∈ window t u d.sends, a.data.length ≤ B :=
    fun a ha => hB a (List.mem_of_mem_filter ha)
  constructor
  · calc (bytes (window t u d.sends) : ℚ)
        ≤ bps * pauses bps (window t u d.sends) + B := bytes_le hb hin
      _ ≤ bps * (u - t) + B := by
          have := mul_le_mul_of_nonneg_left hfit hb'
          linarith
  · calc ((window t u d.sends).length : ℚ)
        ≤ maxDownlinkHz * pauses bps (window t u d.sends) + 1 := length_le_pauses
      _ ≤ maxDownlinkHz * (u - t) + 1 := by
          rw [maxDownlinkHz]
          linarith

/-! ## All loops -/

/-- The loop on board of the task that is stored for the metric. -/
def Serves (py : Pydantic) (same : Sample F → Sample F → Bool) (s : MetricSubscribeHandler)
    (m : String) (d : DownlinkLoop F) : Prop :=
  ∃ task now sockBufSize es, s.subscription m = some task ∧
    DownlinkLoop.Steps py same task.bps (.start now sockBufSize) es d

/-- While nothing is being changed, the loops of all metrics together send at most as many bytes a
second as the last maximum allows bits, and a message more each. -/
theorem budget_kept {max_bps : Int} {es : List Event} {s : MetricSubscribeHandler}
    (h : Calls (init "fair" max_bps) es s) (hq : s.Quiescent)
    (hroom : (s.metrics.keys.length : Int) ≤ lastMaxBps max_bps es) {d : String → DownlinkLoop F}
    (hd : ∀ m ∈ s.metrics, Serves py same s m (d m)) {B : String → Nat}
    (hB : ∀ m ∈ s.metrics, ∀ a ∈ (d m).sends, a.data.length ≤ B m) {t u : ℚ} (htu : t ≤ u) :
    (s.metrics.keys.map fun m => (bytes (window t u (d m).sends) : ℚ)).sum ≤
      lastMaxBps max_bps es * (u - t) + (s.metrics.keys.map fun m => (B m : ℚ)).sum := by
  obtain ⟨hf, _, hmax⟩ := fair_calls h
  rw [← hmax] at hroom ⊢
  have hlen : (0 : ℚ) ≤ u - t := by linarith
  by_cases hk : s.metrics.keys = []
  · have hpos : (0 : ℚ) ≤ s.maxBps := by
      rw [hk] at hroom
      exact_mod_cast hroom
    simp only [hk, List.map_nil, List.sum_nil, add_zero]
    exact mul_nonneg hpos hlen
  · have hshared := fairlyShared_of_fair hf hq hk
    have hshare := share_pos hk hroom
    have hone : ∀ m ∈ s.metrics.keys,
        (bytes (window t u (d m).sends) : ℚ) ≤ s.share * (u - t) + B m := by
      intro m hm
      have hm : m ∈ s.metrics := AList.mem_keys.mpr hm
      obtain ⟨task, now, sockBufSize, loops, htask, hrun⟩ := hd m hm
      rw [hshared.subscribed m hm] at htask
      cases htask
      exact (window_le hshare hrun (hB m hm) htu).1
    have hsum : ((s.metrics.keys.length * s.share : Int) : ℚ) ≤ s.maxBps := by
      exact_mod_cast (share_bounds hk).1
    calc (s.metrics.keys.map fun m => (bytes (window t u (d m).sends) : ℚ)).sum
        ≤ (s.metrics.keys.map fun m => s.share * (u - t) + B m).sum := List.sum_le_sum hone
      _ = (s.metrics.keys.length * s.share : Int) * (u - t) +
            (s.metrics.keys.map fun m => (B m : ℚ)).sum := by
          rw [List.sum_map_add, List.map_const', List.sum_replicate, nsmul_eq_mul]
          push_cast
          ring
      _ ≤ s.maxBps * (u - t) + (s.metrics.keys.map fun m => (B m : ℚ)).sum :=
          add_le_add_left (mul_le_mul_of_nonneg_right hsum hlen) _

end Loops

theorem two_flags_in_budget : ∃ s d, Calls (init "fair" 100) twoMetrics s ∧
    (∀ m ∈ s.metrics, @Serves Bool twoFloats Pydantic.strict DownlinkLoop.sameText s m d) ∧
    bytes d.sends = 156 ∧
    (s.metrics.keys.map fun _ => (bytes (window 0 1 d.sends) : ℚ)).sum ≤
      (100 : Int) * (1 - 0) + (s.metrics.keys.map fun _ => ((156 : Nat) : ℚ)).sum := by
  have hrun : ∃ s, Trace.exec (Trace.given OneByOne step) (init "fair" 100) twoMetrics = some s ∧
      s.Quiescent ∧ s.metrics.keys.length = 2 ∧ ∀ m ∈ s.metrics.keys,
        s.subscription m = some ⟨m, 50, .running⟩ := by
    refine ⟨_, rfl, ⟨rfl, rfl⟩, by decide, by decide⟩
  obtain ⟨s, hs, hq, hlen, hsub⟩ := hrun
  have hcalls := Trace.run_of_exec_given hs
  obtain ⟨es, d, hd, _, _, _, hsends⟩ := @DownlinkLoop.send_steps Bool twoFloats Pydantic.strict
    DownlinkLoop.sameText 50 (by decide) (.start 0 0) rfl _
    (DownlinkLoop.readings_readable _ (List.mem_cons_self ..)) rfl
  have hflag := DownlinkLoop.readings_length
  obtain ⟨data, hdata⟩ : ∃ data,
      @encodeMessage Bool twoFloats (.sample (flagSample false)) = data := ⟨_, rfl⟩
  rw [hdata] at hflag hsends
  have hlength : ∀ a ∈ d.sends, a.data.length = 156 := by
    intro a ha
    rw [hsends] at ha
    rw [List.mem_singleton.mp ha]
    exact hflag
  have hserves : ∀ m ∈ s.metrics,
      @Serves Bool twoFloats Pydantic.strict DownlinkLoop.sameText s m d := fun m hm =>
    ⟨⟨m, 50, .running⟩, 0, 0, es, hsub m (AList.mem_keys.mp hm), hd⟩
  refine ⟨s, d, hcalls, hserves, ?_, ?_⟩
  · rw [hsends]
    exact hflag
  · exact @budget_kept Bool twoFloats Pydantic.strict DownlinkLoop.sameText 100 twoMetrics s hcalls
      hq (by rw [hlen]; decide) (fun _ => d) hserves (fun _ => 156)
      (fun _ _ a ha => (hlength a ha).le) 0 1 zero_le_one

end EndToEnd
end BvexLink
