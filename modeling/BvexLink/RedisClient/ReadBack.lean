import BvexLink.Onboard.DownlinkLoop
import BvexLink.RedisClient.Sample

/-!
# BvexLink.RedisClient.ReadBack

Whether what the setters put in the cache and on the channel can be read: the same text goes to
`get_sample`, to a `SampleSubscriber` and to a poll of `downlink_loop`.

* `readBack_iff`: no reader raises exactly if the numbers are finite and the integers not too long.
* `set_read_back_iff`: the same for each call of a setter.
-/

namespace BvexLink
namespace RedisClient

open Wire Json Codec Ground Onboard

section ReadBack

variable {F : Type} [Primitives F]

/-- No reader raises on the text of the sample. -/
structure ReadBack (py : Pydantic) (sample : Sample F) : Prop where
  accepted : ∃ read : Sample F, Sample.modelValidateJson py sample.modelDumpJson = .ok read
  cached : ∀ (s : Redis F) (k : Nat), ∃ read,
    (s.set k sample).getSample py sample.metadata.metric_id = .ok read
  published : ∀ s : Redis F, s.metricId = sample.metadata.metric_id →
    (s.onMessage py sample.modelDumpJson).listening = s.listening
  polled : ∀ (same : Sample F → Sample F → Bool) (bps : Int) (s : DownlinkLoop F),
    s.pc = .getting → ∃ t, DownlinkLoop.step py same bps s
      (.got (some (Utf8.encode sample.modelDumpJson))) = some t ∧ ∀ x, t.pc ≠ .ended x

/-- The numbers of a call are finite, and the parser takes its integers. -/
def Call.Readable : Call F → Prop
  | .setSample _ sample => sample.Readable
  | .setSamplePrimitive _ value time => value.Finite ∧ Primitives.isFinite time = true ∧
      ∀ z, value = .int z → (printInt z).length ≤ 4300
  | .setSampleFile _ _ _ time => Primitives.isFinite time = true

theorem onSample_not_ended (py : Pydantic) (same : Sample F → Sample F → Bool) (s : DownlinkLoop F)
    (sample : Sample F) (x : LoopExit) :
    (s.onSample py same sample).pc ≠ .ended x := by
  rw [DownlinkLoop.onSample, downlinkLatestSample_eq]
  split
  · simp
  · simp

theorem readBack_iff (hF : FloatsRoundTrip F) (py : Pydantic) (sample : Sample F) :
    ReadBack py sample ↔ sample.Readable := by
  constructor
  · intro h
    obtain ⟨read, hread⟩ := h.accepted
    exact ((Sample.modelValidateJson_dump_eq_ok hF).mp hread).2
  · intro hr
    have hread := (Sample.modelValidateJson_dump_iff hF py sample).mpr hr
    refine ⟨⟨sample, hread⟩, fun s k => ⟨some sample, ?_⟩, fun s hm => ?_, fun same bps s hpc => ?_⟩
    · simp only [Redis.getSample, Redis.set, Function.update_self, hread]
      rfl
    · simp only [Redis.onMessage, hread, if_pos hm.symm]
    · have hget : getSampleAsync py (some (Utf8.encode sample.modelDumpJson)) = .ok sample :=
        (getSampleAsync_encode hF).mpr ⟨rfl, hr⟩
      refine ⟨s.onSample py same sample, ?_, onSample_not_ended py same s sample⟩
      simp only [DownlinkLoop.step, hpc, hget]

theorem readable_iff_of_float {sample : Sample F} {time : F}
    (ht : sample.metadata.timestamp = .inl time) :
    sample.Readable ↔ Primitives.isFinite time = true ∧ sample.data.Finite ∧
      ∀ p z, sample.data = .primitive p → p.value = .int z → (printInt z).length ≤ 4300 := by
  constructor
  · intro h
    exact ⟨h.finite.metadata time ht, h.finite.data, h.short.data⟩
  · rintro ⟨htime, hdata, hshort⟩
    refine ⟨⟨fun x hx => ?_, hdata⟩, fun z hz => ?_, hshort⟩
    · rw [ht] at hx
      cases hx
      exact htime
    · rw [ht] at hz
      cases hz

/-- Whatever a setter is called with, it puts a sample in the cache and on the channel, and its text
can be read if and only if its numbers are finite and its integers not too long. -/
theorem set_read_back_iff (hF : FloatsRoundTrip F) (py : Pydantic) (c : Call F) :
    ∃ sample, c.sample = .ok sample ∧ (ReadBack py sample ↔ c.Readable) := by
  cases c with
  | setSample metric_id sample => exact ⟨sample, rfl, readBack_iff hF py sample⟩
  | setSamplePrimitive metric_id value time =>
    let sample : Sample F := ⟨⟨metric_id, .inl time, .primitive⟩, .primitive ⟨_, value, rfl⟩, rfl⟩
    have ht : sample.metadata.timestamp = .inl time := rfl
    refine ⟨sample, ?_, (readBack_iff hF py sample).trans ((readable_iff_of_float ht).trans ?_)⟩
    · rw [Call.sample, PrimitiveData.fromValue_eq]
      exact Sample.new_eq_ok.mpr ⟨rfl, rfl⟩
    · constructor
      · rintro ⟨htime, hdata, hshort⟩
        exact ⟨hdata, htime, fun z hz => hshort _ z rfl hz⟩
      · rintro ⟨hvalue, htime, hshort⟩
        refine ⟨htime, hvalue, fun p z hp hz => ?_⟩
        cases hp
        exact hshort z hz
  | setSampleFile metric_id filename data time =>
    let sample : Sample F := ⟨⟨metric_id, .inl time, .file⟩, .file ⟨filename, data⟩, rfl⟩
    have ht : sample.metadata.timestamp = .inl time := rfl
    refine ⟨sample, Sample.new_eq_ok.mpr ⟨rfl, rfl⟩,
      (readBack_iff hF py sample).trans ((readable_iff_of_float ht).trans ?_)⟩
    exact and_iff_left ⟨trivial, nofun⟩

end ReadBack

/-! ## Two calls -/

@[reducible] def nanFloats : Primitives (Option Bool) where
  isFinite x := x.isSome
  lit x := twoFloats.lit (x.getD false)
  ofLit l := some (twoFloats.ofLit l)
  ofConstant _ := none
  intOfFloat
    | some b => twoFloats.intOfFloat b
    | none => .error "cannot convert float NaN to integer"
  floatOfInt z := (twoFloats.floatOfInt z).map some
  floatOfStr s := if s = "nan" then .ok none else (twoFloats.floatOfStr s).map some
  strOfFloat
    | some b => twoFloats.strOfFloat b
    | none => "nan"
  isTrue x := x != some false
  decimal _ := none
  invalidLiteral := twoFloats.invalidLiteral
  laxNumber _ := none

theorem nanFloats_roundTrip : @FloatsRoundTrip (Option Bool) nanFloats := by
  refine @FloatsRoundTrip.mk _ nanFloats (fun x hx => ?_) fun x hx => ?_
  · cases x with
    | none => cases hx
    | some b => exact congrArg some (@FloatsRoundTrip.ofLit_lit Bool twoFloats twoFloats_roundTrip b rfl)
  · cases x with
    | none => cases hx
    | some b => exact @FloatsRoundTrip.short Bool twoFloats twoFloats_roundTrip b rfl

theorem finite_float_read_back : ∃ sample,
    @Call.sample _ nanFloats (.setSamplePrimitive "temp" (.float (some true)) (some false)) =
      .ok sample ∧ @ReadBack _ nanFloats Pydantic.strict sample := by
  obtain ⟨sample, hc, h⟩ := @set_read_back_iff _ nanFloats nanFloats_roundTrip Pydantic.strict
    (.setSamplePrimitive "temp" (.float (some true)) (some false))
  exact ⟨sample, hc, h.mpr ⟨rfl, rfl, nofun⟩⟩

/-- `set_sample_primitive(r, "temp", math.nan)` puts a text nobody can read in the cache. -/
theorem nan_not_read_back : ¬∀ (py : Pydantic) (c : Call (Option Bool)) (s : Sample (Option Bool)),
    @Call.sample _ nanFloats c = .ok s → @ReadBack _ nanFloats py s := by
  intro h
  have hread := h Pydantic.strict (.setSamplePrimitive "temp" (.float none) (some false)) _ rfl
  have hr := (@readBack_iff _ nanFloats nanFloats_roundTrip _ _).mp hread
  have hnan : @Primitives.isFinite _ nanFloats none = true :=
    @Sample.Finite.data _ nanFloats _ (@Sample.Readable.finite _ nanFloats _ hr)
  cases hnan

end RedisClient
end BvexLink
