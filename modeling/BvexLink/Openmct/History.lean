import BvexLink.Codec.Equality
import BvexLink.Openmct.Sample

/-!
# BvexLink.Openmct.History

Historical queries: `TelemetryHistoryManager` of `telemetry_history_manager.py` on one sorted set a
metric, and the `request` of `historical-telemetry-plugin.ts`. Times are exact rationals.

* `mem_range`: which texts a query by score gives.
* `endpoint_ok`: what the endpoint returns.
* `request_exact_iff`: when a request returns the recorded samples of its range.
-/

namespace BvexLink
namespace Openmct

open Codec Wire Json Ground

section History

variable {F : Type} [Primitives F]

/-! ## The server -/

/-- A sorted set: its members, each with its score. -/
abbrev SortedSet := AList fun _ : String => Number

abbrev History := String → SortedSet

def historyKey (metric_id : String) : String := "telemetry_history:" ++ metric_id

variable (v : FloatValues F)

def score (sample : Sample F) : Number := timestampNumber v sample.metadata.timestamp

/-- `add_sample`: redis refuses a score that is `nan`, and a member that is there gets a new one. -/
def addSample (h : History) (sample : Sample F) : History :=
  let key := historyKey sample.metadata.metric_id
  if score v sample = .nan then h
  else Function.update h key ((h key).insert sample.modelDumpJson (score v sample))

/-- The history after `clear_history` and these calls of `add_sample`. -/
def history (samples : List (Sample F)) : History := samples.foldl (addSample v) fun _ => ∅

/-- A member and its score, if that is between the two bounds. -/
def inScores (min max : ℚ) (e : Sigma fun _ : String => Number) : Option (ℚ × String) :=
  match e.2 with
  | .finite q => if min ≤ q ∧ q ≤ max then some (q, e.1) else none
  | _ => none

/-- `zrangebyscore`: the members by score, and those of one score by their text. -/
def zrangebyscore (set : SortedSet) (min max : ℚ) : List String :=
  ((set.entries.filterMap (inScores min max)).mergeSort fun a b =>
    a.1 < b.1 ∨ a.1 = b.1 ∧ a.2 ≤ b.2).map Prod.snd

/-- The arguments of `http_endpoint`, with the seconds that the dates denote. -/
structure Query where
  metric_id : String
  start : ℚ
  end_ : ℚ

def httpEndpoint (py : Pydantic) (h : History) (q : Query) : Except Errors (List (Sample F)) :=
  (zrangebyscore (h (historyKey q.metric_id)) q.start q.end_).mapM (Sample.modelValidateJson py)

/-! ## The client -/

inductive RequestError where
  | rangeError
  | typeError
  | syntaxError
  | sample (e : Thrown)
  | outOfRange (timestamp : ℚ)

structure RequestOptions where
  start : ℚ
  end_ : ℚ

def TelemetryPoint.timestamp {N : Type} : TelemetryPoint N → N
  | .primitive timestamp _ _ => timestamp
  | .image timestamp _ _ => timestamp

def TelemetryPoint.id {N : Type} : TelemetryPoint N → String
  | .primitive _ _ id => id
  | .image _ _ id => id

/-- The whole milliseconds towards zero. -/
def wholeMilliseconds (t : ℚ) : ℤ := if 0 ≤ t then ⌊t⌋ else ⌈t⌉

/-- The date that the text of `new Date(t).toISOString()` denotes; `none` is a `RangeError`. -/
def dateOf (t : ℚ) : Option ℤ :=
  if |t| ≤ 8640000000000000 then some (wholeMilliseconds t) else none

/-- `x || y`. -/
def orElse (x y : ℚ) : ℚ := if x = 0 then y else x

variable (n : Numbers ℚ)

/-- A sample of the response as a telemetry point. -/
def toPoint (sample : Sample F) : Except Thrown (TelemetryPoint ℚ) :=
  match SampleInterface.parse n sample.modelDumpJson with
  | some s => sampleToTelemetryPoint n s
  | none => .error .typeError

/-- What the url of a request leads to: `http_endpoint`, called with these arguments, a list found
elsewhere (in a file below `/files`), or a response that is no list of samples, as for a date that is
refused. -/
inductive Reached where
  | endpoint (q : Query)
  | list (data : List (SampleInterface ℚ))
  | other

/-- Where the url of a key and two dates in milliseconds leads. The key stands unescaped in it, and can
bring its own bounds. -/
abbrev Route := String → ℤ → ℤ → Reached

/-- The points of the response. -/
def reply (py : Pydantic) (h : History) : Reached → Except RequestError (List (TelemetryPoint ℚ))
  | .endpoint q =>
    match httpEndpoint (F := F) py h q with
    -- the response of an internal error is not JSON
    | .error _ => .error .syntaxError
    | .ok samples => (samples.mapM (toPoint n)).mapError .sample
  | .list data => (data.mapM (sampleToTelemetryPoint n)).mapError .sample
  | .other => .error .typeError

/-- `request` at the time `now`. -/
def request (py : Pydantic) (route : Route) (h : History) (now : ℚ) (key : String)
    (options : RequestOptions) : Except RequestError (List (TelemetryPoint ℚ)) :=
  match dateOf (orElse options.start 0), dateOf (orElse options.end_ now) with
  | some start_date, some end_date =>
    match reply (F := F) n py h (route key start_date end_date) with
    | .error e => .error e
    | .ok points =>
      match points.find? fun p => p.timestamp < options.start ∨ p.timestamp > options.end_ with
      | some p => .error (.outOfRange p.timestamp)
      | none => .ok points
  | _, _ => .error .rangeError

/-! ## Queries by score -/

theorem inScores_eq_some {min max : ℚ} {e : Sigma fun _ : String => Number} {q : ℚ} {t : String} :
    inScores min max e = some (q, t) ↔ e = ⟨t, .finite q⟩ ∧ min ≤ q ∧ q ≤ max := by
  obtain ⟨t', s⟩ := e
  cases s with
  | finite q' =>
    simp only [inScores]
    split
    · rename_i h
      simp only [Option.some.injEq, Prod.mk.injEq, Sigma.mk.injEq, heq_eq_eq, Number.finite.injEq]
      constructor
      · rintro ⟨rfl, rfl⟩
        exact ⟨⟨rfl, rfl⟩, h⟩
      · rintro ⟨⟨rfl, rfl⟩, _⟩
        exact ⟨rfl, rfl⟩
    · rename_i h
      refine iff_of_false (by simp) ?_
      rintro ⟨he, hq⟩
      cases he
      exact h hq
  | infinite _ => simp [inScores]
  | nan => simp [inScores]

theorem range_perm (set : SortedSet) (min max : ℚ) : (zrangebyscore set min max).Perm
    ((set.entries.filterMap (inScores min max)).map Prod.snd) :=
  (List.mergeSort_perm _ _).map _

theorem mem_range {set : SortedSet} {min max : ℚ} {t : String} :
    t ∈ zrangebyscore set min max ↔ ∃ q, set.lookup t = some (.finite q) ∧ min ≤ q ∧ q ≤ max := by
  rw [(range_perm set min max).mem_iff, List.mem_map]
  constructor
  · rintro ⟨⟨q, _⟩, hmem, rfl⟩
    obtain ⟨e, he, hq⟩ := List.mem_filterMap.mp hmem
    obtain ⟨rfl, hb⟩ := inScores_eq_some.mp hq
    exact ⟨q, AList.mem_lookup_iff.mpr he, hb⟩
  · rintro ⟨q, hl, hq⟩
    exact ⟨(q, t), List.mem_filterMap.mpr
      ⟨⟨t, .finite q⟩, AList.mem_lookup_iff.mp hl, inScores_eq_some.mpr ⟨rfl, hq⟩⟩, rfl⟩

theorem nodup_range (set : SortedSet) (min max : ℚ) : (zrangebyscore set min max).Nodup := by
  have hsub : ∀ entries : List (Sigma fun _ : String => Number),
      ((entries.filterMap (inScores min max)).map Prod.snd).Sublist (entries.map Sigma.fst) := by
    intro entries
    induction entries with
    | nil => exact .slnil
    | cons e entries ih =>
      cases hq : inScores min max e with
      | none =>
        rw [List.filterMap_cons_none hq]
        exact ih.trans (List.sublist_cons_self ..)
      | some x =>
        obtain ⟨q, t⟩ := x
        obtain ⟨rfl, _⟩ := inScores_eq_some.mp hq
        rw [List.filterMap_cons_some hq]
        exact ih.cons_cons _
  exact (range_perm set min max).nodup_iff.mpr (set.keys_nodup.sublist (hsub set.entries))

/-! ## What is recorded -/

variable {v}

theorem timestampJson_inj (hF : FloatsRoundTrip F) {a b : F ⊕ Int}
    (h : timestampJson a = timestampJson b) {q : ℚ} (hq : timestampNumber v a = .finite q) :
    b = a := by
  cases a with
  | inl x =>
    have hx : Primitives.isFinite x = true := (v.finite x).mpr ⟨q, hq⟩
    rw [timestampJson, floatJson, if_pos hx] at h
    cases b with
    | inl y =>
      rw [timestampJson, floatJson] at h
      split at h
      · rename_i hy
        rw [← hF.ofLit_lit x hx, ← hF.ofLit_lit y hy, Json.float.inj h]
      · cases h
    | inr z => cases h
  | inr z =>
    cases b with
    | inl y =>
      rw [timestampJson, timestampJson, floatJson] at h
      split at h <;> cases h
    | inr z' => rw [Json.int.inj h]

theorem score_of_dump (hF : FloatsRoundTrip F) {x y : Sample F}
    (h : x.modelDumpJson = y.modelDumpJson) :
    y.metadata.metric_id = x.metadata.metric_id ∧
      ∀ q, score v x = .finite q → score v y = .finite q := by
  have hmembers : x.members = y.members := by
    have hprint := congrArg String.toList h
    rw [Sample.modelDumpJson, Sample.modelDumpJson, String.toList_ofList, String.toList_ofList]
      at hprint
    have hdoc := congrArg parseDoc hprint
    rw [parseDoc_print, parseDoc_print] at hdoc
    simpa using hdoc
  simp only [Sample.members, SampleMetadata.members, List.cons.injEq, Prod.mk.injEq, Json.obj.injEq,
    Json.str.injEq, true_and] at hmembers
  obtain ⟨⟨hid, htime, _⟩, _⟩ := hmembers
  refine ⟨hid.symm, fun q hq => ?_⟩
  rw [score, timestampJson_inj hF htime hq]
  exact hq

theorem historyKey_inj {m m' : String} : historyKey m = historyKey m' ↔ m = m' :=
  String.append_right_inj _

theorem lookup_addSample (h : History) (y : Sample F) (m t : String) :
    (addSample v h y (historyKey m)).lookup t =
      if score v y ≠ .nan ∧ y.metadata.metric_id = m ∧ y.modelDumpJson = t then some (score v y)
      else (h (historyKey m)).lookup t := by
  rw [addSample]
  by_cases hnan : score v y = .nan
  · simp [hnan]
  · simp only [if_false, ne_eq, hnan, not_false_eq_true, true_and]
    by_cases hm : y.metadata.metric_id = m
    · simp only [hm, Function.update_self, true_and]
      by_cases ht : y.modelDumpJson = t
      · rw [if_pos ht, ht, AList.lookup_insert]
      · rw [if_neg ht, AList.lookup_insert_ne (Ne.symm ht)]
    · have hne : historyKey m ≠ historyKey y.metadata.metric_id :=
        fun h => hm (historyKey_inj.mp h).symm
      rw [Function.update_of_ne hne, if_neg fun hy => hm hy.1]

/-- What the sets hold: members and scores of recorded samples, and all of them. -/
theorem lookup_history (xs : List (Sample F)) (m t : String) :
    (∀ s, (history v xs (historyKey m)).lookup t = some s →
      ∃ x ∈ xs, x.metadata.metric_id = m ∧ x.modelDumpJson = t ∧ score v x = s) ∧
    ∀ x ∈ xs, x.metadata.metric_id = m → score v x ≠ .nan → x.modelDumpJson = t →
      ((history v xs (historyKey m)).lookup t).isSome := by
  induction xs using List.reverseRecOn with
  | nil =>
    refine ⟨fun s h => ?_, by simp⟩
    simp [history] at h
  | append_singleton xs y ih =>
    have hfold : history v (xs ++ [y]) = addSample v (history v xs) y := by
      rw [history, List.foldl_append]
      rfl
    rw [hfold, lookup_addSample]
    split
    · rename_i hy
      obtain ⟨_, hm, ht⟩ := hy
      refine ⟨fun s h => ⟨y, by simp, hm, ht, Option.some.inj h⟩, fun _ _ _ _ _ => rfl⟩
    · rename_i hy
      refine ⟨fun s h => ?_, fun x hx hm hs ht => ?_⟩
      · obtain ⟨x, hx, h⟩ := ih.1 s h
        exact ⟨x, List.mem_append_left _ hx, h⟩
      · rcases List.mem_append.mp hx with hx | hx
        · exact ih.2 x hx hm hs ht
        · rw [List.mem_singleton.mp hx] at hm hs ht
          exact absurd ⟨hs, hm, ht⟩ hy

variable (v) in
/-- The time of the sample in milliseconds is between the two bounds. -/
def InRange (start end_ : ℚ) (x : Sample F) : Prop :=
  ∃ q, score v x = .finite q ∧ start ≤ 1000 * q ∧ 1000 * q ≤ end_

theorem mem_recorded (hF : FloatsRoundTrip F) {xs : List (Sample F)} {m t : String}
    {start end_ : ℚ} :
    t ∈ zrangebyscore (history v xs (historyKey m)) start end_ ↔
      ∃ x ∈ xs, x.metadata.metric_id = m ∧ InRange v (1000 * start) (1000 * end_) x ∧
        x.modelDumpJson = t := by
  have hbounds : ∀ q : ℚ, (start ≤ q ∧ q ≤ end_) ↔
      (1000 * start ≤ 1000 * q ∧ 1000 * q ≤ 1000 * end_) := by
    intro q
    constructor
    · rintro ⟨hs, he⟩
      constructor <;> linarith
    · rintro ⟨hs, he⟩
      constructor <;> linarith
  rw [mem_range]
  constructor
  · rintro ⟨q, hl, hq⟩
    obtain ⟨x, hx, hm, ht, hs⟩ := (lookup_history xs m t).1 _ hl
    exact ⟨x, hx, hm, ⟨q, hs, (hbounds q).mp hq⟩, ht⟩
  · rintro ⟨x, hx, hm, ⟨q, hs, hq⟩, rfl⟩
    have hsome := (lookup_history (v := v) xs m x.modelDumpJson).2 x hx hm (by simp [hs]) rfl
    obtain ⟨s, hl⟩ := Option.isSome_iff_exists.mp hsome
    obtain ⟨y, _, _, hy, hys⟩ := (lookup_history xs m x.modelDumpJson).1 s hl
    -- the score is that of the last sample with this text
    rw [(score_of_dump hF hy.symm).2 q hs] at hys
    rw [hl, ← hys]
    exact ⟨q, rfl, (hbounds q).mpr hq⟩

/-! ## What the endpoint returns -/

theorem mapM_eq_ok {A B E : Type} {f : A → Except E B} {l : List A} {l' : List B} :
    l.mapM f = .ok l' ↔ List.Forall₂ (fun a b => f a = .ok b) l l' := by
  induction l generalizing l' with
  | nil =>
    rw [List.mapM_nil, List.forall₂_nil_left_iff]
    exact ⟨fun h => (Except.ok.inj h).symm, fun h => h ▸ rfl⟩
  | cons a l ih =>
    rw [List.mapM_cons, List.forall₂_cons_left_iff]
    constructor
    · intro h
      obtain ⟨b, hb, h⟩ := bind_eq_ok.mp h
      obtain ⟨bs, hbs, h⟩ := bind_eq_ok.mp h
      cases h
      exact ⟨b, bs, hb, ih.mp hbs, rfl⟩
    · rintro ⟨b, bs, hb, hbs, rfl⟩
      exact bind_eq_ok.mpr ⟨b, hb, bind_eq_ok.mpr ⟨bs, ih.mpr hbs, rfl⟩⟩

theorem exists_forall₂ {A B : Type} {R : A → B → Prop} {l : List A} (h : ∀ a ∈ l, ∃ b, R a b) :
    ∃ l', List.Forall₂ R l l' := by
  induction l with
  | nil => exact ⟨[], .nil⟩
  | cons a l ih =>
    obtain ⟨b, hb⟩ := h a (List.mem_cons_self ..)
    obtain ⟨l', hl⟩ := ih fun a ha => h a (List.mem_cons_of_mem _ ha)
    exact ⟨b :: l', .cons hb hl⟩

theorem validate_texts (hF : FloatsRoundTrip F) (py : Pydantic) {texts : List String}
    (ht : ∀ t ∈ texts, ∃ x : Sample F, x.modelDumpJson = t) {samples : List (Sample F)} :
    List.Forall₂ (fun t x => Sample.modelValidateJson py t = .ok x) texts samples ↔
      texts = samples.map Sample.modelDumpJson ∧ ∀ x ∈ samples, x.Readable := by
  induction samples generalizing texts with
  | nil => simp [List.forall₂_nil_right_iff]
  | cons x samples ih =>
    rw [List.forall₂_cons_right_iff, List.map_cons, List.forall_mem_cons]
    constructor
    · rintro ⟨t, rest, hx, hrest, rfl⟩
      obtain ⟨y, rfl⟩ := ht t (List.mem_cons_self ..)
      obtain ⟨rfl, hread⟩ := (Sample.modelValidateJson_dump_eq_ok hF).mp hx
      obtain ⟨rfl, hall⟩ := (ih fun t h => ht t (List.mem_cons_of_mem _ h)).mp hrest
      exact ⟨rfl, hread, hall⟩
    · rintro ⟨rfl, hread, hall⟩
      refine ⟨_, _, (Sample.modelValidateJson_dump_iff hF py x).mpr hread, ?_, rfl⟩
      exact (ih fun t h => ht t (List.mem_cons_of_mem _ h)).mpr ⟨rfl, hall⟩

variable (v) in
/-- A sample of the metric asked for, between the bounds. -/
def Query.Selects (q : Query) (x : Sample F) : Prop :=
  x.metadata.metric_id = q.metric_id ∧ InRange v (1000 * q.start) (1000 * q.end_) x

/-- The endpoint returns exactly the recorded samples selected, unless the text of one of them cannot
be read. -/
theorem endpoint_ok (hF : FloatsRoundTrip F) (py : Pydantic) (xs : List (Sample F)) (q : Query) :
    (∀ samples : List (Sample F), httpEndpoint py (history v xs) q = .ok samples →
        (∀ x ∈ xs, q.Selects v x → x.Readable) ∧ samples.Nodup ∧
          ∀ x, x ∈ samples ↔ x ∈ xs ∧ q.Selects v x) ∧
    ((∀ x ∈ xs, q.Selects v x → x.Readable) →
      ∃ samples : List (Sample F), httpEndpoint py (history v xs) q = .ok samples) := by
  have hnodup := nodup_range (history v xs (historyKey q.metric_id)) q.start q.end_
  have hmem := fun t => @mem_recorded F _ v hF xs q.metric_id t q.start q.end_
  simp only [httpEndpoint, mapM_eq_ok]
  generalize zrangebyscore (history v xs (historyKey q.metric_id)) q.start q.end_ = texts
    at hnodup hmem
  have ht : ∀ t ∈ texts, ∃ x : Sample F, x.modelDumpJson = t := by
    intro t h
    obtain ⟨x, _, _, _, hx⟩ := (hmem t).mp h
    exact ⟨x, hx⟩
  constructor
  · intro samples h
    obtain ⟨rfl, hread⟩ := (validate_texts hF py ht).mp h
    -- the text of a readable sample is that of no other
    have hsame : ∀ x ∈ samples, ∀ y : Sample F, y.modelDumpJson = x.modelDumpJson → x = y := by
      intro x hx y hy
      have hok := (Sample.modelValidateJson_dump_iff hF py x).mpr (hread x hx)
      rw [← hy] at hok
      exact ((Sample.modelValidateJson_dump_eq_ok hF).mp hok).1
    have hsamples : ∀ x, x ∈ samples ↔ x ∈ xs ∧ q.Selects v x := by
      intro x
      constructor
      · intro hx
        obtain ⟨y, hy, hm, hr, he⟩ := (hmem _).mp (List.mem_map_of_mem hx)
        obtain rfl := hsame x hx y he
        exact ⟨hy, hm, hr⟩
      · rintro ⟨hx, hm, hr⟩
        obtain ⟨y, hy, he⟩ := List.mem_map.mp ((hmem _).mpr ⟨x, hx, hm, hr, rfl⟩)
        obtain rfl := hsame y hy x he.symm
        exact hy
    exact ⟨fun x hx hs => hread x ((hsamples x).mpr ⟨hx, hs⟩), hnodup.of_map _, hsamples⟩
  · intro hread
    refine exists_forall₂ fun t h => ?_
    obtain ⟨x, hx, hm, hr, rfl⟩ := (hmem t).mp h
    exact ⟨x, (Sample.modelValidateJson_dump_iff hF py x).mpr (hread x hx ⟨hm, hr⟩)⟩

/-! ## What a request returns -/

/-- The numbers of the script are exact. -/
structure ExactNumbers (v : FloatValues F) (n : Numbers ℚ) : Prop where
  received : ∀ t q, timestampNumber v t = .finite q → n.received t = q
  times1000 : ∀ y, n.times1000 y = 1000 * y

theorem toPoint_ok (x : Sample F) : ∃ p, toPoint n x = .ok p ∧
    p.timestamp = milliseconds n x ∧ p.id = x.metadata.metric_id := by
  cases hd : x.data with
  | primitive d =>
    have hw : x.metadata.which_data_type = .primitive := by
      rw [← x.ok, hd]
      rfl
    refine ⟨.primitive (milliseconds n x) (some d.value.toJson) x.metadata.metric_id, ?_, rfl, rfl⟩
    unfold toPoint
    rw [parse_modelDumpJson, hw, hd]
    rfl
  | file f =>
    have hw : x.metadata.which_data_type = .file := by
      rw [← x.ok, hd]
      rfl
    refine ⟨.image (milliseconds n x)
      (String.ofList (fileName (n.text (milliseconds n x)) f.filename)) x.metadata.metric_id,
      ?_, rfl, rfl⟩
    unfold toPoint
    rw [parse_modelDumpJson, hw, hd]
    rfl

variable (v) in
/-- The distinct recorded samples of the metric in the range of a request. -/
structure AskedFor (xs : List (Sample F)) (key : String) (options : RequestOptions)
    (l : List (Sample F)) : Prop where
  nodup : l.Nodup
  mem : ∀ x, x ∈ l ↔
    x ∈ xs ∧ x.metadata.metric_id = key ∧ InRange v options.start options.end_ x

/-- The request returns their points. -/
def ReturnsExactly (v : FloatValues F) (n : Numbers ℚ) (xs : List (Sample F)) (key : String)
    (options : RequestOptions) (result : Except RequestError (List (TelemetryPoint ℚ))) : Prop :=
  ∃ l points, AskedFor v xs key options l ∧ l.mapM (toPoint n) = .ok points ∧ result = .ok points

/-- The recorded samples that are selected at the endpoint are those asked for and can be read. A list
found elsewhere has the points of those asked for. -/
def Reached.Serves (v : FloatValues F) (n : Numbers ℚ) (xs : List (Sample F)) (key : String)
    (options : RequestOptions) : Reached → Prop
  | .endpoint q => ∀ x ∈ xs, (q.Selects v x → x.Readable) ∧
      (q.Selects v x ↔ x.metadata.metric_id = key ∧ InRange v options.start options.end_ x)
  | .list data => ∃ l, AskedFor v xs key options l ∧
      data.mapM (sampleToTelemetryPoint n) = l.mapM (toPoint n)
  | .other => False

/-- The two bounds are in the range of a `Date`, and the url with the bounds in whole milliseconds
leads to where the request is served. -/
structure RangeServed (v : FloatValues F) (n : Numbers ℚ) (route : Route) (xs : List (Sample F))
    (now : ℚ) (key : String) (options : RequestOptions) : Prop where
  start : |options.start| ≤ 8640000000000000
  end_ : |orElse options.end_ now| ≤ 8640000000000000
  samples : (route key (wholeMilliseconds options.start)
    (wholeMilliseconds (orElse options.end_ now))).Serves v n xs key options

theorem dateOf_of_le {t : ℚ} (h : |t| ≤ 8640000000000000) : dateOf t = some (wholeMilliseconds t) :=
  if_pos h

theorem dateOf_of_not_le {t : ℚ} (h : ¬|t| ≤ 8640000000000000) : dateOf t = none := if_neg h

theorem orElse_zero (x : ℚ) : orElse x 0 = x := by
  unfold orElse
  split
  · rename_i h
    exact h.symm
  · rfl

theorem reply_endpoint_eq_ok {py : Pydantic} {h : History} {q : Query}
    {points : List (TelemetryPoint ℚ)} : reply (F := F) n py h (.endpoint q) = .ok points ↔
      ∃ samples, httpEndpoint (F := F) py h q = .ok samples ∧
        samples.mapM (toPoint n) = .ok points := by
  rw [reply]
  cases (httpEndpoint py h q : Except Errors (List (Sample F))) with
  | error e => simp
  | ok samples => simp

theorem reply_list_eq_ok {py : Pydantic} {h : History} {data : List (SampleInterface ℚ)}
    {points : List (TelemetryPoint ℚ)} : reply (F := F) n py h (.list data) = .ok points ↔
      data.mapM (sampleToTelemetryPoint n) = .ok points := by
  rw [reply, mapError_eq_ok]

theorem request_eq_ok {py : Pydantic} {route : Route} {h : History} {now : ℚ}
    {key : String} {options : RequestOptions} {points : List (TelemetryPoint ℚ)} :
    request (F := F) n py route h now key options = .ok points ↔
      |options.start| ≤ 8640000000000000 ∧ |orElse options.end_ now| ≤ 8640000000000000 ∧
        reply (F := F) n py h (route key (wholeMilliseconds options.start)
          (wholeMilliseconds (orElse options.end_ now))) = .ok points ∧
        ∀ p ∈ points, options.start ≤ p.timestamp ∧ p.timestamp ≤ options.end_ := by
  unfold request
  rw [orElse_zero]
  by_cases hs : |options.start| ≤ 8640000000000000
  · by_cases he : |orElse options.end_ now| ≤ 8640000000000000
    · rw [dateOf_of_le hs, dateOf_of_le he]
      simp only [hs, he, true_and]
      cases hr : reply (F := F) n py h (route key (wholeMilliseconds options.start)
        (wholeMilliseconds (orElse options.end_ now))) with
      | error e => simp
      | ok ps =>
        simp only [Except.ok.injEq]
        split
        · rename_i p hfind
          refine iff_of_false (by simp) ?_
          rintro ⟨rfl, hall⟩
          have hbad := List.find?_some hfind
          simp only [decide_eq_true_eq] at hbad
          have hin := hall p (List.mem_of_find?_eq_some hfind)
          rcases hbad with hlt | hgt
          · exact absurd hin.1 (not_le.mpr hlt)
          · exact absurd hin.2 (not_le.mpr hgt)
        · rename_i hfind
          rw [Except.ok.injEq]
          refine (and_iff_left_of_imp fun he p hp => ?_).symm
          have hgood := List.find?_eq_none.mp hfind p (he ▸ hp)
          simpa using hgood
    · rw [dateOf_of_le hs, dateOf_of_not_le he]
      exact iff_of_false (by simp) fun h => he h.2.1
  · rw [dateOf_of_not_le hs]
    exact iff_of_false (by simp) fun h => hs h.1

theorem forall₂_mem {A B : Type} {R : A → B → Prop} {l : List A} {l' : List B}
    (h : List.Forall₂ R l l') : (∀ a ∈ l, ∃ b ∈ l', R a b) ∧ ∀ b ∈ l', ∃ a ∈ l, R a b := by
  induction h with
  | nil => simp
  | @cons a b l l' hr _ ih =>
    constructor
    · intro x hx
      rcases List.mem_cons.mp hx with rfl | hx
      · exact ⟨b, List.mem_cons_self .., hr⟩
      · obtain ⟨y, hy, hxy⟩ := ih.1 x hx
        exact ⟨y, List.mem_cons_of_mem _ hy, hxy⟩
    · intro y hy
      rcases List.mem_cons.mp hy with rfl | hy
      · exact ⟨a, List.mem_cons_self .., hr⟩
      · obtain ⟨x, hx, hxy⟩ := ih.2 y hy
        exact ⟨x, List.mem_cons_of_mem _ hx, hxy⟩

variable {n}

theorem toPoint_time (hn : ExactNumbers v n) {x : Sample F} {p : TelemetryPoint ℚ} {q : ℚ}
    (hp : toPoint n x = .ok p) (hq : score v x = .finite q) :
    p.timestamp = 1000 * q ∧ p.id = x.metadata.metric_id := by
  obtain ⟨p', hp', ht, hid⟩ := toPoint_ok n x
  rw [hp] at hp'
  cases hp'
  refine ⟨?_, hid⟩
  rw [ht, milliseconds, hn.times1000, hn.received _ q hq]

theorem request_samples (hF : FloatsRoundTrip F) (hn : ExactNumbers v n) {py : Pydantic}
    {route : Route} {xs : List (Sample F)} {now : ℚ} {key : String} {q : Query}
    {options : RequestOptions} {points : List (TelemetryPoint ℚ)}
    (hroute : route key (wholeMilliseconds options.start)
      (wholeMilliseconds (orElse options.end_ now)) = .endpoint q)
    (h : request (F := F) n py route (history v xs) now key options = .ok points) :
    ∃ samples, samples.Nodup ∧ List.Forall₂ (fun x p => toPoint n x = .ok p) samples points ∧
      (∀ x, x ∈ samples ↔ x ∈ xs ∧ q.Selects v x) ∧
      ∀ x ∈ samples, x.Readable ∧ InRange v options.start options.end_ x := by
  obtain ⟨_, _, hreply, hcheck⟩ := (request_eq_ok n).mp h
  rw [hroute] at hreply
  obtain ⟨samples, hend, hmap⟩ := (reply_endpoint_eq_ok n).mp hreply
  obtain ⟨hread, hnodup, hsamples⟩ := (endpoint_ok hF py xs q).1 samples hend
  have hp := mapM_eq_ok.mp hmap
  refine ⟨samples, hnodup, hp, hsamples, fun x hx => ?_⟩
  obtain ⟨hxs, hsel⟩ := (hsamples x).mp hx
  refine ⟨hread x hxs hsel, ?_⟩
  obtain ⟨_, time, htime, _⟩ := hsel
  obtain ⟨p, hpp, hxp⟩ := (forall₂_mem hp).1 x hx
  have hin := hcheck p hpp
  rw [(toPoint_time hn hxp htime).1] at hin
  exact ⟨time, htime, hin⟩

theorem AskedFor.points (hn : ExactNumbers v n) {xs l : List (Sample F)} {key : String}
    {options : RequestOptions} (hl : AskedFor v xs key options l) :
    ∃ points, l.mapM (toPoint n) = .ok points ∧
      ∀ p ∈ points, options.start ≤ p.timestamp ∧ p.timestamp ≤ options.end_ := by
  obtain ⟨points, hp⟩ := exists_forall₂ (l := l) fun x _ => (toPoint_ok n x).imp fun _ h => h.1
  refine ⟨points, mapM_eq_ok.mpr hp, fun p hpp => ?_⟩
  obtain ⟨x, hx, hxp⟩ := (forall₂_mem hp).2 p hpp
  obtain ⟨_, _, time, htime, hin⟩ := (hl.mem x).mp hx
  rw [(toPoint_time hn hxp htime).1]
  exact hin

theorem serves_of_returns (hF : FloatsRoundTrip F) (hn : ExactNumbers v n) {py : Pydantic}
    {route : Route} {xs : List (Sample F)} {now : ℚ} {key : String} {options : RequestOptions}
    (h : ReturnsExactly v n xs key options
      (request (F := F) n py route (history v xs) now key options)) :
    (route key (wholeMilliseconds options.start)
      (wholeMilliseconds (orElse options.end_ now))).Serves v n xs key options := by
  obtain ⟨l, points, hl, hpoints, hok⟩ := h
  obtain ⟨_, _, hreply, _⟩ := (request_eq_ok n).mp hok
  cases hroute : route key (wholeMilliseconds options.start)
    (wholeMilliseconds (orElse options.end_ now)) with
  | other =>
    rw [hroute] at hreply
    cases hreply
  | list data =>
    rw [hroute] at hreply
    exact ⟨l, hl, ((reply_list_eq_ok n).mp hreply).trans hpoints.symm⟩
  | endpoint q =>
    obtain ⟨samples, hsnodup, hp', hsamples, hserved⟩ := request_samples hF hn hroute hok
    have hp := mapM_eq_ok.mp hpoints
    have hsub : ∀ x ∈ samples, x ∈ l := by
      intro x hx
      obtain ⟨hxs, _, time, htime, _⟩ := (hsamples x).mp hx
      -- its point is one of the points asked for
      obtain ⟨p, hpp, hxp⟩ := (forall₂_mem hp').1 x hx
      obtain ⟨y, hy, hyp⟩ := (forall₂_mem hp).2 p hpp
      obtain ⟨_, hykey, timey, htimey, _⟩ := (hl.mem y).mp hy
      have hid := (toPoint_time hn hxp htime).2.symm.trans (toPoint_time hn hyp htimey).2
      exact (hl.mem x).mpr ⟨hxs, hid.trans hykey, (hserved x hx).2⟩
    have hlen : l.length ≤ samples.length := (hp.length_eq.trans hp'.length_eq.symm).le
    have hperm := (List.subperm_of_subset hsnodup hsub).perm_of_length_le hlen
    refine fun x hx => ⟨fun h => ?_, ?_⟩
    · exact (hserved x ((hsamples x).mpr ⟨hx, h⟩)).1
    · have hiff := hperm.mem_iff (a := x)
      rw [hsamples, hl.mem] at hiff
      simpa [hx] using hiff

/-- Where the request is served, the reply has the points of the samples asked for. -/
theorem reply_of_serves (hF : FloatsRoundTrip F) (py : Pydantic) {xs : List (Sample F)}
    {key : String} {options : RequestOptions} {reached : Reached}
    (h : reached.Serves v n xs key options) : ∃ l, AskedFor v xs key options l ∧
      ∀ points, l.mapM (toPoint n) = .ok points →
        reply (F := F) n py (history v xs) reached = .ok points := by
  cases reached with
  | other => exact absurd h id
  | list data =>
    obtain ⟨l, hl, hdata⟩ := h
    exact ⟨l, hl, fun points hp => (reply_list_eq_ok n).mpr (hdata.trans hp)⟩
  | endpoint q =>
    obtain ⟨samples, hend⟩ := (endpoint_ok hF py xs q).2 fun x hx => (h x hx).1
    obtain ⟨_, hnodup, hsamples⟩ := (endpoint_ok hF py xs q).1 samples hend
    refine ⟨samples, ⟨hnodup, fun x => ?_⟩, fun points hp =>
      (reply_endpoint_eq_ok n).mpr ⟨samples, hend, hp⟩⟩
    rw [hsamples]
    exact and_congr_right fun hx => (h x hx).2

/-- A request returns exactly the samples of its range, if and only if these are served. -/
theorem request_exact_iff (hF : FloatsRoundTrip F) (hn : ExactNumbers v n) (py : Pydantic)
    (route : Route) (xs : List (Sample F)) (now : ℚ) (key : String) (options : RequestOptions) :
    ReturnsExactly v n xs key options
        (request (F := F) n py route (history v xs) now key options) ↔
      RangeServed v n route xs now key options := by
  constructor
  · intro h
    have hserves := serves_of_returns hF hn h
    obtain ⟨_, _, _, _, hok⟩ := h
    obtain ⟨hs, he, _⟩ := (request_eq_ok n).mp hok
    exact ⟨hs, he, hserves⟩
  · rintro ⟨hs, he, hserves⟩
    obtain ⟨l, hl, hreply⟩ := reply_of_serves hF py hserves
    obtain ⟨points, hpoints, hcheck⟩ := hl.points hn
    exact ⟨l, points, hl, hpoints,
      (request_eq_ok n).mpr ⟨hs, he, hreply points hpoints, hcheck⟩⟩

/-- The url of the key leads to the endpoint with the key and the two dates. -/
def Route.Plain (route : Route) (key : String) (start_date end_date : ℤ) : Prop :=
  route key start_date end_date = .endpoint ⟨key, start_date / 1000, end_date / 1000⟩

/-- For such a key the truncated bounds have to select what the bounds do. -/
theorem rangeServed_of_plain {route : Route} {xs : List (Sample F)} {now : ℚ} {key : String}
    {options : RequestOptions} (hs : |options.start| ≤ 8640000000000000)
    (he : |orElse options.end_ now| ≤ 8640000000000000)
    (hp : route.Plain key (wholeMilliseconds options.start)
      (wholeMilliseconds (orElse options.end_ now)))
    (h : ∀ x ∈ xs, x.metadata.metric_id = key →
      (InRange v (wholeMilliseconds options.start)
        (wholeMilliseconds (orElse options.end_ now)) x → x.Readable) ∧
      (InRange v (wholeMilliseconds options.start)
          (wholeMilliseconds (orElse options.end_ now)) x ↔
        InRange v options.start options.end_ x)) :
    RangeServed v n route xs now key options := by
  refine ⟨hs, he, ?_⟩
  rw [hp]
  intro x hx
  rw [Query.Selects, mul_div_cancel₀ _ (by norm_num), mul_div_cancel₀ _ (by norm_num)]
  exact ⟨fun hsel => (h x hx hsel.1).1 hsel.2, and_congr_right fun hm => (h x hx hm).2⟩

end History

/-! ## An instance -/

def zeroValue : @FloatValues Unit zeroFloat :=
  @FloatValues.mk Unit zeroFloat (fun _ => .finite 0) fun _ => ⟨fun _ => ⟨0, rfl⟩, fun _ => rfl⟩

/-- Numbers of which the tokens of integers and of zero are read exactly. -/
def exactNumbers : Numbers ℚ where
  finite _ := true
  ofToken t := (intToken t).getD 0
  zero := 0
  times1000 y := 1000 * y
  text y := toString y

theorem exactNumbers_exact : @ExactNumbers Unit zeroFloat zeroValue exactNumbers := by
  refine @ExactNumbers.mk Unit zeroFloat zeroValue exactNumbers ?_ fun _ => rfl
  intro t q h
  cases t with
  | inl x =>
    rw [← Number.finite.inj h]
    rfl
  | inr z =>
    rw [← Number.finite.inj h]
    show (((intToken (printInt z)).getD 0 : ℤ) : ℚ) = z
    rw [intToken_printInt]
    rfl

def flagAt (z : ℤ) : Sample Unit :=
  ⟨⟨"temp", .inr z, .primitive⟩, .primitive ⟨.bool, .bool true, rfl⟩, rfl⟩

theorem inRange_flagAt {z : ℤ} {start end_ : ℚ} :
    @InRange Unit zeroFloat zeroValue start end_ (flagAt z) ↔
      start ≤ 1000 * z ∧ 1000 * z ≤ end_ := by
  have hs : @score Unit zeroFloat zeroValue (flagAt z) = .finite z := rfl
  simp only [InRange, hs, Number.finite.injEq, exists_eq_left']

theorem zeroFloat_roundTrip : @FloatsRoundTrip Unit zeroFloat :=
  @FloatsRoundTrip.mk Unit zeroFloat (fun _ _ => rfl) fun _ _ => rfl

theorem flagAt_readable {z : ℤ} (hz : (printInt z).length ≤ 4300) :
    @Sample.Readable Unit zeroFloat (flagAt z) := by
  refine @Sample.Readable.mk Unit zeroFloat _
    (@Sample.Finite.mk Unit zeroFloat _ (fun _ _ => rfl) trivial) ⟨?_, ?_⟩
  · rintro z' ⟨⟩
    exact hz
  · rintro p z' ⟨⟩ ⟨⟩

theorem wholeMilliseconds_intCast (z : ℤ) : wholeMilliseconds z = z := by
  simp [wholeMilliseconds]

/-- The urls of keys that need no escape. -/
def plainRoute : Route := fun key start_date end_date =>
  .endpoint ⟨key, start_date / 1000, end_date / 1000⟩

/-- Of samples at 1000 ms and 3000 ms a request from 0 ms to 1500 ms returns the first. -/
theorem first_sample_returned : @ReturnsExactly Unit zeroFloat zeroValue exactNumbers
    [flagAt 1, flagAt 3] "temp" ⟨0, 1500⟩
    (@request Unit zeroFloat exactNumbers Pydantic.strict plainRoute
      (@history Unit zeroFloat zeroValue [flagAt 1, flagAt 3]) 5000 "temp" ⟨0, 1500⟩) := by
  refine (@request_exact_iff Unit zeroFloat zeroValue exactNumbers zeroFloat_roundTrip
    exactNumbers_exact Pydantic.strict plainRoute [flagAt 1, flagAt 3] 5000 "temp"
    ⟨0, 1500⟩).mpr ?_
  have hend : orElse 1500 5000 = 1500 := by norm_num [orElse]
  have hs : wholeMilliseconds 0 = 0 := wholeMilliseconds_intCast 0
  have he : wholeMilliseconds 1500 = 1500 := wholeMilliseconds_intCast 1500
  refine @rangeServed_of_plain Unit zeroFloat zeroValue exactNumbers plainRoute _ _ _ _ (by norm_num) ?_ rfl ?_
  · rw [hend]
    norm_num
  · rw [hend, hs, he]
    intro x hx _
    refine ⟨fun _ => ?_, by norm_num⟩
    simp only [List.mem_cons, List.not_mem_nil, or_false] at hx
    rcases hx with rfl | rfl
    · exact flagAt_readable (by decide)
    · exact flagAt_readable (by decide)

/-- A sample at 1000 ms makes a request from 1000.5 ms throw. -/
theorem fractional_start_throws : ¬ ∀ (xs : List (Sample Unit)) (now : ℚ) (key : String)
    (options : RequestOptions), options.start ≤ options.end_ →
      @ReturnsExactly Unit zeroFloat zeroValue exactNumbers xs key options
        (@request Unit zeroFloat exactNumbers Pydantic.strict plainRoute
          (@history Unit zeroFloat zeroValue xs) now key options) := by
  intro h
  obtain ⟨_, points, _, _, hok⟩ := h [flagAt 1] 5000 "temp" ⟨2001 / 2, 2000⟩ (by norm_num)
  obtain ⟨samples, _, _, hsamples, hserved⟩ := @request_samples Unit zeroFloat zeroValue
    exactNumbers zeroFloat_roundTrip exactNumbers_exact _ plainRoute _ _ _ _ _ _ rfl hok
  have hend : orElse 2000 5000 = 2000 := by norm_num [orElse]
  have hs : wholeMilliseconds (2001 / 2) = 1000 := by norm_num [wholeMilliseconds]
  have he : wholeMilliseconds 2000 = 2000 := wholeMilliseconds_intCast 2000
  have hmem : flagAt 1 ∈ samples := by
    refine (hsamples _).mpr ⟨List.mem_singleton_self _, rfl, ?_⟩
    rw [hend, hs, he]
    exact inRange_flagAt.mpr (by norm_num)
  have hin := inRange_flagAt.mp (hserved _ hmem).2
  norm_num at hin

end Openmct
end BvexLink
