import BvexLink.Ground.Discovery

/-!
# BvexLink.RedisClient.MetricIds

`get_all_metric_ids` of `asyncio.py`: the cursor loop over `SCAN` and what it takes from the keys.
A key is a byte string, and a database a set of keys.

* `getAllMetricIds_ok`: what a full scan of a database gives.
* `listing_exact_iff`: when that is the set of ids with a sample.
-/

namespace BvexLink
namespace RedisClient
namespace MetricIds

open Wire Ground

inductive ScanError where
  | unicodeDecodeError
  deriving DecidableEq

/-- What one `r.scan(match="sample-cache:*", cursor=cursor)` returns. -/
structure Reply where
  cursor : Nat
  keys : List Bytes

/-- The loop `while True`, on what the successive scans return; `none` while it has not ended. -/
def scanLoop (metric_keys : Finset String) :
    List Reply → Option (Except ScanError (Finset String))
  | [] => none
  | reply :: replies =>
    match reply.keys.mapM Utf8.decode with
    | none => some (.error .unicodeDecodeError)
    | some keys =>
      if reply.cursor = 0 then some (.ok (metric_keys ∪ keys.toFinset))
      else scanLoop (metric_keys ∪ keys.toFinset) replies

def metricIds (metric_keys : Finset String) : Finset String :=
  metric_keys.biUnion fun key => (metricIdOfKey key).toFinset

def getAllMetricIds (replies : List Reply) : Option (Except ScanError (Finset String)) :=
  (scanLoop ∅ replies).map (Except.map metricIds)

/-- The pattern `sample-cache:*`. -/
def Matches (key : Bytes) : Prop := Utf8.encode "sample-cache:" <+: key

/-- A full scan: it ends with cursor 0 and returns every matching key at least once, in any order
and batches, and nothing else. -/
structure FullScan (keys : Set Bytes) (replies : List Reply) : Prop where
  ends : ∃ first last, replies = first ++ [last] ∧ last.cursor = 0 ∧ ∀ r ∈ first, r.cursor ≠ 0
  complete : ∀ key ∈ keys, Matches key → ∃ r ∈ replies, key ∈ r.keys
  sound : ∀ r ∈ replies, ∀ key ∈ r.keys, key ∈ keys ∧ Matches key

/-! ## The keys -/

theorem decode_eq_some {key : Bytes} {text : String} :
    Utf8.decode key = some text ↔ key = Utf8.encode text := by
  constructor
  · intro h
    exact (Utf8.encode_of_decode h).symm
  · rintro rfl
    exact Utf8.decode_encode text

theorem encode_cacheKey (m : String) :
    Utf8.encode (cacheKey m) = Utf8.encode "sample-cache:" ++ Utf8.encode m := by
  simp [Utf8.encode, cacheKey]

theorem matches_cacheKey (m : String) : Matches (Utf8.encode (cacheKey m)) :=
  ⟨Utf8.encode m, (encode_cacheKey m).symm⟩

theorem eq_cacheKey_of_matches {text : String} (h : Matches (Utf8.encode text)) :
    ∃ m, text = cacheKey m := by
  obtain ⟨rest, hrest⟩ := h
  obtain ⟨cs, hcs, _⟩ := Utf8.encodeChars_prefix hrest
  refine ⟨String.ofList cs, ?_⟩
  simp [← String.toList_inj, hcs, cacheKey]

theorem mapM_decode {keys : List Bytes} {texts : List String} :
    keys.mapM Utf8.decode = some texts ↔ keys = texts.map Utf8.encode := by
  induction keys generalizing texts with
  | nil => simp [eq_comm]
  | cons key keys ih =>
    rw [List.mapM_cons]
    constructor
    · intro h
      obtain ⟨text, ht, h⟩ := Option.bind_eq_some_iff.mp h
      obtain ⟨rest, hr, h⟩ := Option.bind_eq_some_iff.mp h
      cases h
      rw [List.map_cons, decode_eq_some.mp ht, ih.mp hr]
    · intro h
      cases texts with
      | nil => simp at h
      | cons text rest =>
        obtain ⟨ht, hr⟩ := List.cons.inj h
        rw [decode_eq_some.mpr ht, ih.mpr hr]
        rfl

theorem mapM_decode_cases (keys : List Bytes) :
    (keys.mapM Utf8.decode = none ∧ ¬∀ key ∈ keys, ∃ text, key = Utf8.encode text) ∨
      ∃ texts, keys.mapM Utf8.decode = some texts ∧ (∀ key ∈ keys, ∃ text, key = Utf8.encode text) ∧
        ∀ text, text ∈ texts ↔ Utf8.encode text ∈ keys := by
  cases h : keys.mapM Utf8.decode with
  | none =>
    refine .inl ⟨rfl, fun hall => ?_⟩
    have hrange : keys ∈ Set.range (List.map Utf8.encode) := by
      rw [Set.range_list_map]
      exact fun key hk => (hall key hk).imp fun _ => Eq.symm
    obtain ⟨texts, ht⟩ := hrange
    rw [mapM_decode.mpr ht.symm] at h
    cases h
  | some texts =>
    have hkeys := mapM_decode.mp h
    refine .inr ⟨texts, rfl, fun key hk => ?_, fun text => ?_⟩
    · rw [hkeys, List.mem_map] at hk
      obtain ⟨text, _, rfl⟩ := hk
      exact ⟨text, rfl⟩
    · rw [hkeys]
      exact (List.mem_map_of_injective fun _ _ => Utf8.encode_injective).symm

/-! ## The loop -/

theorem scanLoop_eq_ok {first : List Reply} {last : Reply} (hlast : last.cursor = 0)
    (hfirst : ∀ r ∈ first, r.cursor ≠ 0) {metric_keys found : Finset String} :
    scanLoop metric_keys (first ++ [last]) = some (.ok found) ↔
      (∀ r ∈ first ++ [last], ∀ key ∈ r.keys, ∃ text, key = Utf8.encode text) ∧
        ∀ text, text ∈ found ↔
          text ∈ metric_keys ∨ ∃ r ∈ first ++ [last], Utf8.encode text ∈ r.keys := by
  induction first generalizing metric_keys with
  | nil =>
    rw [List.nil_append, scanLoop]
    rcases mapM_decode_cases last.keys with ⟨hm, hnot⟩ | ⟨texts, hm, hall, htexts⟩
    · simp [hm, hnot]
    · simp [hm, hlast, ← htexts, Finset.ext_iff, eq_comm]
      exact fun _ => hall
  | cons reply first ih =>
    have hreply : reply.cursor ≠ 0 := hfirst reply (List.mem_cons_self ..)
    rw [List.cons_append, scanLoop]
    rcases mapM_decode_cases reply.keys with ⟨hm, hnot⟩ | ⟨texts, hm, hall, htexts⟩
    · simp [hm, hnot]
    · simp only [hm, if_neg hreply]
      rw [ih fun r hr => hfirst r (List.mem_cons_of_mem _ hr)]
      simp only [Finset.mem_union, List.mem_toFinset, htexts, or_assoc, List.mem_cons,
        forall_eq_or_imp, exists_eq_or_imp]
      exact ⟨fun h => ⟨⟨hall, h.1⟩, h.2⟩, fun h => ⟨h.1.2, h.2⟩⟩

/-- What a full scan of a database gives: the ids without a colon, unless some matching key is not a
text. -/
theorem getAllMetricIds_ok {keys : Set Bytes} {replies : List Reply} (h : FullScan keys replies)
    {ids : Finset String} : getAllMetricIds replies = some (.ok ids) ↔
      (∀ key ∈ keys, Matches key → ∃ m, key = Utf8.encode (cacheKey m)) ∧
        ∀ m, m ∈ ids ↔ Utf8.encode (cacheKey m) ∈ keys ∧ ':' ∉ m.toList := by
  obtain ⟨first, last, rfl, hlast, hfirst⟩ := h.ends
  have hin : ∀ key, (∃ r ∈ first ++ [last], key ∈ r.keys) ↔ key ∈ keys ∧ Matches key :=
    fun key => ⟨fun ⟨r, hr, hk⟩ => h.sound r hr key hk, fun hk => h.complete key hk.1 hk.2⟩
  have htexts : (∀ r ∈ first ++ [last], ∀ key ∈ r.keys, ∃ text, key = Utf8.encode text) ↔
      ∀ key ∈ keys, Matches key → ∃ m, key = Utf8.encode (cacheKey m) := by
    constructor
    · intro hall key hk hmatch
      obtain ⟨r, hr, hkr⟩ := h.complete key hk hmatch
      obtain ⟨text, rfl⟩ := hall r hr key hkr
      obtain ⟨m, rfl⟩ := eq_cacheKey_of_matches hmatch
      exact ⟨m, rfl⟩
    · intro hall r hr key hk
      obtain ⟨hkeys, hmatch⟩ := h.sound r hr key hk
      obtain ⟨m, rfl⟩ := hall key hkeys hmatch
      exact ⟨cacheKey m, rfl⟩
  have hids : ∀ found : Finset String,
      (∀ text, text ∈ found ↔ ∃ r ∈ first ++ [last], Utf8.encode text ∈ r.keys) →
        ∀ m, m ∈ metricIds found ↔ Utf8.encode (cacheKey m) ∈ keys ∧ ':' ∉ m.toList := by
    intro found hfound m
    simp only [metricIds, Finset.mem_biUnion, Option.mem_toFinset, Option.mem_def, hfound, hin,
      metricIdOfKey_eq_some]
    constructor
    · rintro ⟨_, ⟨hk, _⟩, rfl, hm⟩
      exact ⟨hk, hm⟩
    · rintro ⟨hk, hm⟩
      exact ⟨cacheKey m, ⟨hk, matches_cacheKey m⟩, rfl, hm⟩
  have hresult : getAllMetricIds (first ++ [last]) = some (.ok ids) ↔
      ∃ found, scanLoop ∅ (first ++ [last]) = some (.ok found) ∧ metricIds found = ids := by
    unfold getAllMetricIds
    cases scanLoop ∅ (first ++ [last]) with
    | none => simp
    | some result => cases result <;> simp [Except.map]
  simp only [hresult, scanLoop_eq_ok hlast hfirst, Finset.notMem_empty, false_or, htexts]
  constructor
  · rintro ⟨found, ⟨hall, hfound⟩, rfl⟩
    exact ⟨hall, hids found hfound⟩
  · rintro ⟨hall, hmem⟩
    -- the set of all texts the replies hold
    obtain ⟨found, hfound⟩ : ∃ found : Finset String,
        ∀ text, text ∈ found ↔ ∃ r ∈ first ++ [last], Utf8.encode text ∈ r.keys := by
      refine ⟨(((first ++ [last]).flatMap Reply.keys).filterMap Utf8.decode).toFinset, ?_⟩
      simp [decode_eq_some]
    refine ⟨found, ⟨hall, hfound⟩, ?_⟩
    ext m
    rw [hids found hfound, hmem]

/-! ## Exactness -/

/-- The database after samples were set for `ids`, with the keys `others` beside. -/
def database (ids : Finset String) (others : Set Bytes) : Set Bytes :=
  {key | (∃ m ∈ ids, key = Utf8.encode (cacheKey m)) ∨ key ∈ others}

theorem mem_database {ids : Finset String} {others : Set Bytes} {m : String} :
    Utf8.encode (cacheKey m) ∈ database ids others ↔
      m ∈ ids ∨ Utf8.encode (cacheKey m) ∈ others := by
  refine or_congr_left ⟨fun ⟨m', hm', he⟩ => ?_, fun hm => ⟨m, hm, rfl⟩⟩
  rw [Redis.cacheKey_inj.mp (Utf8.encode_injective he)]
  exact hm'

/-- A full scan gives the ids with a sample, if and only if none of them has a colon and each other
key the pattern matches is that of an id with a colon. -/
theorem listing_exact_iff {ids : Finset String} {others : Set Bytes} {replies : List Reply}
    (hothers : ∀ m ∈ ids, Utf8.encode (cacheKey m) ∉ others)
    (h : FullScan (database ids others) replies) :
    getAllMetricIds replies = some (.ok ids) ↔ (∀ m ∈ ids, ':' ∉ m.toList) ∧
      ∀ key ∈ others, Matches key → ∃ m, key = Utf8.encode (cacheKey m) ∧ ':' ∈ m.toList := by
  rw [getAllMetricIds_ok h]
  simp only [mem_database]
  constructor
  · rintro ⟨hall, hids⟩
    refine ⟨fun m hm => ((hids m).mp hm).2, fun key hk hmatch => ?_⟩
    obtain ⟨m, rfl⟩ := hall key (.inr hk) hmatch
    refine ⟨m, rfl, by_contra fun hc => ?_⟩
    -- it would be listed, but it is no key of a sample
    have hm : m ∈ ids := (hids m).mpr ⟨.inr hk, hc⟩
    exact hothers m hm hk
  · rintro ⟨hids, hother⟩
    constructor
    · rintro key (⟨m, _, rfl⟩ | hk) hmatch
      · exact ⟨m, rfl⟩
      · obtain ⟨m, hm, _⟩ := hother key hk hmatch
        exact ⟨m, hm⟩
    · intro m
      constructor
      · intro hm
        exact ⟨.inl hm, hids m hm⟩
      · rintro ⟨hm | hk, hc⟩
        · exact hm
        · obtain ⟨m', he, hm'⟩ := hother _ hk (matches_cacheKey m)
          rw [Redis.cacheKey_inj.mp (Utf8.encode_injective he)] at hc
          exact absurd hm' hc

/-- Two batches, with a key twice, and a key the pattern does not match. -/
theorem two_batches_listed : getAllMetricIds [⟨5, [Utf8.encode (cacheKey "temp")]⟩,
    ⟨0, [Utf8.encode (cacheKey "volt"), Utf8.encode (cacheKey "temp")]⟩] =
      some (.ok {"temp", "volt"}) := by
  have hstatus : ¬Matches (Utf8.encode "status") := by
    intro h
    obtain ⟨m, hm⟩ := eq_cacheKey_of_matches h
    simp [← String.toList_inj, cacheKey] at hm
  refine (@listing_exact_iff _ {Utf8.encode "status"} _ ?_ ⟨?_, ?_, ?_⟩).mpr ⟨by decide, ?_⟩
  · intro m _ hm
    exact hstatus (Set.mem_singleton_iff.mp hm ▸ matches_cacheKey m)
  · exact ⟨[_], _, rfl, rfl, by simp⟩
  · rintro key (⟨m, hm, rfl⟩ | rfl) hmatch
    · have hm : m = "temp" ∨ m = "volt" := by simpa using hm
      rcases hm with rfl | rfl <;> simp
    · exact absurd hmatch hstatus
  · intro r hr key hk
    have hkey : key = Utf8.encode (cacheKey "temp") ∨ key = Utf8.encode (cacheKey "volt") := by
      rcases List.mem_cons.mp hr with rfl | hr
      · exact .inl (by simpa using hk)
      · rw [List.mem_singleton.mp hr] at hk
        simpa [or_comm] using hk
    rcases hkey with rfl | rfl
    · exact ⟨.inl ⟨_, by simp, rfl⟩, matches_cacheKey _⟩
    · exact ⟨.inl ⟨_, by simp, rfl⟩, matches_cacheKey _⟩
  · rintro key rfl hmatch
    exact absurd hmatch hstatus

/-- An id with a colon is not listed. -/
theorem colon_id_not_listed : ¬∀ (ids : Finset String) (others : Set Bytes) (replies : List Reply),
    (∀ m ∈ ids, Utf8.encode (cacheKey m) ∉ others) → FullScan (database ids others) replies →
      getAllMetricIds replies = some (.ok ids) := by
  intro h
  have hscan : FullScan (database {"gps:lat"} ∅) [⟨0, [Utf8.encode (cacheKey "gps:lat")]⟩] := by
    refine ⟨⟨[], _, rfl, rfl, by simp⟩, fun key hk _ => ?_, fun r hr key hk => ?_⟩
    · simpa [database] using hk
    · rw [List.mem_singleton] at hr
      subst hr
      rw [List.mem_singleton] at hk
      subst hk
      exact ⟨.inl ⟨_, by simp, rfl⟩, matches_cacheKey _⟩
  have hids := ((getAllMetricIds_ok hscan).mp (h _ _ _ (by simp) hscan)).2 "gps:lat"
  exact absurd (hids.mp (by simp)).2 (by decide)

end MetricIds
end RedisClient
end BvexLink
