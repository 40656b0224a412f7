import BvexLink.Codec.Telemetry
import BvexLink.Ground.StoreFileSample
import BvexLink.Wire.Decimal

/-!
# BvexLink.Ground.FileStore

Where the files of samples are put: each metric has an entry of the store, and what
`store_file_sample` writes for a sample of the metric belongs below this entry.

* `below_unique`: a place is below the entry of one metric only.
* `stays_in_store_iff`: when a sample is written below the entry of its metric.
-/

namespace BvexLink
namespace Ground

open Codec Wire Json

/-! ## Entries -/

def metricEntry (metric_id : String) : Path.Piece := "metric-".toList ++ metric_id.toList

/-- The place is an entry of the store, or below it. -/
def Below (store : List Path.Piece) (entry : Path.Piece) (place : List Path.Piece) : Prop :=
  ∃ rest, place = store ++ entry :: rest

theorem metricEntry_inj {m m' : String} : metricEntry m = metricEntry m' ↔ m = m' := by
  unfold metricEntry
  rw [List.append_right_inj, String.toList_inj]

theorem below_unique {store place : List Path.Piece} {m m' : String}
    (h : Below store (metricEntry m) place) (h' : Below store (metricEntry m') place) : m = m' := by
  obtain ⟨rest, rfl⟩ := h
  obtain ⟨rest', h'⟩ := h'
  exact metricEntry_inj.mp (List.cons.inj (List.append_cancel_left h')).1

/-- The directory made is the entry of the metric or below it, the file written is in this
directory, and not below the entry of any other metric. -/
structure StaysInStore (cwd : List Path.Piece) (fileStoreDir : List Char) (metric_id : String)
    (file : StoredFile) : Prop where
  metric_dir : Below (Path.resolve cwd fileStoreDir) (metricEntry metric_id)
    (Path.resolve cwd file.metric_dir)
  sample_file : ∃ rest, rest ≠ [] ∧
    Path.resolve cwd file.sample_file = Path.resolve cwd file.metric_dir ++ rest
  only : ∀ m, Below (Path.resolve cwd fileStoreDir) (metricEntry m)
    (Path.resolve cwd file.sample_file) → m = metric_id

/-! ## What is written -/

section FileStore

variable {F : Type} [Primitives F]

variable (F) in
/-- The texts of numbers have digits, letters, a sign or a point. -/
def TimestampsAreNames : Prop :=
  ∀ (t : F ⊕ Int) (text : String), timestampText t = .ok text → IsName text.toList

theorem resolve_metricDir (cwd : List Path.Piece) (fileStoreDir : List Char) (metric_id : String) :
    Path.resolve cwd (metricDir fileStoreDir metric_id) =
      Path.walk (Path.resolve cwd fileStoreDir) (metricEntry metric_id) := by
  have hhead : ("metric-".toList ++ metric_id.toList).head? ≠ some '/' := by simp
  exact Path.resolve_join cwd fileStoreDir hhead

theorem resolve_sample_file (cwd : List Path.Piece) (dir : List Char) {text : String}
    (h : IsName text.toList) (filename : String) : ∃ rest, rest ≠ [] ∧
      Path.resolve cwd (Path.join dir (fileName text filename)) = Path.resolve cwd dir ++ rest := by
  rw [Path.resolve_join cwd dir (head_fileName h filename),
    Path.walk_plain _ (plain_fileName h filename)]
  refine ⟨_, ?_, rfl⟩
  obtain ⟨piece, pieces, _, hn⟩ := splitOn_fileName h filename
  rw [hn, List.filter_cons_of_pos (by simp)]
  exact List.cons_ne_nil _ _

theorem metricEntry_plain (metric_id : String) :
    metricEntry metric_id ≠ [] ∧ Path.Plain (metricEntry metric_id) := by
  unfold metricEntry
  refine ⟨by simp, ?_, ?_⟩
  · simp
  · simp

/-- The directory and the file of a sample are below the entry of its metric if and only if the
metric id has no slash. -/
theorem stays_in_store_iff (ht : TimestampsAreNames F) {cwd : List Path.Piece}
    (hcwd : ∀ piece ∈ cwd, '/' ∉ piece) {fileStoreDir : List Char} {sample : Sample F}
    {file : StoredFile} (h : storeFileSample fileStoreDir sample = .ok file) :
    StaysInStore cwd fileStoreDir sample.metadata.metric_id file ↔
      '/' ∉ sample.metadata.metric_id.toList := by
  cases hd : sample.data with
  | primitive p =>
    rw [storeFileSample, hd] at h
    cases h
  | file f =>
    obtain ⟨text, htext, rfl⟩ := (storeFileSample_eq_ok hd).mp h
    constructor
    · rintro ⟨⟨rest, hdir⟩, _, _⟩ hslash
      have hmem : metricEntry sample.metadata.metric_id ∈
          Path.resolve cwd (metricDir fileStoreDir sample.metadata.metric_id) := by
        rw [hdir]
        simp
      refine Path.slash_notMem_resolve hcwd _ _ hmem ?_
      exact List.mem_append_right _ hslash
    · intro hslash
      have hentry : '/' ∉ metricEntry sample.metadata.metric_id := by
        unfold metricEntry
        simp [hslash]
      obtain ⟨hne, hplain⟩ := metricEntry_plain sample.metadata.metric_id
      have hdir : Path.resolve cwd (metricDir fileStoreDir sample.metadata.metric_id) =
          Path.resolve cwd fileStoreDir ++ [metricEntry sample.metadata.metric_id] := by
        rw [resolve_metricDir, Path.walk_piece _ hentry hne hplain]
      obtain ⟨rest, hrest, hfile⟩ := resolve_sample_file cwd
        (metricDir fileStoreDir sample.metadata.metric_id) (ht _ _ htext) f.filename
      refine ⟨⟨[], hdir⟩, ⟨rest, hrest, hfile⟩, fun m hm => ?_⟩
      refine below_unique hm ⟨rest, ?_⟩
      rw [hfile, hdir, List.append_assoc]
      rfl

end FileStore

/-! ## An instance -/

theorem twoFloats_names : @TimestampsAreNames Bool twoFloats := by
  intro t text h
  cases t with
  | inl b =>
    cases h
    cases b with
    | false => exact ⟨by decide, by decide, by decide⟩
    | true => exact ⟨by decide, by decide, by decide⟩
  | inr z =>
    have hz : text.toList = printInt z := strOfInt_eq_ok h
    rw [hz]
    exact isName_printInt z

def image (metric_id : String) : Sample Bool :=
  ⟨⟨metric_id, .inl true, .file⟩, .file ⟨"a.jpg", [255, 216]⟩, rfl⟩

theorem camera_image_stays : ∃ file,
    @storeFileSample Bool twoFloats "/files".toList (image "camera") = .ok file ∧
      StaysInStore [] "/files".toList "camera" file := by
  have h := (@storeFileSample_eq_ok Bool twoFloats "/files".toList (image "camera") _ rfl _).mpr
    ⟨"1.5", rfl, rfl⟩
  exact ⟨_, h, (@stays_in_store_iff Bool twoFloats twoFloats_names [] (by simp) _ _ _ h).mpr
    (by decide)⟩

/-- The directory of the metric `x/../..` is the root. -/
theorem image_escapes : ¬ ∀ (cwd : List Path.Piece) (fileStoreDir : List Char)
    (sample : Sample Bool) (file : StoredFile),
    @storeFileSample Bool twoFloats fileStoreDir sample = .ok file →
      StaysInStore cwd fileStoreDir sample.metadata.metric_id file := by
  intro h
  have hok := (@storeFileSample_eq_ok Bool twoFloats "/files".toList (image "x/../..") _ rfl _).mpr
    ⟨"1.5", rfl, rfl⟩
  obtain ⟨rest, hdir⟩ := (h [] "/files".toList (image "x/../..") _ hok).metric_dir
  have hroot : Path.resolve [] (metricDir "/files".toList "x/../..") = [] := by
    simp [metricDir, Path.join, Path.resolve, Path.walk, List.splitOn_cons_eq_if_modifyHead,
      Path.enter]
  have hnil := hroot.symm.trans hdir
  simp at hnil

end Ground
end BvexLink
