import BvexLink.Codec.Sample
import BvexLink.Wire.Path
import BvexLink.Lists.Split

/-!
# BvexLink.Ground.StoreFileSample

`store_file_sample.py`: the directory it asks for and the file it opens there for a sample.

* `storeFileSample_eq_ok`: the paths and the bytes for a sample of a file.
-/

namespace BvexLink
namespace Ground

open Codec Wire Json

/-- What `store_file_sample` raises before it writes. -/
inductive StoreError where
  | assertionError
  | valueError (message : String)
  deriving DecidableEq

/-- The directory that is made if it is not there, the path opened, and what is written. -/
structure StoredFile where
  metric_dir : List Char
  sample_file : List Char
  data : Bytes
  deriving DecidableEq

/-- `filename.split(".")[-1]` -/
def extension (filename : String) : List Char :=
  (filename.toList.splitOn '.').getLast (List.splitOn_ne_nil _ _)

theorem dot_notMem_extension (filename : String) : '.' ∉ extension filename :=
  fun h => (ListSplit.mem_of_mem_splitOn (List.getLast_mem _) h).2 rfl

def metricDir (fileStoreDir : List Char) (metric_id : String) : List Char :=
  Path.join fileStoreDir ("metric-".toList ++ metric_id.toList)

def fileName (text : String) (filename : String) : List Char :=
  text.toList ++ '.' :: extension filename

variable {F : Type} [Primitives F]

/-- `f"{timestamp}"` -/
def timestampText : F ⊕ Int → Except String String
  | .inl x => .ok (Primitives.strOfFloat x)
  | .inr z => strOfInt z

/-- The paths and the bytes. What the file system does with them is not decided here: it may refuse to
make the directory, as `os.makedirs` does for an id like `x/..` where `metric-x` is not there. -/
def storeFileSample (fileStoreDir : List Char) (sample : Sample F) :
    Except StoreError StoredFile :=
  match sample.data with
  | .primitive _ => .error .assertionError
  | .file f =>
    match timestampText sample.metadata.timestamp with
    | .error e => .error (.valueError e)
    | .ok text => .ok {
        metric_dir := metricDir fileStoreDir sample.metadata.metric_id
        sample_file := Path.join (metricDir fileStoreDir sample.metadata.metric_id)
          (fileName text f.filename)
        data := f.data }

theorem storeFileSample_eq_ok {fileStoreDir : List Char} {sample : Sample F} {f : FileData}
    (hf : sample.data = .file f) {file : StoredFile} :
    storeFileSample fileStoreDir sample = .ok file ↔
      ∃ text, timestampText sample.metadata.timestamp = .ok text ∧
        file = ⟨metricDir fileStoreDir sample.metadata.metric_id,
          Path.join (metricDir fileStoreDir sample.metadata.metric_id) (fileName text f.filename),
          f.data⟩ := by
  rw [storeFileSample, hf]
  cases timestampText sample.metadata.timestamp with
  | error e => simp
  | ok text => simp [eq_comm]

/-! ## Names -/

/-- A text that names an entry when something is put after it. -/
structure IsName (text : List Char) : Prop where
  nonempty : text ≠ []
  dot : text ≠ ['.']
  slash : '/' ∉ text

theorem isName_printInt (z : Int) : IsName (printInt z) where
  nonempty h := by
    have hz := intToken_printInt z
    rw [h] at hz
    cases hz
  dot h := by
    have hz := intToken_printInt z
    rw [h] at hz
    cases hz
  slash h := absurd (printInt_numChar z _ h) (by decide)

theorem splitOn_fileName {text : String} (h : IsName text.toList) (filename : String) :
    ∃ piece pieces, (extension filename).splitOn '/' = piece :: pieces ∧
      (fileName text filename).splitOn '/' = (text.toList ++ '.' :: piece) :: pieces := by
  cases hs : (extension filename).splitOn '/' with
  | nil => exact absurd hs (List.splitOn_ne_nil _ _)
  | cons piece pieces =>
    refine ⟨piece, pieces, rfl, ?_⟩
    rw [fileName, show text.toList ++ '.' :: extension filename =
      (text.toList ++ ['.']) ++ extension filename by simp,
      ListSplit.splitOn_append (by simp [h.slash]), hs, List.modifyHead_cons]
    simp

theorem plain_fileName {text : String} (h : IsName text.toList) (filename : String) :
    ∀ piece ∈ (fileName text filename).splitOn '/', Path.Plain piece := by
  obtain ⟨piece, pieces, hs, hn⟩ := splitOn_fileName h filename
  rw [hn]
  intro p hp
  rcases List.mem_cons.mp hp with rfl | hp
  · -- the text is put before the dot
    constructor
    · intro he
      cases ht : text.toList with
      | nil => exact h.nonempty ht
      | cons c cs => simp [ht] at he
    · intro he
      cases ht : text.toList with
      | nil => exact h.nonempty ht
      | cons c cs =>
        refine h.dot ?_
        rw [ht, List.cons_append, List.cons.injEq] at he
        cases cs with
        | nil => rw [ht, he.1]
        | cons c' cs => simp at he
  · have hdot : '.' ∉ p := by
      intro hd
      exact dot_notMem_extension filename
        (ListSplit.mem_of_mem_splitOn (hs ▸ List.mem_cons_of_mem _ hp) hd).1
    constructor
    · rintro rfl
      simp at hdot
    · rintro rfl
      simp at hdot

theorem walk_fileName_eq_iff {text text' : String} (h : IsName text.toList)
    (h' : IsName text'.toList) (filename : String) (place place' : List Path.Piece) :
    Path.walk place (fileName text filename) = Path.walk place' (fileName text' filename) ↔
      place = place' ∧ text = text' := by
  rw [Path.walk_plain place (plain_fileName h filename),
    Path.walk_plain place' (plain_fileName h' filename)]
  obtain ⟨piece, pieces, hs, hn⟩ := splitOn_fileName h filename
  obtain ⟨_, _, hs', hn'⟩ := splitOn_fileName h' filename
  rw [hs] at hs'
  obtain ⟨rfl, rfl⟩ := List.cons.inj hs'
  rw [hn, hn', List.filter_cons_of_pos (by simp), List.filter_cons_of_pos (by simp)]
  constructor
  · intro he
    have hlen : place.length = place'.length := by
      have := congrArg List.length he
      simpa using this
    obtain ⟨hp, hc⟩ := List.append_inj he hlen
    obtain ⟨ht, _⟩ := List.cons.inj hc
    exact ⟨hp, String.toList_injective (List.append_cancel_right ht)⟩
  · rintro ⟨rfl, rfl⟩
    rfl

theorem head_fileName {text : String} (h : IsName text.toList) (filename : String) :
    (fileName text filename).head? ≠ some '/' := by
  intro he
  cases ht : text.toList with
  | nil => exact h.nonempty ht
  | cons c cs =>
    rw [fileName, ht, List.cons_append, List.head?_cons, Option.some.injEq] at he
    exact h.slash (by rw [ht, he]; exact List.mem_cons_self ..)

end Ground
end BvexLink
