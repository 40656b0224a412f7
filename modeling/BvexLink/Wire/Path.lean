import BvexLink.Lists.Split
import Mathlib.Data.List.Basic

/-!
# BvexLink.Wire.Path

POSIX paths as texts: `os.path.join`, and the place a path leads to from a working directory, where
`..` takes back the piece before it. A place is the pieces on the way from the root.

* `resolve_join`: a relative path is walked from where the first one leads.
* `walk_plain`: pieces that are not dots go down.
* `slash_notMem_resolve`: the pieces of a place are names.
-/

namespace Wire
namespace Path

abbrev Piece := List Char

/-- `os.path.join` of two paths. -/
def join (a b : List Char) : List Char :=
  if b.head? = some '/' then b
  else if a = [] ∨ a.getLast? = some '/' then a ++ b
  else a ++ '/' :: b

/-- Where a piece leads from a place. -/
def enter (place : List Piece) (piece : Piece) : List Piece :=
  if piece = [] ∨ piece = ['.'] then place
  else if piece = ['.', '.'] then place.dropLast
  else place ++ [piece]

def walk (place : List Piece) (path : List Char) : List Piece :=
  (path.splitOn '/').foldl enter place

def resolve (cwd : List Piece) (path : List Char) : List Piece :=
  walk (if path.head? = some '/' then [] else cwd) path

@[simp] theorem enter_nil (place : List Piece) : enter place [] = place := if_pos (.inl rfl)

@[simp] theorem walk_nil (place : List Piece) : walk place [] = place := by
  simp [walk, List.splitOn_nil]

theorem walk_append_slash (place : List Piece) (a b : List Char) :
    walk place (a ++ '/' :: b) = walk (walk place a) b := by
  rw [walk, List.splitOn_append_cons_self, List.foldl_append]
  rfl

/-- A relative path is walked from where the first one leads. -/
theorem resolve_join (cwd : List Piece) (a : List Char) {b : List Char}
    (hb : b.head? ≠ some '/') : resolve cwd (join a b) = walk (resolve cwd a) b := by
  rw [join, if_neg hb]
  split
  · rename_i h
    rcases h with rfl | h
    · rw [List.nil_append, resolve, if_neg hb, resolve, if_neg (by simp), walk_nil]
    · obtain ⟨a, rfl⟩ := List.getLast?_eq_some_iff.mp h
      have hhead : (a ++ ['/'] ++ b).head? = (a ++ ['/']).head? := by cases a <;> rfl
      rw [resolve, hhead, resolve, List.append_assoc, List.singleton_append, walk_append_slash,
        walk_append_slash, walk_nil]
  · rename_i h
    have hhead : (a ++ '/' :: b).head? = a.head? := by
      cases a with
      | nil => exact absurd (.inl rfl) h
      | cons c a => rfl
    rw [resolve, hhead, walk_append_slash, resolve]

/-- The piece is not `.` or `..`. -/
def Plain (piece : Piece) : Prop := piece ≠ ['.'] ∧ piece ≠ ['.', '.']

theorem foldl_enter_plain {pieces : List Piece} (h : ∀ piece ∈ pieces, Plain piece) :
    ∀ place, pieces.foldl enter place = place ++ pieces.filter (· ≠ []) := by
  induction pieces with
  | nil => intro place; simp
  | cons piece pieces ih =>
    intro place
    obtain ⟨h1, h2⟩ := h piece (List.mem_cons_self ..)
    rw [List.foldl_cons, ih fun piece hp => h piece (List.mem_cons_of_mem _ hp)]
    by_cases hn : piece = []
    · simp [hn]
    · simp [enter, hn, h1, h2]

/-- Pieces that are not dots go down. -/
theorem walk_plain (place : List Piece) {path : List Char}
    (h : ∀ piece ∈ path.splitOn '/', Plain piece) :
    walk place path = place ++ (path.splitOn '/').filter (· ≠ []) :=
  foldl_enter_plain h place

/-- A piece without a slash, and not a dot, goes down by itself. -/
theorem walk_piece (place : List Piece) {piece : Piece} (hs : '/' ∉ piece) (hne : piece ≠ [])
    (hp : Plain piece) : walk place piece = place ++ [piece] := by
  have hsplit : piece.splitOn '/' = [piece] := by
    have h := ListSplit.splitOn_append hs []
    rwa [List.append_nil, List.splitOn_nil, List.modifyHead_cons, List.append_nil] at h
  rw [walk, hsplit, List.foldl_cons, List.foldl_nil, enter, if_neg (by simp [hne, hp.1]),
    if_neg hp.2]

theorem mem_enter {place : List Piece} {piece q : Piece} (h : q ∈ enter place piece) :
    q ∈ place ∨ q = piece := by
  rw [enter] at h
  split at h
  · exact .inl h
  · split at h
    · exact .inl ((List.dropLast_subset place) h)
    · exact (List.mem_append.mp h).imp_right List.mem_singleton.mp

theorem mem_walk {place : List Piece} {path : List Char} {q : Piece} (h : q ∈ walk place path) :
    q ∈ place ∨ q ∈ path.splitOn '/' := by
  rw [walk] at h
  generalize path.splitOn '/' = pieces at h ⊢
  induction pieces generalizing place with
  | nil => exact .inl h
  | cons piece pieces ih =>
    rw [List.foldl_cons] at h
    rcases ih h with hq | hq
    · rcases mem_enter hq with hq | rfl
      · exact .inl hq
      · exact .inr (List.mem_cons_self ..)
    · exact .inr (List.mem_cons_of_mem _ hq)

/-- The pieces of a place are names, if those of the working directory are. -/
theorem slash_notMem_resolve {cwd : List Piece} (h : ∀ piece ∈ cwd, '/' ∉ piece)
    (path : List Char) : ∀ piece ∈ resolve cwd path, '/' ∉ piece := by
  intro piece hp hc
  rw [resolve] at hp
  rcases mem_walk hp with hp | hp
  · split at hp
    · cases hp
    · exact h piece hp hc
  · exact (ListSplit.mem_of_mem_splitOn hp hc).2 rfl

end Path
end Wire
