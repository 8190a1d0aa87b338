import Mathlib.Algebra.Order.Ring.Unbundled.Rat
import SuperFunctions.Lib.EditDistance
import SuperFunctions.Lib.Encodings

/-!
# Levenshtein distance and fuzzy expansion

The two-row programme over the units of two texts, and the terms of a vocabulary that lie within a
distance of a term.
-/
namespace SuperFunctions.SearchFn.Levenshtein

open Lib.EditDistance List

variable {α τ : Type} [DecidableEq α]

/-- A row of the table of distances, from the row above it and the entry on its left. -/
def nextRow (a : α) (b : List α) (prev : List Nat) (left : Nat) : List Nat :=
  match b, prev with
  | c :: cs, diagonal :: above :: rest =>
    let distance := if a = c then diagonal
      else min (min (diagonal + 1) (left + 1)) (above + 1)
    distance :: nextRow a cs (above :: rest) distance
  | _, _ => []

def levenshteinDistance (a b : List α) : Nat :=
  if a = b then 0
  else if a.length = 0 then b.length
  else if b.length = 0 then a.length
  else
    let (a, b) := if a.length < b.length then (b, a) else (a, b)
    let first := List.range (b.length + 1)
    let last := (a.zipIdx 1).foldl (fun prev (c, i) => i :: nextRow c b prev i) first
    last.getLastD 0

/-- A number of the language. -/
inductive MaxDistance where
  | finite (n : Rat)
  | infinite
  | negInfinite
  | nan

def MaxDistance.capped (maxDistance : MaxDistance) : Rat :=
  let normalizedDistance : Rat := match maxDistance with
    | .finite n => n
    | .infinite => 3
    | .negInfinite | .nan => 0
  min (max 0 normalizedDistance) 3

/-- `lower` gives the units of a term in lower case. -/
def fuzzyExpand (lower : τ → List α) (term : τ) (maxDistance : MaxDistance)
    (vocabulary : List τ) : List τ :=
  vocabulary.filter fun vocabTerm =>
    (((lower vocabTerm).length - (lower term).length : Int).natAbs : Rat) ≤ maxDistance.capped &&
      (levenshteinDistance (lower term) (lower vocabTerm) : Rat) ≤ maxDistance.capped

/-! ## The table -/

/-- The row of the reversed text `p`, from the reversed text `q` on. -/
def row (p q : List α) : List α → List Nat
  | [] => [editDistance p q]
  | c :: b => editDistance p q :: row p (c :: q) b

theorem row_head (p q b : List α) : ∃ rest, row p q b = editDistance p q :: rest := by
  cases b with
  | nil | cons c b => exact ⟨_, rfl⟩

theorem nextRow_row (x : α) (p q b : List α) :
    editDistance (x :: p) q :: nextRow x b (row p q b) (editDistance (x :: p) q) =
      row (x :: p) q b := by
  induction b generalizing q with
  | nil => rfl
  | cons c b ih =>
    obtain ⟨rest, hrest⟩ := row_head p (c :: q) b
    have hcell : (if x = c then editDistance p q
        else min (min (editDistance p q + 1) (editDistance (x :: p) q + 1))
          (editDistance p (c :: q) + 1)) = editDistance (x :: p) (c :: q) := by
      rw [editDistance, Nat.add_min_add_right, Nat.add_min_add_right]
    have htail := ih (c :: q)
    rw [hrest] at htail
    simp only [row, hrest, nextRow, hcell]
    rw [htail]

theorem foldl_row (a b p : List α) :
    (a.zipIdx (p.length + 1)).foldl (fun prev (c, i) => i :: nextRow c b prev i) (row p [] b) =
      row (a.reverse ++ p) [] b := by
  induction a generalizing p with
  | nil => rfl
  | cons x a ih =>
    have hnext := nextRow_row x p [] b
    rw [editDistance_nil, length_cons] at hnext
    rw [zipIdx_cons, foldl_cons, reverse_cons, append_assoc]
    dsimp only
    rw [hnext]
    exact ih (x :: p)

theorem range_row (q b : List α) : List.range' q.length (b.length + 1) = row [] q b := by
  induction b generalizing q with
  | nil => simp [row, editDistance]
  | cons c b ih => rw [row, ← ih (c :: q), length_cons, range'_succ, editDistance, length_cons]

theorem getLastD_row (p q b : List α) : (row p q b).getLastD 0 = editDistance p (b.reverse ++ q) := by
  induction b generalizing q with
  | nil => rfl
  | cons c b ih =>
    obtain ⟨rest, hrest⟩ := row_head p (c :: q) b
    have hlast := ih (c :: q)
    rw [reverse_cons, append_assoc, singleton_append, ← hlast, row, hrest]
    rfl

theorem programme_eq (a b : List α) :
    ((a.zipIdx 1).foldl (fun prev (c, i) => i :: nextRow c b prev i)
      (List.range (b.length + 1))).getLastD 0 = editDistance a b := by
  have hfold := foldl_row a b []
  rw [length_nil, Nat.zero_add, ← range_row, length_nil, ← range_eq_range', append_nil] at hfold
  rw [hfold, getLastD_row, append_nil, editDistance_reverse]

theorem levenshteinDistance_eq (a b : List α) : levenshteinDistance a b = editDistance a b := by
  unfold levenshteinDistance
  split
  case isTrue heq => rw [heq, editDistance_self]
  split
  case isTrue hnil =>
    rw [length_eq_zero_iff.mp hnil, editDistance]
  split
  case isTrue hnil => rw [length_eq_zero_iff.mp hnil, editDistance_nil]
  by_cases hlt : a.length < b.length
  · rw [if_pos hlt]
    exact (programme_eq b a).trans (editDistance_comm b a)
  · rw [if_neg hlt]
    exact programme_eq a b

/-! ## The expansion -/

theorem fuzzyExpand_eq (lower : τ → List α) (term : τ) (maxDistance : MaxDistance)
    (vocabulary : List τ) : fuzzyExpand lower term maxDistance vocabulary =
      vocabulary.filter fun v =>
        (levenshteinDistance (lower term) (lower v) : Rat) ≤ maxDistance.capped := by
  apply filter_congr
  intro v _
  have hedits := edits_editDistance (lower term) (lower v)
  rw [← levenshteinDistance_eq] at hedits
  have hforth := hedits.length_le
  have hback := hedits.symm.length_le
  have hlength : ((lower v).length - (lower term).length : Int).natAbs ≤
      levenshteinDistance (lower term) (lower v) := by omega
  have hcast : (((lower v).length - (lower term).length : Int).natAbs : Rat) ≤
      (levenshteinDistance (lower term) (lower v) : Rat) := by exact_mod_cast hlength
  rw [Bool.and_eq_right_iff_imp, decide_eq_true_eq, decide_eq_true_eq]
  exact fun hle => Rat.le_trans hcast hle

end SuperFunctions.SearchFn.Levenshtein
