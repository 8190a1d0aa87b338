import Mathlib.Data.List.Basic

/-!
# Replacing a part of a sequence

A replaced part is named by its bounds in the old sequence and by its length in the new one. Such
ranges, applied one after the other, explain how a sequence came from another, and they can be
inverted.
-/
namespace SuperFunctions.Lib.Splice

open List

universe u

variable {α : Type u}

structure Range where
  start : Nat
  stop : Nat
  insertedLength : Nat

def splice (xs : List α) (start stop : Nat) (inserted : List α) : List α :=
  xs.take start ++ inserted ++ xs.drop stop

/-- The range replaces its part of `xs` and leaves `ys`. -/
structure Replaces (r : Range) (xs ys : List α) : Prop where
  ordered : r.start ≤ r.stop
  bounded : r.stop ≤ xs.length
  result : ∃ inserted : List α, inserted.length = r.insertedLength ∧
    ys = splice xs r.start r.stop inserted

/-- The ranges, applied in order, lead from `xs` to `ys`. -/
def Explains : List Range → List α → List α → Prop
  | [], xs, ys => xs = ys
  | r :: rs, xs, ys => ∃ mid, Replaces r xs mid ∧ Explains rs mid ys

def Range.invert (r : Range) : Range :=
  ⟨r.start, r.start + r.insertedLength, r.stop - r.start⟩

theorem splice_length {xs : List α} {start stop : Nat} (inserted : List α) (h : start ≤ stop)
    (hstop : stop ≤ xs.length) :
    (splice xs start stop inserted).length = xs.length - (stop - start) + inserted.length := by
  simp only [splice, length_append, length_take, length_drop]
  omega

theorem replaces_invert {r : Range} {xs ys : List α} (h : Replaces r xs ys) :
    Replaces r.invert ys xs := by
  obtain ⟨hordered, hbounded, inserted, hlength, rfl⟩ := h
  have htake : (xs.take r.start).length = r.start := by
    rw [length_take]
    omega
  refine ⟨by simp [Range.invert], ?_, (xs.drop r.start).take (r.stop - r.start), ?_, ?_⟩
  · rw [splice_length inserted hordered hbounded]
    simp only [Range.invert]
    omega
  · simp only [Range.invert, length_take, length_drop]
    omega
  have hfront : (splice xs r.start r.stop inserted).take r.start = xs.take r.start := by
    rw [splice, append_assoc]
    exact take_left' htake
  have hback : (splice xs r.start r.stop inserted).drop (r.start + r.insertedLength) =
      xs.drop r.stop := by
    apply drop_left'
    rw [length_append, htake, hlength]
  have hmiddle : (xs.drop r.start).take (r.stop - r.start) ++ xs.drop r.stop = xs.drop r.start := by
    have hdrop : xs.drop r.stop = (xs.drop r.start).drop (r.stop - r.start) := by
      rw [drop_drop]
      congr 1
      omega
    rw [hdrop, take_append_drop]
  show xs = splice (splice xs r.start r.stop inserted) r.start (r.start + r.insertedLength) _
  rw [splice, hfront, hback, append_assoc, hmiddle, take_append_drop]

theorem explains_append {rs ss : List Range} {xs ys zs : List α} (h : Explains rs xs ys)
    (h' : Explains ss ys zs) : Explains (rs ++ ss) xs zs := by
  induction rs generalizing xs with
  | nil =>
    cases h
    exact h'
  | cons r rs ih =>
    obtain ⟨mid, hfirst, hrest⟩ := h
    exact ⟨mid, hfirst, ih hrest⟩

theorem explains_single {r : Range} {xs ys : List α} (h : Replaces r xs ys) :
    Explains [r] xs ys := ⟨ys, h, rfl⟩

theorem explains_invert {rs : List Range} {xs ys : List α} (h : Explains rs xs ys) :
    Explains (rs.reverse.map Range.invert) ys xs := by
  induction rs generalizing xs with
  | nil =>
    cases h
    rfl
  | cons r rs ih =>
    obtain ⟨mid, hfirst, hrest⟩ := h
    rw [reverse_cons, map_append]
    exact explains_append (ih hrest) (explains_single (replaces_invert hfirst))

section Difference

variable [DecidableEq α]

def commonPrefix : List α → List α → Nat
  | x :: xs, y :: ys => if x = y then commonPrefix xs ys + 1 else 0
  | _, _ => 0

/-- The bounds of the difference: its start, and its ends in the two sequences. -/
structure Difference where
  start : Nat
  previousStop : Nat
  nextStop : Nat

/-- What is left of two sequences without their common prefix and, after it, the common suffix. -/
def difference (previous next : List α) : Difference :=
  let front := commonPrefix previous next
  let back := commonPrefix (previous.drop front).reverse (next.drop front).reverse
  ⟨front, previous.length - back, next.length - back⟩

theorem take_commonPrefix (xs ys : List α) :
    xs.take (commonPrefix xs ys) = ys.take (commonPrefix xs ys) := by
  induction xs generalizing ys with
  | nil => rfl
  | cons x xs ih =>
    cases ys with
    | nil => rfl
    | cons y ys =>
      simp only [commonPrefix]
      split
      · rename_i heq
        rw [take_succ_cons, take_succ_cons, heq, ih]
      · rfl

theorem commonPrefix_le (xs ys : List α) :
    commonPrefix xs ys ≤ xs.length ∧ commonPrefix xs ys ≤ ys.length := by
  induction xs generalizing ys with
  | nil => exact ⟨Nat.zero_le _, Nat.zero_le _⟩
  | cons x xs ih =>
    cases ys with
    | nil => exact ⟨Nat.zero_le _, Nat.zero_le _⟩
    | cons y ys =>
      simp only [commonPrefix, length_cons]
      have h := ih ys
      split <;> omega

theorem difference_bounds (previous next : List α) :
    (difference previous next).start ≤ (difference previous next).previousStop ∧
      (difference previous next).previousStop ≤ previous.length ∧
      (difference previous next).start ≤ (difference previous next).nextStop ∧
      (difference previous next).nextStop ≤ next.length := by
  have hfront := commonPrefix_le previous next
  have hback := commonPrefix_le (previous.drop (commonPrefix previous next)).reverse
    (next.drop (commonPrefix previous next)).reverse
  simp only [length_reverse, length_drop] at hback
  simp only [difference]
  omega

/-- Replacing the difference in the one sequence gives the other. -/
theorem splice_difference (previous next : List α) :
    let d := difference previous next
    splice previous d.start d.previousStop ((next.take d.nextStop).drop d.start) = next := by
  have hbounds := difference_bounds previous next
  dsimp only
  have hfront : previous.take (difference previous next).start =
      next.take (difference previous next).start := take_commonPrefix previous next
  have hback : previous.drop (difference previous next).previousStop =
      next.drop (difference previous next).nextStop := by
    have h := take_commonPrefix (previous.drop (commonPrefix previous next)).reverse
      (next.drop (commonPrefix previous next)).reverse
    have hle := commonPrefix_le (previous.drop (commonPrefix previous next)).reverse
      (next.drop (commonPrefix previous next)).reverse
    simp only [length_reverse, length_drop] at hle
    rw [take_reverse, take_reverse] at h
    have h := reverse_injective h
    rw [drop_drop, drop_drop] at h
    simp only [length_drop] at h
    have hfrontLe := commonPrefix_le previous next
    simp only [difference]
    convert h using 2 <;> omega
  have hmiddle : (next.take (difference previous next).nextStop).drop
      (difference previous next).start ++ next.drop (difference previous next).nextStop =
      next.drop (difference previous next).start := by
    rw [← drop_append_of_le_length, take_append_drop]
    rw [length_take]
    omega
  rw [splice, hfront, hback, append_assoc, hmiddle, take_append_drop]

end Difference

end SuperFunctions.Lib.Splice

/-!
# A present with its past and its future

Recorded changes can be undone as far back as the limit reaches, and redone until the next one.
-/
namespace SuperFunctions.Lib.Timeline

universe u

/-- The past and the future begin with what is next to the present. `saved` is a bookmark. -/
structure Timeline (α : Type u) where
  past : List α
  present : α
  future : List α
  saved : α

variable {α : Type u}

/-- The past that is kept; without a limit it is kept whole. -/
def keep (limit : Option Nat) (past : List α) : List α :=
  match limit with
  | none => past
  | some n => past.take n

namespace Timeline

def start (present : α) : Timeline α := ⟨[], present, [], present⟩

def record (limit : Option Nat) (t : Timeline α) (next : α) : Timeline α :=
  { t with past := keep limit (t.present :: t.past), present := next, future := [] }

/-- A change that is not recorded forgets the past and the future. -/
def rewrite (t : Timeline α) (next : α) : Timeline α :=
  { t with past := [], present := next, future := [] }

def undo (t : Timeline α) : Timeline α :=
  match t.past with
  | [] => t
  | previous :: past =>
    { t with past, present := previous, future := t.present :: t.future }

def redo (t : Timeline α) : Timeline α :=
  match t.future with
  | [] => t
  | next :: future => { t with past := t.present :: t.past, present := next, future }

def save (t : Timeline α) : Timeline α := { t with saved := t.present }

end Timeline

end SuperFunctions.Lib.Timeline
