import Mathlib.Data.Finset.Max
import Mathlib.Data.Prod.Lex

/-!
# Locks with a queue each

Who has asked for which lock, in the order of asking. The first in a lock's queue holds it.
Where everyone asks for its locks in one order, no set of them waits only for each other.
-/
namespace SuperFunctions.Lib.LockQueues

open List Option

universe u v

variable {P : Type u}

def enqueue (q : List (P × Nat)) (p : P) (i : Nat) : List (P × Nat) := q ++ [(p, i)]

/-- `i` gives up all it has asked for. -/
def leave (q : List (P × Nat)) (i : Nat) : List (P × Nat) := q.filter fun e => e.2 ≠ i

variable {q : List (P × Nat)} {p p' : P}

theorem mem_enqueue {i j : Nat} : (p', j) ∈ enqueue q p i ↔ (p', j) ∈ q ∨ p' = p ∧ j = i := by
  simp [enqueue]

theorem mem_leave {i j : Nat} : (p, j) ∈ leave q i ↔ (p, j) ∈ q ∧ j ≠ i := by
  simp [leave]

variable [DecidableEq P]

/-- The first in the queue of `p`. -/
def holder (q : List (P × Nat)) (p : P) : Option Nat := (q.find? fun e => e.1 = p).map Prod.snd

theorem holder_enqueue {i j : Nat} (h : holder q p' = some j) :
    holder (enqueue q p i) p' = some j := by
  obtain ⟨e, hfind, hj⟩ := map_eq_some_iff.mp h
  simp only [holder, enqueue, find?_append, hfind, some_or, map_some, hj]

theorem holder_leave {i j : Nat} (h : holder q p = some j) (hne : j ≠ i) :
    holder (leave q i) p = some j := by
  induction q with
  | nil => cases h
  | cons e q ih =>
    by_cases hp : e.1 = p
    · have hj : e.2 = j := by simpa [holder, hp] using h
      have hkeep : e.2 ≠ i := hj ▸ hne
      have hleave : leave (e :: q) i = e :: leave q i :=
        filter_cons_of_pos (by simpa using hkeep)
      simp [holder, hleave, hp, hj]
    · have hrest : holder q p = some j := by simpa [holder, hp] using h
      have hkept := ih hrest
      by_cases hi : e.2 = i
      · have hleave : leave (e :: q) i = leave q i :=
          filter_cons_of_neg (by simpa using hi)
        rwa [hleave]
      · have hleave : leave (e :: q) i = e :: leave q i :=
          filter_cons_of_pos (by simpa using hi)
        rw [hleave]
        simpa [holder, hp] using hkept

/-- `j` has asked for `p` before `i` did. -/
def Ahead (q : List (P × Nat)) (p : P) (j i : Nat) : Prop :=
  ∃ front rest, q = front ++ (p, i) :: rest ∧ (p, j) ∈ front

/-- One that has asked holds the lock, or another is ahead of it. -/
theorem exists_ahead {i : Nat} (h : (p, i) ∈ q) (hwait : holder q p ≠ some i) :
    ∃ j, Ahead q p j i := by
  obtain ⟨front, rest, hq⟩ := append_of_mem h
  subst hq
  by_cases hfront : ∃ e ∈ front, e.1 = p
  · obtain ⟨e, he, hp⟩ := hfront
    subst hp
    exact ⟨e.2, front, rest, rfl, he⟩
  · push Not at hfront
    have hnone : front.find? (fun e => e.1 = p) = none := by
      apply find?_eq_none.mpr
      intro e he
      simpa using hfront e he
    exact absurd (by simp [holder, find?_append, hnone]) hwait

theorem idxOf_lt (hnodup : q.Nodup) {i j : Nat} (h : Ahead q p j i) :
    q.idxOf (p, j) < q.idxOf (p, i) := by
  obtain ⟨front, rest, hq, hj⟩ := h
  subst hq
  have hi : (p, i) ∉ front := by
    intro hmem
    exact (nodup_append.mp hnodup).2.2 _ hmem _ mem_cons_self rfl
  rw [idxOf_append_of_mem hj, idxOf_append_of_notMem hi, idxOf_cons_self]
  have hlt := idxOf_lt_length_of_mem hj
  omega

/-- Where each one has so far asked for nothing beyond the lock it waits for, a set of them that
all wait for each other is empty. -/
theorem no_waiting_set {K : Type v} [LinearOrder K] (rank : P → K) (hrank : Function.Injective rank)
    (hnodup : q.Nodup) (waits : Nat → Option P)
    (hlast : ∀ i p p', waits i = some p → (p', i) ∈ q → rank p' ≤ rank p) {S : Set Nat}
    (hclosed : ∀ i ∈ S, ∃ p j, waits i = some p ∧ j ∈ S ∧ Ahead q p j i) : S = ∅ := by
  classical
  by_contra hne
  obtain ⟨i, hi⟩ := Set.nonempty_iff_ne_empty.mpr hne
  have hmem : ∀ i ∈ S, ∀ p j, waits i = some p → Ahead q p j i →
      (p, i) ∈ q.toFinset.filter fun e => e.2 ∈ S ∧ waits e.2 = some e.1 := by
    intro i hi p j hwaits hahead
    obtain ⟨front, rest, hq, -⟩ := hahead
    have hin : (p, i) ∈ q := by rw [hq]; simp
    simp [hin, hi, hwaits]
  obtain ⟨p, j, hwaits, -, hahead⟩ := hclosed i hi
  -- the one that waits for the greatest lock, and stands first there
  obtain ⟨e, he, hmax⟩ := Finset.exists_max_image _
    (fun e : P × Nat => toLex (rank e.1, OrderDual.toDual (q.idxOf e)))
    ⟨_, hmem i hi p j hwaits hahead⟩
  have hfacts := (Finset.mem_filter.mp he).2
  obtain ⟨p', j', hwaits', hj', hahead'⟩ := hclosed e.2 hfacts.1
  have hplace : e.1 = p' := some.inj (hfacts.2.symm.trans hwaits')
  subst hplace
  obtain ⟨p'', k, hnext, hk, hbefore⟩ := hclosed j' hj'
  have hasked : (e.1, j') ∈ q := by
    obtain ⟨front, rest, hq, hin⟩ := hahead'
    rw [hq]
    exact mem_append_left _ hin
  have hle := hlast j' p'' e.1 hnext hasked
  have hgreatest := hmax _ (hmem j' hj' p'' k hnext hbefore)
  rcases Prod.Lex.le_iff.mp hgreatest with hlt | ⟨heq, hidx⟩
  · exact absurd hle (not_le.mpr hlt)
  · have hsame : p'' = e.1 := hrank heq
    subst hsame
    have hearlier := idxOf_lt hnodup hahead'
    exact absurd hearlier (not_lt.mpr hidx)

end SuperFunctions.Lib.LockQueues
