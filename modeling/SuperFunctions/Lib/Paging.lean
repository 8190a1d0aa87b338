import Mathlib.Data.List.Sort

/-!
# Keyset pagination

Rows with distinct keys, listed in the order of their keys and read in pages: a page is a
bounded prefix of the rows whose key lies beyond the last key of the page before.
-/
namespace SuperFunctions.Lib.Keyset

open List

universe u v

variable {α : Type u} {κ : Type v} [LinearOrder κ] (key : α → κ)

/-- The keys increase strictly along the list. -/
def Increasing (rows : List α) : Prop := rows.Pairwise fun a b => key a < key b

def sortByKey (rows : List α) : List α := rows.insertionSort fun a b => key a ≤ key b

/-- The rows beyond `after`, or all of them. -/
def rowsAfter (after : Option κ) (rows : List α) : List α :=
  match after with
  | none => rows
  | some k => rows.filter fun a => k < key a

variable {rows : List α}

theorem mem_sortByKey {a : α} : a ∈ sortByKey key rows ↔ a ∈ rows :=
  mem_insertionSort _

theorem increasing_sortByKey (h : (rows.map key).Nodup) : Increasing key (sortByKey key rows) := by
  have hsorted : (sortByKey key rows).Pairwise fun a b => key a ≤ key b :=
    pairwise_insertionSort _ rows
  have hdistinct : (sortByKey key rows).Pairwise fun a b => key a ≠ key b := by
    rw [← pairwise_map]
    exact ((perm_insertionSort _ rows).map key).nodup_iff.mpr h
  exact (hsorted.and hdistinct).imp fun hab => lt_of_le_of_ne hab.1 hab.2

theorem mem_rowsAfter {after : Option κ} {a : α} :
    a ∈ rowsAfter key after rows ↔ a ∈ rows ∧ ∀ k ∈ after, k < key a := by
  cases after with
  | none | some k => simp [rowsAfter]

theorem Increasing.rowsAfter (h : Increasing key rows) (after : Option κ) :
    Increasing key (rowsAfter key after rows) := by
  cases after with
  | none => exact h
  | some k => exact List.Pairwise.sublist filter_sublist h

variable {last : α}

theorem key_le_getLast (h : Increasing key rows) (hlast : rows.getLast? = some last) {a : α}
    (ha : a ∈ rows) : key a ≤ key last := by
  obtain ⟨front, rfl⟩ := getLast?_eq_some_iff.mp hlast
  rcases mem_append.mp ha with hfront | hend
  · exact le_of_lt ((pairwise_append.mp h).2.2 a hfront last mem_cons_self)
  · rw [mem_singleton.mp hend]

theorem mem_page_or_after (h : Increasing key rows) {limit : Nat}
    (hlast : (rows.take limit).getLast? = some last) {a : α} (ha : a ∈ rows) :
    a ∈ rows.take limit ∨ key last < key a := by
  rw [← take_append_drop limit rows, mem_append] at ha
  rcases ha with hpage | hrest
  · exact .inl hpage
  refine .inr ?_
  have hsplit : Increasing key (rows.take limit ++ rows.drop limit) := by
    rwa [take_append_drop]
  exact (pairwise_append.mp hsplit).2.2 last (mem_of_getLast? hlast) a hrest

end SuperFunctions.Lib.Keyset

/-!
# Pages of a list

A binary search for the first place where a predicate holds, and the pages that are read by
following the cursor of each page to the next.
-/
namespace SuperFunctions.Lib.Paging

open List

universe u v w

/-! ## Binary search -/

/-- The search between `lo` and `hi`, halved as often as the first number allows. -/
def search (p : Nat → Bool) : Nat → Nat → Nat → Nat
  | 0, lo, _ => lo
  | fuel + 1, lo, hi =>
    if lo < hi then
      if p ((lo + hi) / 2) then search p fuel lo ((lo + hi) / 2)
      else search p fuel ((lo + hi) / 2 + 1) hi
    else lo

theorem search_eq {p : Nat → Bool} {k fuel lo hi : Nat} (hlo : lo ≤ k) (hhi : k ≤ hi)
    (hp : ∀ i, lo ≤ i → i < hi → (p i = true ↔ k ≤ i)) (hfuel : hi - lo ≤ fuel) :
    search p fuel lo hi = k := by
  induction fuel generalizing lo hi with
  | zero =>
    rw [search]
    omega
  | succ fuel ih =>
    rw [search]
    split_ifs with hlt hmid
    · have hk : k ≤ (lo + hi) / 2 := (hp _ (by omega) (by omega)).mp hmid
      exact ih hlo hk (fun i hi₁ hi₂ => hp i hi₁ (by omega)) (by omega)
    · have hk : ¬ k ≤ (lo + hi) / 2 := fun h => hmid ((hp _ (by omega) (by omega)).mpr h)
      exact ih (by omega) hhi (fun i hi₁ hi₂ => hp i (by omega) hi₂) (by omega)
    · omega

/-! ## Following cursors -/

variable {α : Type u} {C : Type v} {E : Type w}

/-- The pages from a cursor on, up to one that names no next cursor. -/
def follow (page : Option C → Except E (List α × Option C)) : Nat → Option C →
    Option (List (List α))
  | 0, _ => none
  | fuel + 1, cursor =>
    match page cursor with
    | .error _ => none
    | .ok (records, none) => some [records]
    | .ok (records, some next) => (follow page fuel (some next)).map (records :: ·)

/-- The page of a list at a place, `cursorAt` being what stands for the places. -/
def pageAt (xs : List α) (limit : Nat) (cursorAt : Nat → C) (k : Nat) : List α × Option C :=
  ((xs.drop k).take limit, if k + limit < xs.length then some (cursorAt (k + limit)) else none)

theorem follow_eq {page : Option C → Except E (List α × Option C)} {xs : List α} {limit : Nat}
    {cursorAt : Nat → C} (hlimit : 0 < limit)
    (hpage : ∀ k, 0 < k → k < xs.length → page (some (cursorAt k)) = .ok (pageAt xs limit cursorAt k))
    {fuel k : Nat} {cursor : Option C} (hcursor : page cursor = .ok (pageAt xs limit cursorAt k))
    (hfuel : xs.length - k < fuel) :
    ∃ pages, follow page fuel cursor = some pages ∧ pages.flatten = xs.drop k := by
  induction fuel generalizing k cursor with
  | zero => omega
  | succ fuel ih =>
    by_cases hmore : k + limit < xs.length
    · have hnext := hpage (k + limit) (by omega) hmore
      obtain ⟨pages, hpages, hflat⟩ := ih hnext (by omega)
      refine ⟨(xs.drop k).take limit :: pages, ?_, ?_⟩
      · rw [follow, hcursor, pageAt, if_pos hmore]
        show (follow page fuel (some (cursorAt (k + limit)))).map _ = _
        rw [hpages]
        rfl
      · rw [flatten_cons, hflat, ← drop_drop, take_append_drop]
    · refine ⟨[(xs.drop k).take limit], ?_, ?_⟩
      · rw [follow, hcursor, pageAt, if_neg hmore]
      · rw [flatten_singleton]
        apply take_of_length_le
        rw [length_drop]
        omega

end SuperFunctions.Lib.Paging
