import SuperFunctions.Datafn.Server.Pagination

/-!
# Cursor pagination is exhaustive

The pages that are read by following the cursors are the sorted rows, in both executors, and the
page before a cursor is what stands before its record.
-/
namespace SuperFunctions.Datafn.Server.Pagination

open Lib.Paging Datafn.Core Client.LocalQuery List

section
variable {rt : Runtime} {terms : List SortTerm} {rows : List Fields}

/-! ## The place of a cursor -/

variable {i : Nat}

theorem Sorted.compare_getElem (h : Sorted rt terms rows) {j : Nat} (hi : i < rows.length)
    (hj : j < rows.length) (hij : i < j) : compareRanks rt terms rows[i] rows[j] = .lt :=
  pairwise_iff_getElem.mp h.increasing i j hi hj hij

theorem Sorted.nodup (h : Sorted rt terms rows) : rows.Nodup := by
  refine h.increasing.imp fun {a b} hlt heq => ?_
  have hself : compareRanks rt terms b b = .eq := Std.ReflCmp.compare_self
  rw [heq, hself] at hlt
  cases hlt

theorem lookup_cursorOf_term (record : Fields) :
    ∀ term ∈ terms, (cursorOf terms record).lookup term.field = record.lookup term.field :=
  fun _ hterm => lookup_cursorOf terms record (mem_map_of_mem hterm)

theorem findFirstAfterCursor_eq (hstring : ∀ s, rt.stringOf (.str s) = s) (h : Sorted rt terms rows)
    (hi : i < rows.length) {cursor : Cursor}
    (hcursor : ∀ term ∈ terms, cursor.lookup term.field = rows[i].lookup term.field) :
    findFirstAfterCursor rt rows cursor terms = i + 1 := by
  apply search_eq
  · omega
  · omega
  · intro j _ hj
    rw [getElem?_eq_getElem hj, Option.any_some]
    rcases Nat.lt_trichotomy j i with hlt | heq | hgt
    · have hne : rows[j] ≠ rows[i] :=
        fun hsame => absurd (h.nodup.getElem_inj_iff.mp hsame) (by omega)
      rw [isAfterCursor_eq hstring hcursor
        (h.orderly.comparable _ (getElem_mem hj) _ (getElem_mem hi) hne),
        h.compare_getElem hj hi hlt]
      constructor
      · exact nofun
      · intro hle
        omega
    · subst heq
      rw [isAfterCursor_self hcursor (h.orderly.scalar _ (getElem_mem hj))]
      constructor
      · exact nofun
      · intro hle
        omega
    · have hne : rows[j] ≠ rows[i] :=
        fun hsame => absurd (h.nodup.getElem_inj_iff.mp hsame) (by omega)
      have hswap : compareRanks rt terms rows[j] rows[i] =
          (compareRanks rt terms rows[i] rows[j]).swap := Std.OrientedCmp.eq_swap
      rw [isAfterCursor_eq hstring hcursor
        (h.orderly.comparable _ (getElem_mem hj) _ (getElem_mem hi) hne), hswap,
        h.compare_getElem hi hj hgt]
      exact ⟨fun _ => by omega, fun _ => rfl⟩
  · omega

/-! ## Forward -/

/-- The cursor that the record before a place leaves behind. -/
def cursorAt (terms : List SortTerm) (rows : List Fields) (k : Nat) : Cursor :=
  ((rows[k - 1]?).map (cursorOf terms)).getD []

theorem cursorAt_succ (hi : i < rows.length) :
    cursorAt terms rows (i + 1) = cursorOf terms rows[i] := by
  rw [cursorAt, Nat.add_sub_cancel, getElem?_eq_getElem hi]
  rfl

theorem applyCursorAfter_cursorAt (hstring : ∀ s, rt.stringOf (.str s) = s)
    (h : Sorted rt terms rows) {k : Nat} (hk : 0 < k) (hlt : k < rows.length) :
    applyCursorAfter rt rows (cursorAt terms rows k) terms = rows.drop k := by
  obtain ⟨i, rfl⟩ := Nat.exists_eq_add_one_of_ne_zero (by omega : k ≠ 0)
  have hi : i < rows.length := by omega
  rw [applyCursorAfter, cursorAt_succ hi,
    findFirstAfterCursor_eq hstring h hi (lookup_cursorOf_term _)]

theorem truthy_of_pos {limit : Nat} (h : 0 < limit) : truthy (some limit) = some limit := by
  cases limit with
  | zero => omega
  | succ limit => rfl

theorem page_of_drop {limit : Nat} (hlimit : 0 < limit) (k : Nat) :
    (((rows.drop k).take (limit + 1)).take limit,
      computeNextCursor ((rows.drop k).take (limit + 1)) terms (some limit)) =
        pageAt rows limit (cursorAt terms rows) k := by
  rw [pageAt, take_take, Nat.min_eq_left (Nat.le_succ limit), computeNextCursor,
    truthy_of_pos hlimit]
  dsimp only
  rw [length_take, length_drop]
  congr 1
  by_cases hmore : k + limit < rows.length
  · have hplace : k + limit = k + (limit - 1) + 1 := by omega
    have hlast : k + (limit - 1) < rows.length := by omega
    rw [if_pos hmore, if_pos (by omega), hplace, cursorAt_succ hlast,
      getElem?_take_of_lt (by omega), getElem?_drop, getElem?_eq_getElem hlast,
      Option.map_some]
  · rw [if_neg hmore, if_neg (by omega)]

section Pages
variable {matching : List Fields} {limit : Nat}

theorem executePage_none (hlimit : 0 < limit) :
    executePage rt matching (forward terms limit none) =
      .ok (pageAt (sortRecords rt matching terms) limit
        (cursorAt terms (sortRecords rt matching terms)) 0) := by
  rw [← page_of_drop hlimit]
  simp only [executePage, forward, truthy_of_pos hlimit]
  rfl

theorem pushdownPage_none (hlimit : 0 < limit) :
    pushdownPage rt (sortedAdapter rt matching terms) (forward terms limit none) =
      .ok (pageAt (sortRecords rt matching terms) limit
        (cursorAt terms (sortRecords rt matching terms)) 0) := by
  rw [← page_of_drop hlimit]
  simp only [pushdownPage, forward, truthy_of_pos hlimit]
  rfl

theorem pages_cursorAt (hstring : ∀ s, rt.stringOf (.str s) = s)
    (hid : validateSortForCursor terms = true)
    (h : Sorted rt terms (sortRecords rt matching terms)) (hlimit : 0 < limit) {k : Nat} (hk : 0 < k)
    (hlt : k < (sortRecords rt matching terms).length) :
    executePage rt matching
        (forward terms limit (some (cursorAt terms (sortRecords rt matching terms) k))) =
      .ok (pageAt (sortRecords rt matching terms) limit
        (cursorAt terms (sortRecords rt matching terms)) k) ∧
    pushdownPage rt (sortedAdapter rt matching terms)
        (forward terms limit (some (cursorAt terms (sortRecords rt matching terms) k))) =
      .ok (pageAt (sortRecords rt matching terms) limit
        (cursorAt terms (sortRecords rt matching terms)) k) := by
  rw [← page_of_drop hlimit, ← applyCursorAfter_cursorAt hstring h hk hlt]
  constructor
  · simp only [executePage, forward, truthy_of_pos hlimit, hid, Bool.not_true, Bool.and_false,
      Bool.false_eq_true, if_false]
    rfl
  · rw [take_take, Nat.min_eq_left (Nat.le_succ limit)]
    simp only [pushdownPage, forward, truthy_of_pos hlimit, hid, Bool.not_true, Bool.and_false,
      Bool.false_eq_true, if_false]
    rfl

/-! ## Backward -/

theorem applyCursorBefore_eq (hstring : ∀ s, rt.stringOf (.str s) = s) (h : Sorted rt terms rows)
    (hlimit : 0 < limit) (hi : i < rows.length) :
    applyCursorBefore rt rows (cursorOf terms rows[i]) terms (some limit) =
      (rows.take i).drop (i - limit) := by
  have hlength : rows.reverse.length = rows.length := length_reverse
  have hplace : rows.length - 1 - i < rows.reverse.length := by omega
  have hrecord : rows.reverse[rows.length - 1 - i] = rows[i] := by
    rw [getElem_reverse]
    congr 1
    omega
  have hcursor : ∀ term ∈ terms.map invert, (cursorOf terms rows[i]).lookup term.field =
      rows.reverse[rows.length - 1 - i].lookup term.field := by
    refine forall_mem_map.mpr fun old hold => ?_
    rw [hrecord]
    exact lookup_cursorOf_term rows[i] old hold
  rw [applyCursorBefore, applyCursorAfter,
    findFirstAfterCursor_eq hstring h.reverse hplace hcursor, truthy_of_pos hlimit]
  show (((rows.reverse.drop (rows.length - 1 - i + 1)).drop 0).take limit).reverse = _
  have hfirst : rows.length - 1 - i + 1 = rows.length - i := by omega
  rw [drop_zero, hfirst, drop_reverse, take_reverse, reverse_reverse, length_take]
  congr 1
  · omega
  · congr 1
    omega

theorem pages_backward (hstring : ∀ s, rt.stringOf (.str s) = s)
    (hid : validateSortForCursor terms = true) (h : Sorted rt terms (sortRecords rt matching terms))
    (hlimit : 0 < limit) (hi : i < (sortRecords rt matching terms).length) :
    executePage rt matching
        (backward terms limit (cursorOf terms ((sortRecords rt matching terms)[i]))) =
      .ok (((sortRecords rt matching terms).take i).drop (i - limit),
        lastCursor (((sortRecords rt matching terms).take i).drop (i - limit)) terms) ∧
    pushdownPage rt (sortedAdapter rt matching terms)
        (backward terms limit (cursorOf terms ((sortRecords rt matching terms)[i]))) =
      .ok (((sortRecords rt matching terms).take i).drop (i - limit),
        lastCursor (((sortRecords rt matching terms).take i).drop (i - limit)) terms) := by
  rw [← applyCursorBefore_eq hstring h hlimit hi]
  simp only [executePage, pushdownPage, backward, hid, Bool.not_true, Bool.and_false,
    Bool.false_eq_true, if_false, true_and]
  rfl

end Pages

/-! ## All pages -/

/-- The pages that a function returns from the first on are the sorted rows, each once, and those
it returns before the cursor of a row are the rows before it. -/
structure Exhaustive (rt : Runtime) (terms : List SortTerm) (limit : Nat) (matching : List Fields)
    (page : PageQuery → Except ExecutionError Page) : Prop where
  forwards : ∃ fuel pages, follow (fun cursor => page (forward terms limit cursor)) fuel none =
    some pages ∧ pages.flatten = sortRecords rt matching terms ∧ pages.flatten.Perm matching
  backwards : ∀ i (hi : i < (sortRecords rt matching terms).length), ∃ next,
    page (backward terms limit (cursorOf terms ((sortRecords rt matching terms)[i]))) =
      .ok (((sortRecords rt matching terms).take i).drop (i - limit), next)

end

/-! ## Tasks with and without a due date -/

def task (id : String) (due : Json) : Fields := [("id", .str id), ("due", due)]

def byDue : List SortTerm := [⟨"due", .desc⟩, ⟨"id", .asc⟩]

/-- Dates and their ties. -/
def datedTasks : List Fields :=
  [task "a" (.num 2), task "b" (.num 3), task "c" (.num 2), task "d" (.num 1), task "e" (.num 5)]

def notE (record : Fields) : Bool := idString .codePoints record != "e"

/-- One of the tasks has no due date. -/
def undatedTasks : List Fields := [task "a" (.num 2), task "b" .null]

def byDueAscending : List SortTerm := [⟨"due", .asc⟩, ⟨"id", .asc⟩]

end SuperFunctions.Datafn.Server.Pagination
