import Mathlib

/-!
# The proleptic Gregorian calendar

Days are counted from the first of January 1970, months from the January of the year zero. A day
lies in one month, and the first days of the months increase.
-/
namespace SuperFunctions.Lib.Calendar

open List

/-! ## Years -/

def dayFromYear (y : Int) : Int :=
  365 * (y - 1970) + (y - 1969) / 4 - (y - 1901) / 100 + (y - 1601) / 400

/-- One in a leap year, nothing otherwise. -/
def leapDay (y : Int) : Int := if y % 4 = 0 ∧ (y % 100 ≠ 0 ∨ y % 400 = 0) then 1 else 0

theorem dayFromYear_succ (y : Int) : dayFromYear (y + 1) = dayFromYear y + 365 + leapDay y := by
  rw [dayFromYear, dayFromYear, leapDay]
  split_ifs
  · omega
  · omega

/-- The year a day lies in; the quotient is at most one off. -/
def yearFromDay (d : Int) : Int :=
  let y := 1970 + d * 400 / 146097
  if d < dayFromYear y then y - 1
  else if dayFromYear (y + 1) ≤ d then y + 1
  else y

theorem yearFromDay_spec (d : Int) :
    dayFromYear (yearFromDay d) ≤ d ∧ d < dayFromYear (yearFromDay d + 1) := by
  rw [yearFromDay]
  split_ifs with hlow hhigh
  · have hfirst : dayFromYear (1970 + d * 400 / 146097 - 1) ≤ d := by
      rw [dayFromYear]
      omega
    rw [Int.sub_add_cancel]
    exact ⟨hfirst, hlow⟩
  · have hlast : d < dayFromYear (1970 + d * 400 / 146097 + 1 + 1) := by
      rw [dayFromYear]
      omega
    exact ⟨hhigh, hlast⟩
  · exact ⟨not_lt.mp hlow, not_le.mp hhigh⟩

/-! ## Consecutive segments -/

/-- What comes before a segment. -/
def before (lengths : List Int) (m : Nat) : Int := (lengths.take m).sum

/-- The segment a position lies in. -/
def segment : List Int → Int → Nat
  | [], _ => 0
  | length :: rest, r => if r < length then 0 else segment rest (r - length) + 1

theorem before_cons_succ (length : Int) (rest : List Int) (m : Nat) :
    before (length :: rest) (m + 1) = length + before rest m := by
  rfl

theorem segment_spec {lengths : List Int} {r : Int} (h0 : 0 ≤ r) (h1 : r < lengths.sum) :
    segment lengths r < lengths.length ∧ before lengths (segment lengths r) ≤ r ∧
      r < before lengths (segment lengths r + 1) := by
  induction lengths generalizing r with
  | nil =>
    rw [sum_nil] at h1
    omega
  | cons length rest ih =>
    rw [sum_cons] at h1
    rw [segment]
    split_ifs with hr
    · refine ⟨by simp, h0, ?_⟩
      simpa [before] using hr
    · obtain ⟨hlt, hlow, hhigh⟩ := ih (by omega : 0 ≤ r - length) (by omega)
      refine ⟨by simpa using hlt, ?_, ?_⟩
      · rw [before_cons_succ]
        omega
      · rw [before_cons_succ]
        omega

theorem before_lt_succ {lengths : List Int} (hpos : ∀ length ∈ lengths, 0 < length) {m : Nat}
    (hm : m < lengths.length) : before lengths m < before lengths (m + 1) := by
  rw [before, before, take_add_one, getElem?_eq_getElem hm, sum_append]
  have hlength := hpos _ (getElem_mem hm)
  simp only [Option.toList_some, sum_cons, sum_nil]
  omega

/-! ## Months -/

def monthLengths (leap : Int) : List Int := [31, 28 + leap, 31, 30, 31, 30, 31, 31, 30, 31, 30, 31]

/-- The first day of the month. -/
def monthStart (k : Int) : Int :=
  dayFromYear (k / 12) + before (monthLengths (leapDay (k / 12))) (k % 12).toNat

/-- Months, counted from zero, and days may be out of their range. -/
def makeDay (year month date : Int) : Int := monthStart (12 * year + month) + date - 1

/-- The month within its year. -/
def monthFromDay (d : Int) : Int :=
  segment (monthLengths (leapDay (yearFromDay d))) (d - dayFromYear (yearFromDay d))

/-- The month a day lies in. -/
def monthIndex (d : Int) : Int := 12 * yearFromDay d + monthFromDay d

def dateFromDay (d : Int) : Int := d - monthStart (monthIndex d) + 1

theorem leapDay_cases (y : Int) : leapDay y = 0 ∨ leapDay y = 1 := by
  rw [leapDay]
  split_ifs
  · exact .inr rfl
  · exact .inl rfl

theorem sum_monthLengths (leap : Int) : (monthLengths leap).sum = 365 + leap := by
  simp only [monthLengths, sum_cons, sum_nil]
  omega

theorem monthLengths_pos (y : Int) : ∀ length ∈ monthLengths (leapDay y), 0 < length := by
  rcases leapDay_cases y with h | h
  · rw [h]
    decide
  · rw [h]
    decide

theorem monthStart_add (y : Int) {m : Nat} (h12 : m ≤ 12) :
    monthStart (12 * y + m) = dayFromYear y + before (monthLengths (leapDay y)) m := by
  by_cases hlast : m = 12
  · have hdiv : (12 * y + (m : Int)) / 12 = y + 1 := by omega
    have hmod : (12 * y + (m : Int)) % 12 = 0 := by omega
    have hall : before (monthLengths (leapDay y)) 12 = 365 + leapDay y := sum_monthLengths _
    rw [monthStart, hdiv, hmod, dayFromYear_succ, hlast, hall, Int.toNat_zero, before,
      take_zero, sum_nil]
    omega
  · have hdiv : (12 * y + (m : Int)) / 12 = y := by omega
    have hmod : (12 * y + (m : Int)) % 12 = m := by omega
    rw [monthStart, hdiv, hmod, Int.toNat_natCast]

theorem monthStart_strictMono : StrictMono monthStart := by
  apply strictMono_int_of_lt_succ
  intro k
  have hnext : k + 1 = 12 * (k / 12) + (((k % 12).toNat + 1 : Nat) : Int) := by omega
  have hmonth : (k % 12).toNat < (monthLengths (leapDay (k / 12))).length := by
    show (k % 12).toNat < 12
    omega
  rw [hnext, monthStart_add (k / 12) (by omega), monthStart]
  have hlt := before_lt_succ (monthLengths_pos (k / 12)) hmonth
  omega

theorem monthFromDay_bounds (d : Int) : 0 ≤ monthFromDay d ∧ monthFromDay d < 12 := by
  obtain ⟨hlow, hhigh⟩ := yearFromDay_spec d
  rw [dayFromYear_succ] at hhigh
  have hsum := sum_monthLengths (leapDay (yearFromDay d))
  obtain ⟨hlt, -, -⟩ := segment_spec (by omega : 0 ≤ d - dayFromYear (yearFromDay d))
    (by rw [hsum]; omega : _ < (monthLengths (leapDay (yearFromDay d))).sum)
  have h12 : segment (monthLengths (leapDay (yearFromDay d))) (d - dayFromYear (yearFromDay d)) <
    12 := hlt
  rw [monthFromDay]
  omega

theorem monthIndex_spec (d : Int) :
    monthStart (monthIndex d) ≤ d ∧ d < monthStart (monthIndex d + 1) := by
  obtain ⟨hlow, hhigh⟩ := yearFromDay_spec d
  rw [dayFromYear_succ] at hhigh
  have hsum := sum_monthLengths (leapDay (yearFromDay d))
  obtain ⟨hlt, h0, h1⟩ := segment_spec (by omega : 0 ≤ d - dayFromYear (yearFromDay d))
    (by rw [hsum]; omega : _ < (monthLengths (leapDay (yearFromDay d))).sum)
  have h12 : segment (monthLengths (leapDay (yearFromDay d))) (d - dayFromYear (yearFromDay d)) <
    12 := hlt
  have hnext := monthStart_add (yearFromDay d) h12
  rw [Nat.succ_eq_add_one, Int.natCast_add, ← Int.add_assoc] at hnext
  have hthis := monthStart_add (yearFromDay d) h12.le
  rw [monthIndex, monthFromDay, hthis]
  have hone : ((1 : Nat) : Int) = 1 := rfl
  rw [hone] at hnext
  omega

theorem makeDay_ofDay (d : Int) : makeDay (yearFromDay d) (monthFromDay d) (dateFromDay d) = d := by
  rw [makeDay, dateFromDay, monthIndex]
  omega

end SuperFunctions.Lib.Calendar

/-!
# Grids

A grid cuts the integers at increasing boundaries, and every integer lies between two consecutive
ones. A clock that passes both boundaries of a cell shows the cell during one stretch of time.
-/
namespace SuperFunctions.Lib.Grids

structure Grid where
  boundary : Int → Int
  /-- The cell an integer lies in. -/
  cell : Int → Int
  increasing : StrictMono boundary
  between : ∀ x, boundary (cell x) ≤ x ∧ x < boundary (cell x + 1)

namespace Grid

variable (g : Grid) {x y k : Int}

def floor (x : Int) : Int := g.boundary (g.cell x)

def next (x : Int) : Int := g.boundary (g.cell x + 1)

theorem floor_le (x : Int) : g.floor x ≤ x := (g.between x).1

theorem lt_next (x : Int) : x < g.next x := (g.between x).2

theorem cell_eq (hlow : g.boundary k ≤ x) (hhigh : x < g.boundary (k + 1)) : g.cell x = k := by
  obtain ⟨hx, hx'⟩ := g.between x
  have hlt : g.cell x < k + 1 := g.increasing.lt_iff_lt.mp (lt_of_le_of_lt hx hhigh)
  have hgt : k < g.cell x + 1 := g.increasing.lt_iff_lt.mp (lt_of_le_of_lt hlow hx')
  omega

theorem cell_boundary (k : Int) : g.cell (g.boundary k) = k :=
  g.cell_eq le_rfl (g.increasing (by omega))

theorem cell_eq_of_between (hlow : g.floor x ≤ y) (hhigh : y < g.next x) : g.cell y = g.cell x :=
  g.cell_eq hlow hhigh

theorem floor_eq_of_cell (h : g.cell y = g.cell x) : g.floor y = g.floor x := by
  rw [floor, h, floor]

theorem next_eq_of_cell (h : g.cell y = g.cell x) : g.next y = g.next x := by
  rw [next, h, next]

theorem cell_eq_of_floor (h : g.floor y = g.floor x) : g.cell y = g.cell x := by
  rw [← g.cell_boundary (g.cell y), ← floor, h, floor, g.cell_boundary]

@[simp] theorem floor_floor (x : Int) : g.floor (g.floor x) = g.floor x := by
  rw [floor, floor, g.cell_boundary]

@[simp] theorem next_floor (x : Int) : g.next (g.floor x) = g.next x := by
  rw [next, floor, g.cell_boundary, next]

/-! ## Grids on grids -/

/-- Every `n` steps of the integers. -/
def every (n : Int) (hn : 0 < n) (offset : Int) : Grid where
  boundary k := n * k + offset
  cell x := (x - offset) / n
  increasing := by
    intro a b hab
    have := Int.mul_lt_mul_of_pos_left hab hn
    show n * a + offset < n * b + offset
    omega
  between := by
    intro x
    have hdiv := Int.mul_ediv_add_emod (x - offset) n
    have h0 := Int.emod_nonneg (x - offset) hn.ne'
    have h1 := Int.emod_lt_of_pos (x - offset) hn
    rw [Int.mul_add]
    omega

/-- The cells of the outer grid cut where the inner grid cuts their numbers. -/
def coarsen (outer inner : Grid) : Grid where
  boundary k := outer.boundary (inner.boundary k)
  cell x := inner.cell (outer.cell x)
  increasing := outer.increasing.comp inner.increasing
  between := by
    intro x
    obtain ⟨hlow, hhigh⟩ := inner.between (outer.cell x)
    obtain ⟨hx, hx'⟩ := outer.between x
    refine ⟨le_trans (outer.increasing.monotone hlow) hx, lt_of_lt_of_le hx' ?_⟩
    exact outer.increasing.monotone hhigh

/-! ## A clock on a grid -/

/-- From `first` until `last`, and at no other time, the clock shows the cell of `x`. -/
def ShownDuring (clock : Int → Int) (x first last : Int) : Prop :=
  ∀ s, first ≤ s ∧ s < last ↔ g.floor x ≤ clock s ∧ clock s < g.next x

variable {g} {clock : Int → Int} {first last s t : Int}

theorem ShownDuring.cell_eq (h : g.ShownDuring clock x first last) (h0 : first ≤ s)
    (h1 : s < last) : g.cell (clock s) = g.cell x := by
  obtain ⟨hlow, hhigh⟩ := (h s).mp ⟨h0, h1⟩
  exact g.cell_eq_of_between hlow hhigh

theorem ShownDuring.mem (h : g.ShownDuring clock x first last)
    (hcell : g.cell (clock s) = g.cell x) : first ≤ s ∧ s < last := by
  have hlow := g.floor_le (clock s)
  have hhigh := g.lt_next (clock s)
  rw [g.floor_eq_of_cell hcell] at hlow
  rw [g.next_eq_of_cell hcell] at hhigh
  exact (h s).mpr ⟨hlow, hhigh⟩

end Grid
end SuperFunctions.Lib.Grids
