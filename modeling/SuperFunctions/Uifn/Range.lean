import Mathlib.Data.Rat.Floor

/-!
# Values of a range

A value is moved to the nearest step from the minimum. Numbers are exact, and the text of a number,
from which its decimals are told, is a parameter.
-/
namespace SuperFunctions.Uifn.Range

structure RangeDefinition where
  min : Rat
  max : Rat
  step : Option Rat

def RangeDefinition.stepSize (d : RangeDefinition) : Rat := d.step.getD 1

/-- `Math.round` -/
def round (x : Rat) : Int := ⌊x + 1 / 2⌋

/-- `Number(x.toFixed(digits))` -/
def toFixed (digits : Nat) (x : Rat) : Rat :=
  if x < 0 then -(round (-x * 10 ^ digits) / 10 ^ digits)
  else round (x * 10 ^ digits) / 10 ^ digits

def clampRangeValue (value min max : Rat) : Rat := Min.min (Max.max value min) max

/-- What follows `e-`. -/
def negativeExponent : List Char → Option (List Char)
  | [] => none
  | 'e' :: '-' :: rest => some rest
  | _ :: rest => negativeExponent rest

section Align

variable (textOf : Rat → List Char)

def decimals (value : Rat) : Nat :=
  let text := textOf value
  match negativeExponent text with
  | some exponent => exponent.foldl (fun n c => 10 * n + (c.toNat - '0'.toNat)) 0
  | none => (text.dropWhile (· ≠ '.')).length - 1

def precision (d : RangeDefinition) : Nat :=
  min 12 (max (max (decimals textOf d.min) (decimals textOf d.max)) (decimals textOf d.stepSize))

/-- `none` when the definition is refused. -/
def alignRangeValue (value : Rat) (d : RangeDefinition) : Option Rat :=
  if d.max < d.min ∨ d.stepSize ≤ 0 then none
  else
    let aligned :=
      d.min + round ((clampRangeValue value d.min d.max - d.min) / d.stepSize) * d.stepSize
    some (clampRangeValue (toFixed (precision textOf d) aligned) d.min d.max)

end Align

theorem round_intCast (k : Int) : round k = k := by
  rw [round, Int.floor_eq_iff]
  constructor <;> linarith

/-- A number that has so few decimals is kept. -/
theorem toFixed_eq {digits : Nat} {x : Rat} {k : Int} (h : x * 10 ^ digits = k) :
    toFixed digits x = x := by
  unfold toFixed
  split
  · rw [neg_mul, h, ← Int.cast_neg, round_intCast, Int.cast_neg, ← h]
    field_simp
  · rw [h, round_intCast, ← h]
    field_simp

theorem toFixed_digits (digits : Nat) (x : Rat) :
    ∃ k : Int, toFixed digits x * 10 ^ digits = k := by
  unfold toFixed
  split
  · exact ⟨-round (-x * 10 ^ digits), by push_cast; field_simp⟩
  · exact ⟨round (x * 10 ^ digits), by field_simp⟩

theorem clamp_bounds (value : Rat) {min max : Rat} (h : min ≤ max) :
    min ≤ clampRangeValue value min max ∧ clampRangeValue value min max ≤ max :=
  ⟨le_min (le_max_right _ _) h, min_le_right _ _⟩

theorem clamp_eq {value min max : Rat} (hmin : min ≤ value) (hmax : value ≤ max) :
    clampRangeValue value min max = value := by
  rw [clampRangeValue, max_eq_left hmin, min_eq_left hmax]

theorem clamp_above {value min max : Rat} (h : min ≤ max) (hv : max ≤ value) :
    clampRangeValue value min max = max := by
  rw [clampRangeValue, max_eq_left (h.trans hv), min_eq_right hv]

def GridPoint (d : RangeDefinition) (x : Rat) : Prop := ∃ k : Int, x = d.min + k * d.stepSize

/-- The definition is accepted, and its steps have no more decimals than its precision. -/
structure Precise (textOf : Rat → List Char) (d : RangeDefinition) : Prop where
  bounds : d.min ≤ d.max
  step : 0 < d.stepSize
  kept : ∀ x, GridPoint d x → ∃ k : Int, x * 10 ^ precision textOf d = k

/-- The nearest step from the minimum. -/
def nearest (d : RangeDefinition) (x : Rat) : Rat :=
  d.min + round ((x - d.min) / d.stepSize) * d.stepSize

section Nearest

variable {textOf : Rat → List Char} {d : RangeDefinition} {g x : Rat}

theorem gridPoint_add (h : GridPoint d x) (n : Int) : GridPoint d (x + n * d.stepSize) := by
  obtain ⟨k, rfl⟩ := h
  exact ⟨k + n, by push_cast; ring⟩

theorem gridPoint_nearest (d : RangeDefinition) (x : Rat) : GridPoint d (nearest d x) := ⟨_, rfl⟩

section

variable (hstep : 0 < d.stepSize)
include hstep

theorem add_step_le (hx : GridPoint d x) (hg : GridPoint d g) (h : x < g) : x + d.stepSize ≤ g := by
  obtain ⟨k, rfl⟩ := hx
  obtain ⟨l, rfl⟩ := hg
  have hlt : (k : Rat) < l := lt_of_mul_lt_mul_right (by linarith) hstep.le
  have hle : (k : Rat) + 1 ≤ l := by exact_mod_cast hlt
  have := mul_le_mul_of_nonneg_right hle hstep.le
  linarith

/-- A step is reached from half a step before it on. -/
theorem le_nearest_iff (hg : GridPoint d g) : g ≤ nearest d x ↔ g - d.stepSize / 2 ≤ x := by
  obtain ⟨k, rfl⟩ := hg
  calc d.min + k * d.stepSize ≤ nearest d x
      ↔ (k : Rat) ≤ round ((x - d.min) / d.stepSize) := by
        rw [nearest, add_le_add_iff_left, mul_le_mul_iff_left₀ hstep]
    _ ↔ (k - 1 / 2 : Rat) ≤ (x - d.min) / d.stepSize := by
        rw [Int.cast_le, round, Int.le_floor, sub_le_iff_le_add]
    _ ↔ d.min + k * d.stepSize - d.stepSize / 2 ≤ x := by
        rw [le_div_iff₀ hstep]
        constructor <;> intro h <;> linarith

theorem le_nearest (hg : GridPoint d g) (hx : g ≤ x) : g ≤ nearest d x :=
  (le_nearest_iff hstep hg).mpr (by linarith)

theorem nearest_lt (hg : GridPoint d g) (hx : x < g + d.stepSize / 2) : nearest d x ≤ g := by
  by_contra hlt
  have hnext := add_step_le hstep hg (gridPoint_nearest d x) (not_le.mp hlt)
  have hback := (le_nearest_iff hstep (gridPoint_nearest d x)).mp le_rfl
  linarith

theorem nearest_le (hg : GridPoint d g) (hx : x ≤ g) : nearest d x ≤ g :=
  nearest_lt hstep hg (by linarith)

end

theorem align_eq (hbounds : d.min ≤ d.max) (hstep : 0 < d.stepSize) (x : Rat) :
    alignRangeValue textOf x d = some (clampRangeValue (toFixed (precision textOf d)
      (nearest d (clampRangeValue x d.min d.max))) d.min d.max) := by
  have haccepted : ¬(d.max < d.min ∨ d.stepSize ≤ 0) :=
    not_or.mpr ⟨not_lt.mpr hbounds, not_le.mpr hstep⟩
  rw [alignRangeValue, if_neg haccepted]
  rfl

theorem Precise.align (h : Precise textOf d) (x : Rat) :
    alignRangeValue textOf x d =
      some (clampRangeValue (nearest d (clampRangeValue x d.min d.max)) d.min d.max) := by
  obtain ⟨k, hk⟩ := h.kept _ (gridPoint_nearest d (clampRangeValue x d.min d.max))
  rw [align_eq h.bounds h.step, toFixed_eq hk]

/-- Between a step and a step or the maximum, the aligned value stays between them. -/
theorem align_between (h : Precise textOf d) {lower upper : Rat} (raw : Rat)
    (hlower : GridPoint d lower) (hmin : d.min ≤ lower) (hle : lower ≤ upper)
    (hmax : upper ≤ d.max) (hupper : upper = d.max ∨ GridPoint d upper) :
    ∃ y, alignRangeValue textOf (clampRangeValue raw lower upper) d = some y ∧
      lower ≤ y ∧ y ≤ upper := by
  obtain ⟨hfrom, hto⟩ := clamp_bounds raw hle
  refine ⟨_, h.align _, ?_⟩
  rw [clamp_eq (hmin.trans hfrom) (hto.trans hmax)]
  refine ⟨le_min (le_max_of_le_left (le_nearest h.step hlower hfrom)) (hle.trans hmax), ?_⟩
  rcases hupper with rfl | hgrid
  · exact min_le_right _ _
  · exact (min_le_left _ _).trans (max_le (nearest_le h.step hgrid hto) (hmin.trans hle))

end Nearest

/-- The text of a whole number. -/
def digits (v : Rat) : List Char := (toString v.num).toList

theorem precise_digits : Precise digits ⟨0, 10, none⟩ := by
  have hzero : precision digits ⟨0, 10, none⟩ = 0 := by decide +kernel
  refine ⟨by decide +kernel, by decide +kernel, ?_⟩
  rintro x ⟨k, rfl⟩
  exact ⟨k, by simp [hzero, RangeDefinition.stepSize]⟩

end SuperFunctions.Uifn.Range
