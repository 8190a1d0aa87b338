import Mathlib.Data.Rat.Floor

/-!
# The virtual window

Of a list of items of one size only those around the viewport are rendered. Numbers are exact.
-/
namespace SuperFunctions.Uifn.Virtualization

open Int

structure Options where
  count : Rat
  estimateSize : Rat
  overscan : Option Rat

structure VirtualWindow where
  start : Int
  «end» : Int
  offset : Rat
  totalSize : Rat
deriving DecidableEq

structure VirtualizerContract where
  count : Int
  estimateSize : Rat
  overscan : Int

/-- `Number.EPSILON` -/
def epsilon : Rat := 1 / 2 ^ 52

def createVirtualizerContract (options : Options) : VirtualizerContract where
  count := max 0 ⌊options.count⌋
  estimateSize := max epsilon options.estimateSize
  overscan := max 0 ⌊options.overscan.getD 2⌋

namespace VirtualizerContract

variable (c : VirtualizerContract)

def getIndexAtOffset (offset : Rat) : Int :=
  max 0 (min (c.count - 1) ⌊max 0 offset / c.estimateSize⌋)

def getOffsetForIndex (index : Rat) : Rat := (max 0 (min c.count ⌊index⌋) : Int) * c.estimateSize

def getWindow (scrollOffset viewportSize : Rat) : VirtualWindow :=
  if c.count = 0 then ⟨0, -1, 0, 0⟩
  else
    let start := max 0 (c.getIndexAtOffset scrollOffset - c.overscan)
    let visible := max 1 ⌈max 0 viewportSize / c.estimateSize⌉
    let «end» := min (c.count - 1) (start + visible + c.overscan * 2 - 1)
    ⟨start, «end», start * c.estimateSize, c.count * c.estimateSize⟩

/-- Some point of the item is in the viewport. -/
def Intersects (scrollOffset viewportSize : Rat) (i : Int) : Prop :=
  ∃ x, scrollOffset ≤ x ∧ x < scrollOffset + viewportSize ∧
    i * c.estimateSize ≤ x ∧ x < (i + 1) * c.estimateSize

structure Covers (scrollOffset viewportSize : Rat) : Prop where
  covered : ∀ i : Int, 0 ≤ i → i < c.count → c.Intersects scrollOffset viewportSize i →
    (c.getWindow scrollOffset viewportSize).start ≤ i ∧
      i ≤ (c.getWindow scrollOffset viewportSize).end
  bounds : 0 < c.count → 0 ≤ (c.getWindow scrollOffset viewportSize).start ∧
    (c.getWindow scrollOffset viewportSize).start ≤ (c.getWindow scrollOffset viewportSize).end ∧
    (c.getWindow scrollOffset viewportSize).end < c.count
  offset : (c.getWindow scrollOffset viewportSize).offset =
    c.getOffsetForIndex (c.getWindow scrollOffset viewportSize).start
  index : ∀ i : Int, 0 ≤ i → i < c.count → c.getIndexAtOffset (c.getOffsetForIndex i) = i

/-- What the viewport shows ends within as many items as fit, from the one at its start. -/
def Fits (scrollOffset viewportSize : Rat) : Prop :=
  min (scrollOffset + viewportSize) (c.count * c.estimateSize) ≤
    (⌊max 0 scrollOffset / c.estimateSize⌋ + max 1 ⌈max 0 viewportSize / c.estimateSize⌉ : Int) *
      c.estimateSize

variable {c} (hsize : 0 < c.estimateSize)
include hsize

theorem floor_le (x : Rat) : ⌊max 0 x / c.estimateSize⌋ * c.estimateSize ≤ max 0 x :=
  (le_div_iff₀ hsize).mp (Int.floor_le _)

theorem lt_floor (x : Rat) : max 0 x < (⌊max 0 x / c.estimateSize⌋ + 1 : Int) * c.estimateSize := by
  rw [← div_lt_iff₀ hsize, cast_add, cast_one]
  exact lt_floor_add_one _

theorem floor_nonneg (x : Rat) : 0 ≤ ⌊max 0 x / c.estimateSize⌋ :=
  Int.floor_nonneg.mpr (div_nonneg (le_max_left ..) hsize.le)

theorem le_ceil (x : Rat) : max 0 x ≤ ⌈max 0 x / c.estimateSize⌉ * c.estimateSize :=
  (div_le_iff₀ hsize).mp (Int.le_ceil _)

theorem lt_of_mul_lt {i j : Int} (h : (i : Rat) * c.estimateSize < j * c.estimateSize) : i < j := by
  exact_mod_cast lt_of_mul_lt_mul_right h hsize.le

theorem getIndexAtOffset_getOffsetForIndex {i : Int} (hi : 0 ≤ i) (hlt : i < c.count) :
    c.getIndexAtOffset (c.getOffsetForIndex i) = i := by
  have hnonneg : (0 : Rat) ≤ i * c.estimateSize :=
    mul_nonneg (by exact_mod_cast hi) hsize.le
  unfold getIndexAtOffset getOffsetForIndex
  rw [floor_intCast, min_eq_right hlt.le, max_eq_right hi, max_eq_right hnonneg,
    mul_div_assoc, div_self hsize.ne', mul_one, floor_intCast]
  omega

/-- The items in the viewport: the one at its start and as many more as fit. -/
theorem index_of_intersects {s v : Rat} {i : Int} (hi : 0 ≤ i) (h : c.Intersects s v i) :
    ⌊max 0 s / c.estimateSize⌋ ≤ i ∧
      i ≤ ⌊max 0 s / c.estimateSize⌋ + max 1 ⌈max 0 v / c.estimateSize⌉ := by
  obtain ⟨x, hstart, hend, hfrom, hto⟩ := h
  have hnonneg : (0 : Rat) ≤ i * c.estimateSize :=
    mul_nonneg (by exact_mod_cast hi) hsize.le
  have hbelow : (⌊max 0 s / c.estimateSize⌋ : Rat) * c.estimateSize < (i + 1 : Int) *
      c.estimateSize := by
    refine (floor_le hsize s).trans_lt (max_lt ?_ ?_)
    · push_cast
      linarith
    · push_cast
      linarith
  have habove : (i : Rat) * c.estimateSize <
      (⌊max 0 s / c.estimateSize⌋ + 1 + ⌈max 0 v / c.estimateSize⌉ : Int) * c.estimateSize := by
    have hs := lt_floor hsize s
    have hv := le_ceil hsize v
    have hs' := le_max_right 0 s
    have hv' := le_max_right 0 v
    push_cast at hs ⊢
    linarith
  have hlow := lt_of_mul_lt hsize hbelow
  have hhigh := lt_of_mul_lt hsize habove
  omega

theorem covers_iff (hcount : 0 ≤ c.count) (hoverscan : 0 ≤ c.overscan) (s v : Rat) :
    c.Covers s v ↔ 1 ≤ c.overscan ∨ c.Fits s v := by
  have hfloor := floor_nonneg hsize s
  constructor
  · intro h
    by_contra hnot
    obtain ⟨hover, hfits⟩ := not_or.mp hnot
    obtain ⟨hend, hlt⟩ := lt_min_iff.mp (not_le.mp hfits)
    have hmem := lt_of_mul_lt hsize hlt
    have hs : s ≤ (⌊max 0 s / c.estimateSize⌋ + max 1 ⌈max 0 v / c.estimateSize⌉ : Int) *
        c.estimateSize := by
      refine ((le_max_right 0 s).trans (lt_floor hsize s).le).trans ?_
      refine mul_le_mul_of_nonneg_right ?_ hsize.le
      exact_mod_cast add_le_add_right (le_max_left 1 _) _
    have hcovered := (h.covered _ (by omega) hmem ⟨_, hs, hend, le_refl _, by linarith⟩).2
    rw [getWindow, if_neg (by omega)] at hcovered
    dsimp only [getIndexAtOffset] at hcovered
    omega
  · intro h
    refine ⟨fun i hi hlt hmem => ?_, fun hpos => ?_, ?_, fun i hi hlt =>
      getIndexAtOffset_getOffsetForIndex hsize hi hlt⟩
    · obtain ⟨hlow, hhigh⟩ := index_of_intersects hsize hi hmem
      rw [getWindow, if_neg (by omega)]
      dsimp only [getIndexAtOffset]
      rcases h with hover | hfits
      · omega
      obtain ⟨x, -, hend, hfrom, -⟩ := hmem
      have hless : (i : Rat) * c.estimateSize < c.count * c.estimateSize :=
        mul_lt_mul_of_pos_right (by exact_mod_cast hlt) hsize
      have hbelow := lt_of_mul_lt hsize ((lt_min (hfrom.trans_lt hend) hless).trans_le hfits)
      omega
    · rw [getWindow, if_neg (by omega)]
      dsimp only [getIndexAtOffset]
      omega
    · rw [getWindow]
      split
      · simp [getOffsetForIndex]
      · dsimp only [getOffsetForIndex, getIndexAtOffset]
        rw [floor_intCast]
        congr 2
        omega

end VirtualizerContract

/-- The window covers the viewport where one more item is rendered on each side, or what is shown
ends within as many items as fit into the viewport. -/
theorem window_covers_iff (options : Options) (scrollOffset viewportSize : Rat) :
    (createVirtualizerContract options).Covers scrollOffset viewportSize ↔
      1 ≤ options.overscan.getD 2 ∨
        (createVirtualizerContract options).Fits scrollOffset viewportSize := by
  have hsize : 0 < (createVirtualizerContract options).estimateSize :=
    lt_max_of_lt_left (by norm_num [epsilon])
  rw [VirtualizerContract.covers_iff hsize (le_max_left ..) (le_max_left ..)]
  refine or_congr ?_ Iff.rfl
  have hfloor : (1 : Int) ≤ ⌊options.overscan.getD 2⌋ ↔ 1 ≤ options.overscan.getD 2 := by
    exact_mod_cast (le_floor : (1 : Int) ≤ ⌊options.overscan.getD 2⌋ ↔ _)
  rw [← hfloor]
  dsimp only [createVirtualizerContract]
  omega

/-- A viewport of one item's size that starts in the middle of the first of three items. -/
theorem second_item_left_out : ¬ (createVirtualizerContract ⟨3, 10, some 0⟩).Covers 5 10 := by
  intro h
  have hmem : (createVirtualizerContract ⟨3, 10, some 0⟩).Intersects 5 10 1 := by
    refine ⟨10, ?_⟩
    norm_num [createVirtualizerContract, epsilon]
  have hend := (h.covered 1 (by decide) (by decide +kernel) hmem).2
  have hwindow : (createVirtualizerContract ⟨3, 10, some 0⟩).getWindow 5 10 = ⟨0, 0, 0, 30⟩ := by
    decide +kernel
  rw [hwindow] at hend
  exact absurd hend (by decide)

end SuperFunctions.Uifn.Virtualization
