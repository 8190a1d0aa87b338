import SuperFunctions.Lib.Processes
import SuperFunctions.Uifn.Range

/-!
# Thumbs and splitters

A thumb is dragged between its neighbours, and the border between two panes between their limits.
-/
namespace SuperFunctions.Uifn.Gesture

open Lib.Transition Range List

/-- An index that is no integer is treated as one outside the list. -/
def constrainUIFnThumbValue (textOf : Rat → List Char) (values : List Rat) (index : Int)
    (rawValue : Rat) (d : RangeDefinition) (minStepsBetweenThumbs : Rat) : Option (List Rat) :=
  if index < 0 ∨ values.length ≤ index then some values
  else
    let i := index.toNat
    let gap := max 0 minStepsBetweenThumbs * d.stepSize
    let lower := if i = 0 then d.min else values.getD (i - 1) 0 + gap
    let upper := if i = values.length - 1 then d.max else values.getD (i + 1) 0 - gap
    (alignRangeValue textOf (clampRangeValue rawValue lower upper) d).map (values.set i)

def resizeUIFnSplitterPair (sizes : List Rat) (index : Int) (delta : Rat)
    (minSizes maxSizes : List Rat) : List Rat :=
  if index < 0 ∨ (sizes.length : Int) - 1 ≤ index then sizes
  else
    let i := index.toNat
    let total := sizes.getD i 0 + sizes.getD (i + 1) 0
    let firstMin := minSizes.getD i 0
    let secondMin := minSizes.getD (i + 1) 0
    let firstMax := min (maxSizes.getD i 100) (total - secondMin)
    let secondMax := min (maxSizes.getD (i + 1) 100) (total - firstMin)
    let first := clampRangeValue (sizes.getD i 0 + delta) (max firstMin (total - secondMax)) firstMax
    (sizes.set i (toFixed 6 first)).set (i + 1) (toFixed 6 (total - first))

/-! ## Thumbs -/

section Thumbs

variable {textOf : Rat → List Char} {d : RangeDefinition} {n : Int} {values : List Rat}

/-- In bounds, and each thumb at least the gap of `n` steps behind the one before. -/
structure Spaced (d : RangeDefinition) (n : Int) (values : List Rat) : Prop where
  bounds : ∀ v ∈ values, d.min ≤ v ∧ v ≤ d.max
  gaps : ∀ (i : Nat) a b, values[i]? = some a → values[i + 1]? = some b →
    a + max 0 (n : Rat) * d.stepSize ≤ b

/-- The thumbs beside the one that moves stand on steps, or the upper on the maximum, without a
gap. -/
def Stepped (d : RangeDefinition) (n : Int) (values : List Rat) (x : Int × Rat) : Prop :=
  ∀ (j : Nat) v, values[j]? = some v →
    ((j : Int) = x.1 - 1 → GridPoint d v) ∧
    ((j : Int) = x.1 + 1 → GridPoint d v ∨ (v = d.max ∧ n ≤ 0))

theorem constrain_spaced (hprecise : Precise textOf d) (hspaced : Spaced d n values)
    {x : Int × Rat} (hstepped : Stepped d n values x) :
    ∃ values', constrainUIFnThumbValue textOf values x.1 x.2 d n = some values' ∧
      Spaced d n values' := by
  obtain ⟨index, raw⟩ := x
  unfold constrainUIFnThumbValue
  split
  · exact ⟨values, rfl, hspaced⟩
  rename_i hinside
  obtain ⟨i, rfl⟩ := Int.eq_ofNat_of_zero_le (by omega : 0 ≤ index)
  have hi : i < values.length := by omega
  have hgap : max 0 (n : Rat) = ((max 0 n : Int) : Rat) := by push_cast; rfl
  simp only [Int.toNat_natCast]
  generalize hlower : (if i = 0 then d.min else
    values.getD (i - 1) 0 + max 0 (n : Rat) * d.stepSize) = lower
  generalize hupper : (if i = values.length - 1 then d.max else
    values.getD (i + 1) 0 - max 0 (n : Rat) * d.stepSize) = upper
  have hv := hspaced.bounds _ (getElem_mem hi)
  have hpos : 0 ≤ max 0 (n : Rat) * d.stepSize := mul_nonneg (le_max_left _ _) hprecise.step.le
  have hbefore : GridPoint d lower ∧ d.min ≤ lower ∧ lower ≤ values[i] ∧
      ∀ j a, j + 1 = i → values[j]? = some a → a + max 0 (n : Rat) * d.stepSize ≤ lower := by
    split at hlower
    · subst hlower
      exact ⟨⟨0, by simp⟩, le_refl _, hv.1, fun j a hj => by omega⟩
    have hget : values[i - 1]? = some values[i - 1] := getElem?_eq_getElem _
    rw [getD_eq_getElem?_getD, hget, Option.getD_some] at hlower
    have hbound := hspaced.bounds _ (getElem_mem (by omega : i - 1 < values.length))
    refine ⟨?_, ?_, ?_, fun j a hj ha => ?_⟩
    · rw [← hlower, hgap]
      exact gridPoint_add ((hstepped (i - 1) _ hget).1 (by omega)) _
    · linarith
    · rw [← hlower]
      exact hspaced.gaps (i - 1) _ _ hget (by rw [Nat.sub_add_cancel (by omega)]; simp)
    · obtain rfl : j = i - 1 := by omega
      cases ha.symm.trans hget
      exact hlower.le
  have hafter : (upper = d.max ∨ GridPoint d upper) ∧ upper ≤ d.max ∧ values[i] ≤ upper ∧
      ∀ b, values[i + 1]? = some b → upper + max 0 (n : Rat) * d.stepSize ≤ b := by
    split at hupper
    · subst hupper
      refine ⟨.inl rfl, le_refl _, hv.2, fun b hb => ?_⟩
      obtain ⟨hlt, -⟩ := List.getElem?_eq_some_iff.mp hb
      omega
    · have hget : values[i + 1]? = some values[i + 1] := getElem?_eq_getElem _
      rw [getD_eq_getElem?_getD, hget, Option.getD_some] at hupper
      have hbound := hspaced.bounds _ (getElem_mem (by omega : i + 1 < values.length))
      have hroom := hspaced.gaps i _ _ (getElem?_eq_getElem hi) hget
      refine ⟨?_, by linarith, by linarith, fun b hb => ?_⟩
      · rw [← hupper, hgap]
        rcases (hstepped (i + 1) _ hget).2 rfl with hgrid | ⟨hend, hn⟩
        · rw [sub_eq_add_neg, ← neg_mul, ← Int.cast_neg]
          exact .inr (gridPoint_add hgrid _)
        · simp [hend, hn]
      · cases hb.symm.trans hget
        linarith
  obtain ⟨hlow, hmin, hle, hprev⟩ := hbefore
  obtain ⟨hhigh, hmax, hge, hnext⟩ := hafter
  obtain ⟨y, hy, hfrom, hto⟩ := align_between hprecise raw hlow hmin (hle.trans hge) hmax hhigh
  refine ⟨values.set i y, by rw [hy]; rfl, fun w hw => ?_, fun j a b ha hb => ?_⟩
  · rcases mem_or_eq_of_mem_set hw with hold | rfl
    · exact hspaced.bounds w hold
    · exact ⟨hmin.trans hfrom, hto.trans hmax⟩
  rw [getElem?_set] at ha hb
  split at ha
  · subst j
    rw [if_neg (by omega)] at hb
    cases ha
    exact le_sub_iff_add_le.mp (hto.trans (le_sub_iff_add_le.mpr (hnext b hb)))
  · split at hb
    · rename_i hj
      cases hb
      exact (hprev j a hj.symm ha).trans hfrom
    · exact hspaced.gaps j a b ha hb

end Thumbs

/-! ## Splitters -/

section Splitters

variable {minSizes maxSizes sizes : List Rat}

def Limited (minSizes maxSizes sizes : List Rat) : Prop :=
  ∀ (i : Nat) v, sizes[i]? = some v → minSizes.getD i 0 ≤ v ∧ v ≤ maxSizes.getD i 100

/-- At most six decimals. -/
def SixDecimals (x : Rat) : Prop := ∃ k : Int, x * 10 ^ 6 = k

/-- The two panes, their limits and the movement have at most six decimals. -/
def Fine (minSizes maxSizes sizes : List Rat) (x : Int × Rat) : Prop :=
  SixDecimals x.2 ∧ ∀ j : Nat, (j : Int) = x.1 ∨ (j : Int) = x.1 + 1 →
    SixDecimals (sizes.getD j 0) ∧ SixDecimals (minSizes.getD j 0) ∧
      SixDecimals (maxSizes.getD j 100)

theorem SixDecimals.add {a b : Rat} (ha : SixDecimals a) (hb : SixDecimals b) :
    SixDecimals (a + b) := by
  obtain ⟨k, hk⟩ := ha
  obtain ⟨l, hl⟩ := hb
  exact ⟨k + l, by push_cast; linarith⟩

theorem SixDecimals.sub {a b : Rat} (ha : SixDecimals a) (hb : SixDecimals b) :
    SixDecimals (a - b) := by
  obtain ⟨k, hk⟩ := ha
  obtain ⟨l, hl⟩ := hb
  exact ⟨k - l, by push_cast; linarith⟩

theorem SixDecimals.min {a b : Rat} (ha : SixDecimals a) (hb : SixDecimals b) :
    SixDecimals (min a b) := by
  rcases min_choice a b with h | h <;> rw [h] <;> assumption

theorem SixDecimals.max {a b : Rat} (ha : SixDecimals a) (hb : SixDecimals b) :
    SixDecimals (max a b) := by
  rcases max_choice a b with h | h <;> rw [h] <;> assumption

theorem Limited.set (h : Limited minSizes maxSizes sizes) {i : Nat} {v : Rat}
    (hv : minSizes.getD i 0 ≤ v ∧ v ≤ maxSizes.getD i 100) :
    Limited minSizes maxSizes (sizes.set i v) := by
  intro j w hw
  rw [getElem?_set] at hw
  split at hw
  · subst j
    grind
  · exact h j w hw

theorem resize_limited (hlimited : Limited minSizes maxSizes sizes) {x : Int × Rat}
    (hfine : Fine minSizes maxSizes sizes x) :
    Limited minSizes maxSizes (resizeUIFnSplitterPair sizes x.1 x.2 minSizes maxSizes) ∧
      (resizeUIFnSplitterPair sizes x.1 x.2 minSizes maxSizes).sum = sizes.sum := by
  obtain ⟨index, delta⟩ := x
  unfold resizeUIFnSplitterPair
  split
  · exact ⟨hlimited, rfl⟩
  rename_i hinside
  obtain ⟨i, rfl⟩ := Int.eq_ofNat_of_zero_le (by omega : 0 ≤ index)
  have hi : i + 1 < sizes.length := by omega
  have hfirst : sizes[i]? = some (sizes.getD i 0) := by
    rw [getD_eq_getElem?_getD, getElem?_eq_getElem (by omega)]
    rfl
  have hsecond : sizes[i + 1]? = some (sizes.getD (i + 1) 0) := by
    rw [getD_eq_getElem?_getD, getElem?_eq_getElem hi]
    rfl
  obtain ⟨hmin, hmax⟩ := hlimited i _ hfirst
  obtain ⟨hmin', hmax'⟩ := hlimited (i + 1) _ hsecond
  obtain ⟨hdelta, hparts⟩ := hfine
  obtain ⟨hs, hl, hu⟩ := hparts i (.inl rfl)
  obtain ⟨hs', hl', hu'⟩ := hparts (i + 1) (.inr (by push_cast; rfl))
  have hset v w (hv : minSizes.getD i 0 ≤ v ∧ v ≤ maxSizes.getD i 100)
      (hw : minSizes.getD (i + 1) 0 ≤ w ∧ w ≤ maxSizes.getD (i + 1) 100)
      (hsum : v + w = sizes.getD i 0 + sizes.getD (i + 1) 0) :
      Limited minSizes maxSizes ((sizes.set i v).set (i + 1) w) ∧
        ((sizes.set i v).set (i + 1) w).sum = sizes.sum := by
    refine ⟨(hlimited.set hv).set hw, ?_⟩
    rw [List.getElem?_eq_some_iff] at hfirst hsecond
    obtain ⟨_, hfirst⟩ := hfirst
    obtain ⟨_, hsecond⟩ := hsecond
    rw [sum_set', sum_set', dif_pos (by omega), dif_pos (by simpa),
      getElem_set_ne (by omega), hfirst, hsecond]
    linarith
  simp only [Int.toNat_natCast]
  generalize sizes.getD i 0 = a at *
  generalize sizes.getD (i + 1) 0 = b at *
  generalize minSizes.getD i 0 = l at *
  generalize minSizes.getD (i + 1) 0 = l' at *
  generalize maxSizes.getD i 100 = u at *
  generalize maxSizes.getD (i + 1) 100 = u' at *
  have hrange : max l (a + b - min u' (a + b - l)) ≤ min u (a + b - l') := by
    rcases min_choice u' (a + b - l) with h | h <;> rw [h] <;>
      exact max_le (le_min (by linarith) (by linarith)) (le_min (by linarith) (by linarith))
  obtain ⟨hfrom, hto⟩ := clamp_bounds (a + delta) hrange
  have hsix : SixDecimals (clampRangeValue (a + delta) (max l (a + b - min u' (a + b - l)))
      (min u (a + b - l'))) :=
    .min (.max (hs.add hdelta) (hl.max ((hs.add hs').sub (hu'.min ((hs.add hs').sub hl)))))
      (hu.min ((hs.add hs').sub hl'))
  generalize clampRangeValue (a + delta) _ _ = first at *
  obtain ⟨k, hk⟩ := hsix
  obtain ⟨k', hk'⟩ := (hs.add hs').sub ⟨k, hk⟩
  rw [toFixed_eq hk, toFixed_eq hk']
  obtain ⟨hlow, hother⟩ := max_le_iff.mp hfrom
  obtain ⟨hhigh, hother'⟩ := le_min_iff.mp hto
  have := min_le_left u' (a + b - l)
  exact hset _ _ ⟨hlow, hhigh⟩ ⟨by linarith, by linarith⟩ (by ring)

end Splitters

def constrainStep (textOf : Rat → List Char) (d : RangeDefinition) (n : Int) (values : List Rat)
    (x : Int × Rat) : Option (List Rat) :=
  constrainUIFnThumbValue textOf values x.1 x.2 d n

def resizeStep (minSizes maxSizes sizes : List Rat) (x : Int × Rat) : Option (List Rat) :=
  some (resizeUIFnSplitterPair sizes x.1 x.2 minSizes maxSizes)

theorem gestures_constrained {textOf : Rat → List Char} {d : RangeDefinition} {n : Int}
    {values minSizes maxSizes sizes : List Rat} {drags moves : List (Int × Rat)}
    (hprecise : Precise textOf d) (hspaced : Spaced d n values)
    (hdrags : Guarded (constrainStep textOf d n) (Stepped d n) values drags)
    (hlimited : Limited minSizes maxSizes sizes)
    (hmoves : Guarded (resizeStep minSizes maxSizes) (Fine minSizes maxSizes) sizes moves) :
    (∃ values', run (constrainStep textOf d n) values drags = some values' ∧ Spaced d n values') ∧
    ∃ sizes', run (resizeStep minSizes maxSizes) sizes moves = some sizes' ∧
      Limited minSizes maxSizes sizes' ∧ sizes'.sum = sizes.sum := by
  refine ⟨guarded_run_progress _ (fun _ _ h hg => constrain_spaced hprecise h hg) hspaced hdrags,
    guarded_run_progress _ (fun s x h hg => ?_) ⟨hlimited, rfl⟩ hmoves⟩
  obtain ⟨hstep, hsum⟩ := resize_limited h.1 hg
  exact ⟨_, rfl, hstep, hsum.trans h.2⟩

theorem whole_steps_constrained :
    (∃ values, run (constrainStep digits ⟨0, 10, none⟩ 1) [2] [(0, 7)] = some values ∧
      Spaced ⟨0, 10, none⟩ 1 values) ∧
    ∃ sizes, run (resizeStep [] []) [50, 50] [(0, 9)] = some sizes ∧ Limited [] [] sizes ∧
      sizes.sum = [(50 : Rat), 50].sum := by
  refine gestures_constrained precise_digits ⟨?_, ?_⟩ ⟨?_, fun _ _ => trivial⟩ ?_
    ⟨⟨⟨9000000, by norm_num⟩, ?_⟩, fun _ _ => trivial⟩
  · norm_num
  · intro i a b ha hb
    simp at hb
  · intro j v hv
    obtain ⟨hlt, -⟩ := List.getElem?_eq_some_iff.mp hv
    constructor <;> intro hj <;> simp_all
  · intro i v hv
    obtain ⟨hlt, rfl⟩ := List.getElem?_eq_some_iff.mp hv
    rcases i with _ | _ | i <;> simp_all <;> norm_num
  · intro j hj
    obtain rfl | rfl : j = 0 ∨ j = 1 := by simp at hj; omega
    all_goals exact ⟨⟨50000000, by norm_num⟩, ⟨0, by norm_num⟩, ⟨100000000, by norm_num⟩⟩

/-- The thumb stands on the maximum, which is no step: the one below is aligned into its gap. -/
theorem aligned_into_gap :
    Spaced ⟨0, 10, some 4⟩ 1 [4, 10] ∧
    constrainUIFnThumbValue digits [4, 10] 0 6 ⟨0, 10, some 4⟩ 1 = some [8, 10] ∧
    ¬Spaced ⟨0, 10, some 4⟩ 1 [8, 10] := by
  refine ⟨⟨by decide +kernel, fun i a b ha hb => ?_⟩, by decide +kernel, fun h => ?_⟩
  · obtain rfl : i = 0 := Nat.lt_one_iff.mp (Nat.lt_of_succ_lt_succ
      (List.getElem?_eq_some_iff.mp hb).1)
    cases ha
    cases hb
    decide +kernel
  · exact absurd (h.gaps 0 8 10 rfl rfl) (by decide +kernel)

end SuperFunctions.Uifn.Gesture
