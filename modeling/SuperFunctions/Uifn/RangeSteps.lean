import SuperFunctions.Uifn.Range

/-!
# Alignment as a projection onto the steps
-/
namespace SuperFunctions.Uifn.RangeSteps

open Range

inductive Direction
  | ltr
  | rtl

def stepRangeValue (textOf : Rat → List Char) (value : Rat) (key : String) (d : RangeDefinition)
    (direction : Direction) : Option Rat :=
  let step := d.stepSize
  let rtl : Rat := match direction with
    | .ltr => 1
    | .rtl => -1
  match key with
  | "Home" => some d.min
  | "End" => some d.max
  | "ArrowRight" => alignRangeValue textOf (value + step * rtl) d
  | "ArrowLeft" => alignRangeValue textOf (value - step * rtl) d
  | "ArrowUp" => alignRangeValue textOf (value + step) d
  | "ArrowDown" => alignRangeValue textOf (value - step) d
  | "PageUp" => alignRangeValue textOf (value + step * 10) d
  | "PageDown" => alignRangeValue textOf (value - step * 10) d
  | _ => alignRangeValue textOf value d

/-- The key of one step up and that of one step down. -/
inductive Arrows : Direction → String → String → Prop
  | vertical (direction : Direction) : Arrows direction "ArrowUp" "ArrowDown"
  | ltr : Arrows .ltr "ArrowRight" "ArrowLeft"
  | rtl : Arrows .rtl "ArrowLeft" "ArrowRight"

structure Projection (textOf : Rat → List Char) (d : RangeDefinition) : Prop where
  aligned : ∀ x, ∃ y, alignRangeValue textOf x d = some y ∧ (d.min ≤ y ∧ y ≤ d.max) ∧
    (GridPoint d y ∨ y = d.max) ∧ |y - clampRangeValue x d.min d.max| ≤ d.stepSize / 2 ∧
    alignRangeValue textOf y d = some y
  monotone : ∀ x x' y y', x ≤ x' → alignRangeValue textOf x d = some y →
    alignRangeValue textOf x' d = some y' → y ≤ y'
  back : ∀ direction up down g, Arrows direction up down → GridPoint d g → d.min < g →
    g < d.max → ∃ y, stepRangeValue textOf g up d direction = some y ∧
      stepRangeValue textOf y down d direction = some g

/-- No step from the minimum is nearer to the maximum than half a step. -/
def Roomy (d : RangeDefinition) : Prop :=
  ∀ g, GridPoint d g → d.min < g → g < d.max → d.stepSize / 2 ≤ d.max - g

section Laws

variable {textOf : Rat → List Char} {d : RangeDefinition} {direction : Direction}
  {up down : String} {g x x' : Rat}

theorem step_arrows (textOf : Rat → List Char) (d : RangeDefinition)
    (h : Arrows direction up down) :
    (∀ x, stepRangeValue textOf x up d direction = alignRangeValue textOf (x + d.stepSize) d) ∧
      ∀ x, stepRangeValue textOf x down d direction =
        alignRangeValue textOf (x - d.stepSize) d := by
  cases h <;> simp [stepRangeValue, sub_eq_add_neg]

theorem gridPoint_min (d : RangeDefinition) : GridPoint d d.min := ⟨0, by simp⟩

theorem nearest_gridPoint (hstep : 0 < d.stepSize) (hg : GridPoint d g) : nearest d g = g :=
  le_antisymm (nearest_le hstep hg le_rfl) (le_nearest hstep hg le_rfl)

theorem nearest_mono (hstep : 0 < d.stepSize) (h : x ≤ x') : nearest d x ≤ nearest d x' :=
  (le_nearest_iff hstep (gridPoint_nearest d x)).mpr
    (((le_nearest_iff hstep (gridPoint_nearest d x)).mp le_rfl).trans h)

theorem nearest_close (hstep : 0 < d.stepSize) (x : Rat) : |nearest d x - x| ≤ d.stepSize / 2 := by
  have hback := (le_nearest_iff hstep (gridPoint_nearest d x)).mp le_rfl
  have hnext : GridPoint d (nearest d x + d.stepSize) := by
    simpa using gridPoint_add (gridPoint_nearest d x) 1
  have hbefore := mt (le_nearest_iff hstep hnext).mpr (by linarith)
  rw [abs_le]
  constructor <;> linarith

theorem align_gridPoint (h : Precise textOf d) (hg : GridPoint d g) (hmin : d.min ≤ g)
    (hmax : g ≤ d.max) : alignRangeValue textOf g d = some g := by
  rw [h.align, clamp_eq hmin hmax, nearest_gridPoint h.step hg, clamp_eq hmin hmax]

theorem align_aligned (h : Precise textOf d) (x : Rat) :
    ∃ y, alignRangeValue textOf x d = some y ∧ (d.min ≤ y ∧ y ≤ d.max) ∧
      (GridPoint d y ∨ y = d.max) ∧ |y - clampRangeValue x d.min d.max| ≤ d.stepSize / 2 ∧
      alignRangeValue textOf y d = some y := by
  obtain ⟨hmin, hmax⟩ := clamp_bounds x h.bounds
  refine ⟨_, h.align x, clamp_bounds _ h.bounds, ?_⟩
  generalize clampRangeValue x d.min d.max = z at *
  have hfrom := le_nearest h.step (gridPoint_min d) hmin
  have hclose := nearest_close h.step z
  rcases le_total (nearest d z) d.max with hle | hle
  · rw [clamp_eq hfrom hle]
    exact ⟨.inl (gridPoint_nearest d z), hclose, align_gridPoint h (gridPoint_nearest d z) hfrom hle⟩
  -- The step past the maximum is the nearest one of the maximum as well.
  · have hmono := hle.trans (nearest_mono h.step hmax)
    rw [clamp_above h.bounds hle]
    refine ⟨.inr rfl, ?_, ?_⟩
    · rw [abs_le] at hclose ⊢
      constructor <;> linarith
    · rw [h.align, clamp_eq h.bounds le_rfl, clamp_above h.bounds hmono]

theorem clamp_mono {min max : Rat} (h : x ≤ x') :
    clampRangeValue x min max ≤ clampRangeValue x' min max :=
  min_le_min_right _ (max_le_max_right _ h)

/-- One step up and one down from an interior step lead back when the maximum is half a step away. -/
theorem align_back_iff (h : Precise textOf d) (hg : GridPoint d g) (hmin : d.min < g)
    (hmax : g < d.max) : (∃ y, alignRangeValue textOf (g + d.stepSize) d = some y ∧
      alignRangeValue textOf (y - d.stepSize) d = some g) ↔ d.stepSize / 2 ≤ d.max - g := by
  have hfrom := add_step_le h.step (gridPoint_min d) hg hmin
  have hnext : GridPoint d (g + d.stepSize) := by simpa using gridPoint_add hg 1
  have hprevious : GridPoint d (g - d.stepSize) := by
    simpa [sub_eq_add_neg] using gridPoint_add hg (-1)
  have hstep := h.step
  rcases le_or_gt (g + d.stepSize) d.max with hin | hout
  · refine iff_of_true ⟨_, align_gridPoint h hnext (by linarith) hin, ?_⟩ (by linarith)
    rw [add_sub_cancel_right]
    exact align_gridPoint h hg hmin.le hmax.le
  rw [h.align, clamp_above h.bounds hout.le]
  rcases le_or_gt (d.stepSize / 2) (d.max - g) with hroom | hnear
  · have htop : d.max ≤ nearest d d.max :=
      hout.le.trans ((le_nearest_iff h.step hnext).mpr (by linarith))
    refine iff_of_true ⟨_, rfl, ?_⟩ hroom
    have hin : clampRangeValue (d.max - d.stepSize) d.min d.max = d.max - d.stepSize :=
      clamp_eq (by linarith) (by linarith)
    have hsame : nearest d (d.max - d.stepSize) = g :=
      le_antisymm (nearest_le h.step hg (by linarith))
        ((le_nearest_iff h.step hg).mpr (by linarith))
    rw [clamp_above h.bounds htop, h.align, hin, hsame, clamp_eq hmin.le hmax.le]
  · have hsame : nearest d d.max = g :=
      le_antisymm (nearest_lt h.step hg (by linarith)) (le_nearest h.step hg hmax.le)
    refine iff_of_false (fun ⟨y, hy, hback⟩ => ?_) (not_le.mpr hnear)
    rw [hsame, clamp_eq hmin.le hmax.le] at hy
    cases hy
    rw [align_gridPoint h hprevious (by linarith) (by linarith)] at hback
    exact absurd (Option.some.inj hback) (by linarith)

/-- An interior step that the alignment keeps has few enough decimals. -/
theorem kept_of_aligned (hstep : 0 < d.stepSize) (h : Projection textOf d) (hg : GridPoint d g)
    (hmin : d.min < g) (hmax : g + d.stepSize ≤ d.max) :
    ∃ k : Int, g * 10 ^ precision textOf d = k := by
  have hin : g < d.max := by linarith
  obtain ⟨y, hy, -, hplace, hclose, -⟩ := h.aligned g
  rw [clamp_eq hmin.le hin.le, abs_le] at hclose
  have hsame : y = g := by
    rcases hplace with hgrid | rfl
    · rcases lt_trichotomy y g with hlt | heq | hlt
      · have := add_step_le hstep hgrid hg hlt
        linarith
      · exact heq
      · have := add_step_le hstep hg hgrid hlt
        linarith
    · linarith
  rw [align_eq (hmin.le.trans hin.le) hstep, clamp_eq hmin.le hin.le,
    nearest_gridPoint hstep hg, hsame] at hy
  have hfixed : toFixed (precision textOf d) g = g := by
    have hclamp := Option.some.inj hy
    unfold clampRangeValue at hclamp
    grind
  rw [← hfixed]
  exact toFixed_digits _ _

/-- Of a range of three steps or more the conditions are necessary as well. -/
theorem range_projection (hbounds : d.min ≤ d.max) (hstep : 0 < d.stepSize) :
    (Precise textOf d ∧ Roomy d → Projection textOf d) ∧
      (d.min + 3 * d.stepSize ≤ d.max → Projection textOf d → Precise textOf d ∧ Roomy d) := by
  constructor
  · rintro ⟨h, hroomy⟩
    refine ⟨align_aligned h, fun x x' y y' hle hy hy' => ?_,
      fun direction up down g harrows hg hmin hmax => ?_⟩
    · rw [h.align] at hy hy'
      cases hy
      cases hy'
      exact clamp_mono (nearest_mono hstep (clamp_mono hle))
    · obtain ⟨hup, hdown⟩ := step_arrows textOf d harrows
      simp only [hup, hdown]
      exact (align_back_iff h hg hmin hmax).mpr (hroomy g hg hmin hmax)
  · intro hlong h
    have hgrid (n : Int) : GridPoint d (d.min + n * d.stepSize) := ⟨n, rfl⟩
    obtain ⟨k, hk⟩ := kept_of_aligned hstep h (hgrid 1) (by simpa) (by push_cast; linarith)
    obtain ⟨l, hl⟩ := kept_of_aligned hstep h (hgrid 2) (by simpa) (by push_cast; linarith)
    have hprecise : Precise textOf d := by
      refine ⟨hbounds, hstep, ?_⟩
      rintro x ⟨n, rfl⟩
      refine ⟨k + (n - 1) * (l - k), ?_⟩
      push_cast at hk hl ⊢
      rw [← hk, ← hl]
      ring
    obtain ⟨hup, hdown⟩ := step_arrows textOf d (.vertical .ltr)
    refine ⟨hprecise, fun g hg hmin hmax => (align_back_iff hprecise hg hmin hmax).mp ?_⟩
    simpa only [hup, hdown] using h.back .ltr _ _ g (.vertical .ltr) hg hmin hmax

end Laws

theorem whole_steps_projection : Projection digits ⟨0, 10, none⟩ := by
  refine (range_projection (by decide +kernel) (by decide +kernel)).1 ⟨precise_digits, ?_⟩
  intro g hg hmin hmax
  have hlast : GridPoint ⟨0, 10, none⟩ 10 := ⟨10, by norm_num [RangeDefinition.stepSize]⟩
  have hnext := add_step_le (by decide +kernel) hg hlast hmax
  norm_num [RangeDefinition.stepSize] at hnext ⊢
  linarith

/-- `1.5e-7`, of eight decimals, of which its text tells seven. -/
def exponentText (v : Rat) : List Char := if v = 3 / 20000000 then "1.5e-7".toList else digits v

theorem exponent_step_lost : ¬Projection exponentText ⟨0, 1, some (3 / 20000000)⟩ := by
  intro h
  obtain ⟨y, hy, -, hplace, -⟩ := h.aligned (3 / 20000000)
  have hlost : alignRangeValue exponentText (3 / 20000000) ⟨0, 1, some (3 / 20000000)⟩ =
      some (1 / 5000000) := by decide +kernel
  cases hy.symm.trans hlost
  rcases hplace with ⟨k, hk⟩ | hmax
  · have hthree : (k : Rat) * 3 = 4 := by
      norm_num [RangeDefinition.stepSize] at hk
      linarith
    have : k * 3 = 4 := by exact_mod_cast hthree
    omega
  · exact absurd hmax (by decide +kernel)

end SuperFunctions.Uifn.RangeSteps
