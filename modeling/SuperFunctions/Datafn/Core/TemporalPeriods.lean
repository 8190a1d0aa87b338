import SuperFunctions.Datafn.Core.Temporal

/-!
# Periods are cells of a grid

The local boundaries of every scale are a grid on the wall clock. The start of a period is the
conversion of the boundary before the clock, and the next start that of the boundary after it.
-/
namespace SuperFunctions.Datafn.Temporal

open Option

open Lib.Calendar
open Lib.Grids (Grid)

def dayGrid : Grid := Grid.every msPerDay (by decide) 0

def monthGrid : Grid where
  boundary := monthStart
  cell := monthIndex
  increasing := monthStart_strictMono
  between := monthIndex_spec

/-- The local boundaries of a scale. -/
def periodGrid (scale : Scale) (weekStartsOn : Rat) : Grid :=
  match scale with
  | .hour => Grid.every 3600000 (by decide) 0
  | .day => dayGrid
  -- the first of January 1970 is a Thursday
  | .week => dayGrid.coarsen (Grid.every 7 (by decide) (normalizeWeekStartsOn weekStartsOn - 4))
  | .month => dayGrid.coarsen monthGrid
  | .quarter => dayGrid.coarsen (monthGrid.coarsen (Grid.every 3 (by decide) 0))
  | .year => dayGrid.coarsen (monthGrid.coarsen (Grid.every 12 (by decide) 0))

/-- The instant a local boundary is converted to. -/
def converted (zone : Zone) (b : Int) : Int := b - offsetAt zone (b - offsetAt zone b)

/-- A local boundary the code can convert. -/
structure Convertible (zone : Zone) (b : Int) : Prop where
  civil : Civil b
  legible : Legible zone b
  guess : Legible zone (b - offsetAt zone b)

variable {zone : Zone} {scale : Scale} {weekStartsOn : Rat} {t b time : Int}

theorem zonedTimeToUtcMs_partsOf (h : Convertible zone b) :
    zonedTimeToUtcMs (partsOf b) zone = some (converted zone b) :=
  zonedTimeToUtcMs_eq (partsToUTC_partsOf h.civil) h.legible h.guess

theorem zonedTimeToUtcMs_of_parts {parts : DateParts} (h : Convertible zone b)
    (hparts : partsToUTC parts = some b) :
    zonedTimeToUtcMs parts zone = some (converted zone b) :=
  zonedTimeToUtcMs_eq hparts h.legible h.guess

theorem normalizeWeekStartsOn_bounds (value : Rat) :
    0 ≤ normalizeWeekStartsOn value ∧ normalizeWeekStartsOn value < 7 := by
  rw [normalizeWeekStartsOn]
  split_ifs
  · omega
  · have hlow := Int.lt_tmod_of_pos value.num (by decide : (0 : Int) < 7)
    have h0 : 0 ≤ value.num.tmod 7 + 7 := by omega
    rw [Int.tmod_eq_emod_of_nonneg h0]
    omega

/-! ## The boundary before -/

theorem dateUTC_midnight {year month date : Int} (hyear : 100 ≤ year)
    (hclip : timeClip (makeDay year month date * msPerDay) =
      some (makeDay year month date * msPerDay)) :
    dateUTC year month date 0 0 0 0 = some (makeDay year month date * msPerDay) := by
  have htime : makeTime 0 0 0 0 = 0 := rfl
  rwa [dateUTC, makeFullYear_eq hyear, htime, makeDate, Int.add_zero]

theorem dayGrid_boundary (d : Int) : dayGrid.boundary d = d * msPerDay := by
  show msPerDay * d + 0 = _
  rw [Int.add_zero, Int.mul_comm]

theorem dayGrid_cell (time : Int) : dayGrid.cell time = time / msPerDay := by
  show (time - 0) / msPerDay = _
  rw [Int.sub_zero]

theorem floor_hour : (periodGrid .hour weekStartsOn).floor time =
    time / msPerDay * msPerDay + getUTCHours time * 3600000 := by
  show 3600000 * ((time - 0) / 3600000) + 0 = _
  rw [getUTCHours, msPerDay]
  omega

theorem floor_day : (periodGrid .day weekStartsOn).floor time = time / msPerDay * msPerDay := by
  show dayGrid.boundary (dayGrid.cell time) = _
  rw [dayGrid_boundary, dayGrid_cell]

theorem floor_week : (periodGrid .week weekStartsOn).floor time = (time / msPerDay -
    (getUTCDay time - normalizeWeekStartsOn weekStartsOn + 7).tmod 7) * msPerDay := by
  show dayGrid.boundary (7 * ((dayGrid.cell time - (normalizeWeekStartsOn weekStartsOn - 4)) / 7) +
    (normalizeWeekStartsOn weekStartsOn - 4)) = _
  obtain ⟨h0, h7⟩ := normalizeWeekStartsOn_bounds weekStartsOn
  have hdow : 0 ≤ getUTCDay time - normalizeWeekStartsOn weekStartsOn + 7 := by
    rw [getUTCDay]
    omega
  rw [dayGrid_boundary, dayGrid_cell, Int.tmod_eq_emod_of_nonneg hdow, getUTCDay]
  congr 1
  omega

/-- The months of a scale begin at a multiple of `n`. -/
theorem floor_months (n : Int) (hn : 0 < n) :
    (dayGrid.coarsen (monthGrid.coarsen (Grid.every n hn 0))).floor time =
      monthStart (n * (monthIndex (time / msPerDay) / n)) * msPerDay := by
  show dayGrid.boundary (monthStart (n * ((monthIndex (dayGrid.cell time) - 0) / n) + 0)) = _
  rw [dayGrid_boundary, dayGrid_cell, Int.sub_zero, Int.add_zero]

theorem floor_month : (periodGrid .month weekStartsOn).floor time =
    makeDay (getUTCFullYear time) (getUTCMonth time) 1 * msPerDay := by
  show dayGrid.boundary (monthStart (monthIndex (dayGrid.cell time))) = _
  rw [dayGrid_boundary, dayGrid_cell, makeDay, monthIndex, getUTCFullYear, getUTCMonth,
    Int.add_sub_cancel]

theorem floor_quarter : (periodGrid .quarter weekStartsOn).floor time =
    makeDay (getUTCFullYear time) (getUTCMonth time / 3 * 3) 1 * msPerDay := by
  have hmonth : 3 * (monthIndex (time / msPerDay) / 3) =
      12 * getUTCFullYear time + getUTCMonth time / 3 * 3 := by
    rw [monthIndex, getUTCFullYear, getUTCMonth]
    omega
  show (dayGrid.coarsen (monthGrid.coarsen (Grid.every 3 _ 0))).floor time = _
  rw [floor_months, makeDay, Int.add_sub_cancel, hmonth]

theorem floor_year : (periodGrid .year weekStartsOn).floor time =
    makeDay (getUTCFullYear time) 0 1 * msPerDay := by
  obtain ⟨h0, h12⟩ := monthFromDay_bounds (time / msPerDay)
  have hmonth : 12 * (monthIndex (time / msPerDay) / 12) = 12 * getUTCFullYear time + 0 := by
    rw [monthIndex, getUTCFullYear]
    omega
  show (dayGrid.coarsen (monthGrid.coarsen (Grid.every 12 _ 0))).floor time = _
  rw [floor_months, makeDay, Int.add_sub_cancel, hmonth]

/-! ## The start of a period -/

theorem makeDay_getters (time : Int) :
    makeDay (getUTCFullYear time) (getUTCMonth time) (getUTCDate time) = time / msPerDay := by
  rw [getUTCFullYear, getUTCMonth, getUTCDate, makeDay_ofDay]

theorem partsToUTC_midnight {year month date : Int} (hyear : 100 ≤ year)
    (hclip : timeClip (makeDay year month date * msPerDay) =
      some (makeDay year month date * msPerDay)) :
    partsToUTC ⟨year, month + 1, date, 0, 0, 0, 0⟩ = some (makeDay year month date * msPerDay) := by
  have hmonth : month + 1 - 1 = month := by omega
  rw [partsToUTC]
  rw [hmonth]
  exact dateUTC_midnight hyear hclip

theorem timeClip_midnight (h : timeClip time = some time) :
    timeClip (time / msPerDay * msPerDay) = some (time / msPerDay * msPerDay) := by
  rw [timeClip_eq_some] at h ⊢
  rw [msPerDay]
  omega

theorem floor_week_midnight : (periodGrid .week weekStartsOn).floor time / msPerDay * msPerDay =
    (periodGrid .week weekStartsOn).floor time := by
  rw [floor_week, Int.mul_ediv_cancel _ (by decide : msPerDay ≠ 0)]

theorem startOfTemporalPeriod_eq (ht : Legible zone t)
    (hb : Convertible zone ((periodGrid scale weekStartsOn).floor (wallClock zone t))) :
    startOfTemporalPeriod t scale zone weekStartsOn =
      some (converted zone ((periodGrid scale weekStartsOn).floor (wallClock zone t))) := by
  have hyear := ht.shown.year
  have hclip := hb.civil.inRange
  have hmonth : getUTCMonth (wallClock zone t) + 1 - 1 = getUTCMonth (wallClock zone t) := by omega
  rw [startOfTemporalPeriod, ht.inRange]
  simp only [bind_eq_bind, bind_some, getZonedParts_eq ht, partsOf, hmonth]
  cases scale with
  | hour =>
    apply zonedTimeToUtcMs_of_parts hb
    rw [partsToUTC]
    rw [floor_hour] at hclip ⊢
    rw [hmonth, dateUTC, makeFullYear_eq hyear, makeDay_getters, makeDate, makeTime]
    simp only [Int.zero_mul, Int.add_zero]
    exact hclip
  | day =>
    apply zonedTimeToUtcMs_of_parts hb
    rw [floor_day, ← makeDay_getters] at hclip ⊢
    exact partsToUTC_midnight hyear hclip
  | week =>
    have hmidnight := timeClip_midnight ht.shown.inRange
    have hdow : getUTCDay (wallClock zone t / msPerDay * msPerDay) =
        getUTCDay (wallClock zone t) := by
      rw [getUTCDay, getUTCDay, msPerDay]
      omega
    have hdelta (delta : Int) : makeDay (getUTCFullYear (wallClock zone t))
        (getUTCMonth (wallClock zone t)) (getUTCDate (wallClock zone t) - delta) =
          wallClock zone t / msPerDay - delta := by
      rw [← makeDay_getters (wallClock zone t), makeDay, makeDay]
      omega
    rw [← makeDay_getters] at hmidnight
    rw [dateUTC_midnight hyear hmidnight, bind_some, makeDay_getters, hdow]
    rw [floor_week, ← hdelta] at hclip
    rw [dateUTC_midnight hyear hclip, bind_some, hdelta, ← floor_week]
    apply zonedTimeToUtcMs_of_parts hb
    have hclip' := hb.civil.inRange
    rw [← floor_week_midnight, ← makeDay_getters] at hclip'
    rw [partsToUTC_midnight hb.civil.year hclip', makeDay_getters, floor_week_midnight]
  | month =>
    apply zonedTimeToUtcMs_of_parts hb
    rw [floor_month] at hclip ⊢
    exact partsToUTC_midnight hyear hclip
  | quarter =>
    apply zonedTimeToUtcMs_of_parts hb
    rw [floor_quarter] at hclip ⊢
    exact partsToUTC_midnight hyear hclip
  | year =>
    apply zonedTimeToUtcMs_of_parts hb
    rw [floor_year] at hclip ⊢
    show partsToUTC ⟨_, 0 + 1, 1, 0, 0, 0, 0⟩ = _
    exact partsToUTC_midnight hyear hclip

/-! ## The boundary after -/

theorem setUTCHours_add (n : Int) :
    setUTCHours time (getUTCHours time + n) = timeClip (time + 3600000 * n) := by
  have hsplit := makeDate_split time
  have htime := makeTime_getters time
  rw [makeDate] at hsplit
  rw [makeTime] at htime
  rw [setUTCHours, makeDate, makeTime]
  congr 1
  omega

theorem setUTCDate_add (n : Int) :
    setUTCDate time (getUTCDate time + n) = timeClip (time + n * msPerDay) := by
  have hday := makeDay_getters time
  rw [makeDay] at hday
  rw [setUTCDate, makeDay, makeDate, msPerDay]
  rw [msPerDay] at hday
  congr 1
  omega

theorem setUTCMonth_add {n k : Int} (h : time = monthStart k * msPerDay) :
    setUTCMonth time (getUTCMonth time + n) = timeClip (monthStart (k + n) * msPerDay) := by
  have hday : time / msPerDay = monthStart k := by
    rw [h, Int.mul_ediv_cancel _ (by decide : msPerDay ≠ 0)]
  have hrest : time % msPerDay = 0 := by
    rw [h, Int.mul_emod_left]
  have hindex : monthIndex (monthStart k) = k := monthGrid.cell_boundary k
  have hmonth : 12 * getUTCFullYear time + (getUTCMonth time + n) = k + n := by
    rw [getUTCFullYear, getUTCMonth, hday, ← Int.add_assoc, ← monthIndex, hindex]
  have hdate : getUTCDate time = 1 := by
    rw [getUTCDate, hday, dateFromDay, hindex]
    omega
  rw [setUTCMonth, makeDay, hmonth, hdate, hrest, makeDate, Int.add_sub_cancel, Int.add_zero]

theorem setUTCFullYear_add (n : Int) : setUTCFullYear time (getUTCFullYear time + n) =
    setUTCMonth time (getUTCMonth time + 12 * n) := by
  have hmonth : 12 * (getUTCFullYear time + n) + getUTCMonth time =
      12 * getUTCFullYear time + (getUTCMonth time + 12 * n) := by omega
  rw [setUTCFullYear, setUTCMonth, makeDay, makeDay, hmonth]

theorem next_hour (h : (periodGrid .hour weekStartsOn).floor time = time) :
    (periodGrid .hour weekStartsOn).next time = time + 3600000 * 1 := by
  have hfloor : 3600000 * ((time - 0) / 3600000) + 0 = time := h
  show 3600000 * ((time - 0) / 3600000 + 1) + 0 = _
  omega

theorem next_day (h : (periodGrid .day weekStartsOn).floor time = time) :
    (periodGrid .day weekStartsOn).next time = time + 1 * msPerDay := by
  rw [floor_day] at h
  show dayGrid.boundary (dayGrid.cell time + 1) = _
  rw [dayGrid_boundary, dayGrid_cell, Int.add_mul, h]

theorem next_week (h : (periodGrid .week weekStartsOn).floor time = time) :
    (periodGrid .week weekStartsOn).next time = time + 7 * msPerDay := by
  have hfloor : dayGrid.boundary (7 * ((dayGrid.cell time -
      (normalizeWeekStartsOn weekStartsOn - 4)) / 7) +
        (normalizeWeekStartsOn weekStartsOn - 4)) = time := h
  show dayGrid.boundary (7 * ((dayGrid.cell time - (normalizeWeekStartsOn weekStartsOn - 4)) / 7 +
    1) + (normalizeWeekStartsOn weekStartsOn - 4)) = _
  rw [dayGrid_boundary] at hfloor ⊢
  rw [msPerDay] at hfloor ⊢
  omega

theorem setUTCMonth_next {n : Int} (hn : 0 < n)
    (h : (dayGrid.coarsen (monthGrid.coarsen (Grid.every n hn 0))).floor time = time) :
    setUTCMonth time (getUTCMonth time + n) =
      timeClip ((dayGrid.coarsen (monthGrid.coarsen (Grid.every n hn 0))).next time) := by
  rw [floor_months] at h
  rw [setUTCMonth_add h.symm]
  congr 1
  show _ = dayGrid.boundary (monthStart (n * ((monthIndex (dayGrid.cell time) - 0) / n + 1) + 0))
  rw [dayGrid_boundary, dayGrid_cell, Int.sub_zero, Int.add_zero, Int.mul_add, Int.mul_one]

theorem month_as_every : (periodGrid .month weekStartsOn).floor time =
      (dayGrid.coarsen (monthGrid.coarsen (Grid.every 1 (by decide) 0))).floor time ∧
    (periodGrid .month weekStartsOn).next time =
      (dayGrid.coarsen (monthGrid.coarsen (Grid.every 1 (by decide) 0))).next time := by
  have hcell (k : Int) : 1 * ((k - 0) / 1) + 0 = k := by omega
  have hnext (k : Int) : 1 * ((k - 0) / 1 + 1) + 0 = k + 1 := by omega
  constructor
  · show dayGrid.boundary (monthStart (monthIndex (dayGrid.cell time))) =
      dayGrid.boundary (monthStart (1 * ((monthIndex (dayGrid.cell time) - 0) / 1) + 0))
    rw [hcell]
  · show dayGrid.boundary (monthStart (monthIndex (dayGrid.cell time) + 1)) =
      dayGrid.boundary (monthStart (1 * ((monthIndex (dayGrid.cell time) - 0) / 1 + 1) + 0))
    rw [hnext]

theorem addTemporalPeriod_eq (ht : Legible zone t)
    (hshown : (periodGrid scale weekStartsOn).floor (wallClock zone t) = wallClock zone t)
    (hb : Convertible zone ((periodGrid scale weekStartsOn).next (wallClock zone t))) :
    addTemporalPeriod t scale zone =
      some (converted zone ((periodGrid scale weekStartsOn).next (wallClock zone t))) := by
  have hparts := zonedTimeToUtcMs_partsOf hb
  have hclip := hb.civil.inRange
  rw [addTemporalPeriod, ht.inRange]
  simp only [bind_eq_bind, bind_some, getZonedParts_eq ht,
    partsToUTC_partsOf ht.shown]
  cases scale with
  | hour =>
    simp only [setUTCHours_add, ← next_hour hshown, hclip, bind_some]
    exact hparts
  | day =>
    simp only [setUTCDate_add, ← next_day hshown, hclip, bind_some]
    exact hparts
  | week =>
    simp only [setUTCDate_add, ← next_week hshown, hclip, bind_some]
    exact hparts
  | month =>
    rw [month_as_every.1] at hshown
    rw [month_as_every.2] at hclip hparts ⊢
    simp only [setUTCMonth_next (by decide) hshown, hclip, bind_some]
    exact hparts
  | quarter =>
    have hmoved : setUTCMonth (wallClock zone t) (getUTCMonth (wallClock zone t) + 3) =
        timeClip ((periodGrid .quarter weekStartsOn).next (wallClock zone t)) :=
      setUTCMonth_next (by decide) hshown
    simp only [hmoved, hclip, bind_some]
    exact hparts
  | year =>
    have hmoved : setUTCMonth (wallClock zone t) (getUTCMonth (wallClock zone t) + 12 * 1) =
        timeClip ((periodGrid .year weekStartsOn).next (wallClock zone t)) :=
      setUTCMonth_next (by decide) hshown
    simp only [setUTCFullYear_add, hmoved, hclip, bind_some]
    exact hparts

end SuperFunctions.Datafn.Temporal

/-!
# Periods tile the timeline

Where the wall clock shows the boundary a period begins at, and the guesses of the conversion find
the offsets at both ends, the range of the period is the stretch during which the clock shows it.
-/
namespace SuperFunctions.Datafn.Temporal

open Lib.Grids Option

variable {scale : Scale} {zone : Zone} {weekStartsOn : Rat} {s t b u : Int}

def InRange (range : PeriodRange) (s : Int) : Prop :=
  ∃ first last, range.start = some first ∧ range.last = some last ∧ first ≤ s ∧ s ≤ last

structure TilesAt (scale : Scale) (zone : Zone) (weekStartsOn : Rat) (t : Int) : Prop where
  inside : InRange (resolveTemporalPeriodRange t scale zone weekStartsOn) t
  same : ∀ s, InRange (resolveTemporalPeriodRange t scale zone weekStartsOn) s →
    resolveTemporalPeriodRange s scale zone weekStartsOn =
      resolveTemporalPeriodRange t scale zone weekStartsOn
  following : ∃ last, (resolveTemporalPeriodRange t scale zone weekStartsOn).last = some last ∧
    (resolveTemporalPeriodRange (last + 1) scale zone weekStartsOn).start = some (last + 1)

/-- Whatever the values are stored as and the bucket is written as. -/
def BucketsAgree (scale : Scale) (zone : Zone) (weekStartsOn : Rat) (s t : Int) : Prop :=
  ∀ storage output v w, resolveTemporalInputMs v storage = s → resolveTemporalInputMs w storage = t →
    (resolveTemporalBucketValue (some v) ⟨scale, zone, storage, output, weekStartsOn⟩ =
        resolveTemporalBucketValue (some w) ⟨scale, zone, storage, output, weekStartsOn⟩ ↔
      InRange (resolveTemporalPeriodRange t scale zone weekStartsOn) s ∧
        InRange (resolveTemporalPeriodRange s scale zone weekStartsOn) t)

/-- The offset at the first guess is the one between the boundary and `u`. -/
structure Crossing (zone : Zone) (b u : Int) : Prop where
  convertible : Convertible zone b
  legible : Legible zone u
  guess : offsetAt zone (b - offsetAt zone b) = b - u

/--
The clock shows the period of `t` from `first`, when it shows its boundary, until `last`, when it
comes or jumps to another period.
-/
structure Stretch (scale : Scale) (zone : Zone) (weekStartsOn : Rat) (t first last : Int) :
    Prop where
  enters : Crossing zone ((periodGrid scale weekStartsOn).floor (wallClock zone t)) first
  begins : wallClock zone first = (periodGrid scale weekStartsOn).floor (wallClock zone t)
  leaves : Crossing zone ((periodGrid scale weekStartsOn).next (wallClock zone t)) last
  follows : Crossing zone ((periodGrid scale weekStartsOn).floor (wallClock zone last)) last
  shown : (periodGrid scale weekStartsOn).ShownDuring (wallClock zone) (wallClock zone t) first last
  legible : ∀ s, first ≤ s → s < last → Legible zone s

def Regular (scale : Scale) (zone : Zone) (weekStartsOn : Rat) (t : Int) : Prop :=
  ∃ first last, Stretch scale zone weekStartsOn t first last

theorem Crossing.converted_eq (h : Crossing zone b u) : converted zone b = u := by
  rw [converted, h.guess]
  omega

/-! ## One period -/

variable {first last : Int}

section

variable (h : Stretch scale zone weekStartsOn t first last)
include h

theorem Stretch.range_eq (h0 : first ≤ s) (h1 : s < last) :
    resolveTemporalPeriodRange s scale zone weekStartsOn = ⟨some first, some (last - 1)⟩ := by
  have hcell := h.shown.cell_eq h0 h1
  have hfloor := (periodGrid scale weekStartsOn).floor_eq_of_cell hcell
  have hstart : startOfTemporalPeriod s scale zone weekStartsOn = some first := by
    have hconvertible := h.enters.convertible
    rw [← hfloor] at hconvertible
    rw [startOfTemporalPeriod_eq (h.legible s h0 h1) hconvertible, hfloor, h.enters.converted_eq]
  have hfirst := h.begins
  have hnext : (periodGrid scale weekStartsOn).next (wallClock zone first) =
      (periodGrid scale weekStartsOn).next (wallClock zone t) := by
    rw [hfirst, Grid.next_floor]
  have hadd : addTemporalPeriod first scale zone = some last := by
    have hconvertible := h.leaves.convertible
    rw [← hnext] at hconvertible
    rw [addTemporalPeriod_eq h.enters.legible (by rw [hfirst, Grid.floor_floor]) hconvertible,
      hnext, h.leaves.converted_eq]
  rw [resolveTemporalPeriodRange]
  simp only [hstart, bind_some, hadd, map_some]

theorem Stretch.mem :
    first ≤ t ∧ t < last := h.shown.mem rfl

theorem Stretch.inRange_iff :
    InRange (resolveTemporalPeriodRange t scale zone weekStartsOn) s ↔ first ≤ s ∧ s < last := by
  rw [h.range_eq h.mem.1 h.mem.2]
  constructor
  · rintro ⟨a, c, ha, hc, h0, h1⟩
    have hfirst : first = a := some.inj ha
    have hlast : last - 1 = c := some.inj hc
    omega
  · intro ⟨h0, h1⟩
    exact ⟨first, last - 1, rfl, rfl, h0, by omega⟩

/-- The instant the clock leaves a period starts the next one. -/
theorem Stretch.start_last : startOfTemporalPeriod last scale zone weekStartsOn = some last := by
  rw [startOfTemporalPeriod_eq h.leaves.legible h.follows.convertible, h.follows.converted_eq]

theorem Stretch.tilesAt :
    TilesAt scale zone weekStartsOn t where
  inside := h.inRange_iff.mpr h.mem
  same s hs := by
    obtain ⟨h0, h1⟩ := h.inRange_iff.mp hs
    rw [h.range_eq h0 h1, h.range_eq h.mem.1 h.mem.2]
  following := by
    rw [h.range_eq h.mem.1 h.mem.2]
    refine ⟨last - 1, rfl, ?_⟩
    rw [Int.sub_add_cancel]
    exact h.start_last

end

/-! ## Two instants -/

theorem floor_whole (x : Int) : (periodGrid scale weekStartsOn).floor x % 1000 = 0 := by
  cases scale with
  | hour =>
    rw [floor_hour, msPerDay]
    omega
  | day =>
    rw [floor_day, msPerDay]
    omega
  | week =>
    rw [floor_week, msPerDay]
    omega
  | month =>
    rw [floor_month, msPerDay]
    omega
  | quarter =>
    rw [floor_quarter, msPerDay]
    omega
  | year =>
    rw [floor_year, msPerDay]
    omega

theorem Stretch.first_whole (h : Stretch scale zone weekStartsOn t first last) :
    first % 1000 = 0 := by
  have hwhole : (periodGrid scale weekStartsOn).floor (wallClock zone t) % 1000 = 0 := floor_whole _
  rw [← h.begins, wallClock] at hwhole
  omega

theorem toTemporalStorageValue_inj {a c : Int} (ha : a % 1000 = 0) (hc : c % 1000 = 0)
    (hclip : timeClip a = some a) (hclip' : timeClip c = some c) {output : Storage}
    (h : toTemporalStorageValue a output = toTemporalStorageValue c output) : a = c := by
  cases output with
  | unixMs =>
    rw [toTemporalStorageValue, toTemporalStorageValue] at h
    simpa using h
  | unixS =>
    rw [toTemporalStorageValue, toTemporalStorageValue] at h
    have hdiv : a / 1000 = c / 1000 := by simpa using h
    omega
  | date | iso =>
    rw [toTemporalStorageValue, toTemporalStorageValue, hclip, hclip'] at h
    simpa using h

theorem Stretch.bucket_eq (h : Stretch scale zone weekStartsOn t first last)
    {storage output : Storage} {v : Int} (hv : resolveTemporalInputMs v storage = t) :
    resolveTemporalBucketValue (some v) ⟨scale, zone, storage, output, weekStartsOn⟩ =
      toTemporalStorageValue first output := by
  have hstart := congrArg PeriodRange.start (h.range_eq h.mem.1 h.mem.2)
  have hstart' : startOfTemporalPeriod t scale zone weekStartsOn = some first := hstart
  rw [resolveTemporalBucketValue]
  simp only [bind_eq_bind, bind_some, hv, hstart']

theorem Stretch.bucketsAgree {first' last' : Int}
    (hs : Stretch scale zone weekStartsOn s first last)
    (ht : Stretch scale zone weekStartsOn t first' last') :
    BucketsAgree scale zone weekStartsOn s t := by
  intro storage output v w hv hw
  rw [hs.bucket_eq hv, ht.bucket_eq hw, hs.inRange_iff, ht.inRange_iff]
  constructor
  · intro h
    have hfirst := toTemporalStorageValue_inj hs.first_whole ht.first_whole
      hs.enters.legible.inRange ht.enters.legible.inRange h
    -- the clock shows one boundary at one instant
    have hfloor : (periodGrid scale weekStartsOn).floor (wallClock zone s) =
        (periodGrid scale weekStartsOn).floor (wallClock zone t) := by
      rw [← hs.begins, ← ht.begins, hfirst]
    have hcell := (periodGrid scale weekStartsOn).cell_eq_of_floor hfloor
    exact ⟨ht.shown.mem hcell, hs.shown.mem hcell.symm⟩
  · intro ⟨hmem, _⟩
    have hrange := ht.range_eq hmem.1 hmem.2
    rw [hs.range_eq hs.mem.1 hs.mem.2] at hrange
    have hfirst : some first = some first' := congrArg PeriodRange.start hrange
    rw [some.inj hfirst]

theorem tiling_of_regular (ht : Regular scale zone weekStartsOn t) :
    TilesAt scale zone weekStartsOn t ∧
      ∀ s, Regular scale zone weekStartsOn s → BucketsAgree scale zone weekStartsOn s t := by
  obtain ⟨first, last, hstretch⟩ := ht
  refine ⟨hstretch.tilesAt, ?_⟩
  intro s hs
  obtain ⟨first', last', hstretch'⟩ := hs
  exact hstretch'.bucketsAgree hstretch

/-! ## The end of summer time -/

/-- Central European time around the last Sunday of October 2024. -/
def autumnZone : Zone := fun t => if t < 1729990800000 then 7200000 else 3600000

theorem civil_of_nonneg (h0 : 0 ≤ s) (h1 : s ≤ 8640000000000000) : Civil s := by
  refine ⟨timeClip_eq_some.mpr (by omega), ?_⟩
  have hday : 0 ≤ s / msPerDay := by
    rw [msPerDay]
    omega
  simp only [getUTCFullYear, Lib.Calendar.yearFromDay]
  split_ifs
  · omega
  · omega
  · omega

theorem autumnZone_wallClock (t : Int) :
    wallClock autumnZone t = if t < 1729990800000 then t + 7200000 else t + 3600000 := by
  rw [wallClock, autumnZone]
  split_ifs
  · omega
  · omega

theorem autumnZone_legible (h0 : 0 ≤ s) (h1 : s ≤ 8000000000000000) : Legible autumnZone s := by
  refine ⟨timeClip_eq_some.mpr (by omega), ?_⟩
  rw [autumnZone_wallClock]
  split_ifs
  · exact civil_of_nonneg (by omega) (by omega)
  · exact civil_of_nonneg (by omega) (by omega)

theorem autumnZone_convertible (h0 : 7200000 ≤ b) (h1 : b ≤ 8000000000000000) :
    Convertible autumnZone b := by
  refine ⟨civil_of_nonneg (by omega) (by omega), autumnZone_legible (by omega) (by omega), ?_⟩
  apply autumnZone_legible
  · rw [offsetAt, autumnZone_wallClock]
    split_ifs
    · omega
    · omega
  · rw [offsetAt, autumnZone_wallClock]
    split_ifs
    · omega
    · omega

/-- The day summer time ends on has 25 hours. -/
theorem autumnDay_regular : Regular .day autumnZone 1 1729989000000 := by
  have hfloor : (periodGrid .day 1).floor (wallClock autumnZone 1729989000000) = 1729987200000 := by
    decide +kernel
  have hnext : (periodGrid .day 1).next (wallClock autumnZone 1729989000000) = 1730073600000 := by
    decide +kernel
  have hlast : (periodGrid .day 1).floor (wallClock autumnZone 1730070000000) = 1730073600000 := by
    decide +kernel
  have hleaves : Crossing autumnZone 1730073600000 1730070000000 :=
    ⟨autumnZone_convertible (by decide) (by decide), autumnZone_legible (by decide) (by decide),
      by decide +kernel⟩
  refine ⟨1729980000000, 1730070000000, ?_, ?_, ?_, ?_, ?_, ?_⟩
  · rw [hfloor]
    exact ⟨autumnZone_convertible (by decide) (by decide),
      autumnZone_legible (by decide) (by decide), by decide +kernel⟩
  · rw [hfloor]
    decide +kernel
  · rwa [hnext]
  · rwa [hlast]
  · intro s
    rw [hfloor, hnext, autumnZone_wallClock]
    split_ifs
    · omega
    · omega
  · intro s h0 h1
    exact autumnZone_legible (by omega) (by omega)

/-- Its range still is the stretch the clock shows it. -/
theorem autumnDay_tiles : TilesAt .day autumnZone 1 1729989000000 ∧
    ∀ s, Regular .day autumnZone 1 s → BucketsAgree .day autumnZone 1 s 1729989000000 :=
  tiling_of_regular autumnDay_regular

/-- The hour the clock shows twice: its start is converted to the second time. -/
theorem autumnHour_starts_late : ¬ ∀ scale zone weekStartsOn t, TilesAt scale zone weekStartsOn t ∧
    ∀ s, BucketsAgree scale zone weekStartsOn s t := by
  intro h
  have hrange : resolveTemporalPeriodRange 1729989000000 .hour autumnZone 1 =
      ⟨some 1729990800000, some 1729994399999⟩ := by decide +kernel
  obtain ⟨first, last, hfirst, -, hle, -⟩ := (h .hour autumnZone 1 1729989000000).1.inside
  have hstart : 1729990800000 = first := some.inj hfirst
  omega

end SuperFunctions.Datafn.Temporal
