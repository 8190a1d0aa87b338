import SuperFunctions.Datafn.Core.TemporalPeriods
import SuperFunctions.Lib.StableSort

/-!
# Date-times of a time zone

`resolveUIFnZonedDateTime` searches the whole minutes within 18 hours of the date-time for instants
at which the formatter shows it. An offset that has seconds puts the instant between two minutes.
-/

namespace SuperFunctions.Uifn.ZonedDateTime

open Lib.Calendar Datafn.Temporal Option

structure UIFnCalendarDateTime where
  year : Int
  month : Int
  day : Int
  hour : Int
  minute : Int
  second : Option Int

inductive ResolutionKind
  | exact
  | gap
  | fold
deriving DecidableEq

structure UIFnZonedResolution where
  kind : ResolutionKind
  instants : List Int

/-- The milliseconds since the epoch; `none` is `NaN`. -/
def utcDate (year monthIndex day hour minute second : Int) : Option Int :=
  timeClip (makeDate (makeDay year monthIndex day) (makeTime hour minute second 0 % msPerDay))

/-- The formatter throws at an invalid date. -/
def zonedParts (zone : Zone) (instant : Int) : Option (List Int) :=
  (timeClip instant).map fun date =>
    let shown := date + zone date
    [formattedYear (getUTCFullYear shown), getUTCMonth shown + 1, getUTCDate shown,
      getUTCHours shown, getUTCMinutes shown, getUTCSeconds shown]

/-- The instants that the search tries. -/
def candidates (approximate : Int) : List Int :=
  (List.range 2161).map fun minute : Nat => approximate + (minute - 1080) * 60000

def kindOf (instants : List Int) : ResolutionKind :=
  if instants.length = 0 then .gap else if 1 < instants.length then .fold else .exact

def resolveUIFnZonedDateTime (value : UIFnCalendarDateTime) (zone : Zone) :
    Option UIFnZonedResolution := do
  let second := value.second.getD 0
  let target := [value.year, value.month, value.day, value.hour, value.minute, second]
  let approximate ← utcDate value.year (value.month - 1) value.day value.hour value.minute second
  if (candidates approximate).all fun instant => (zonedParts zone instant).isSome then
    let found := (candidates approximate).filter fun instant => zonedParts zone instant = some target
    return ⟨kindOf found.eraseDups, found.eraseDups⟩
  else none

/-- The offset is in whole seconds, of at most 18 hours. -/
def Offsets (zone : Zone) : Prop := ∀ t, zone t % 1000 = 0 ∧ -64800000 ≤ zone t ∧ zone t ≤ 64800000

/-- A wall clock at `local` shows the date-time. -/
structure Shows (value : UIFnCalendarDateTime) (clock : Int) : Prop where
  year : value.year = getUTCFullYear clock
  month : value.month = getUTCMonth clock + 1
  day : value.day = getUTCDate clock
  hour : value.hour = getUTCHours clock
  minute : value.minute = getUTCMinutes clock
  second : value.second.getD 0 = getUTCSeconds clock
  whole : clock % 1000 = 0

/-- The formatter writes the year as it is, and the instants around the date-time are dates. -/
structure Formatted (clock : Int) : Prop where
  year : 1 ≤ getUTCFullYear clock
  low : -8640000000000000 + 64800000 ≤ clock
  high : clock ≤ 8640000000000000 - 64800000

variable {value : UIFnCalendarDateTime} {zone : Zone} {clock t : Int}

theorem utcDate_shown (hshow : Shows value clock) (hrange : Formatted clock) :
    utcDate value.year (value.month - 1) value.day value.hour value.minute
      (value.second.getD 0) = some clock := by
  have hmonth : getUTCMonth clock + 1 - 1 = getUTCMonth clock := by omega
  have hms : (0 : Int) = getUTCMilliseconds clock := hshow.whole.symm
  rw [utcDate, hshow.year, hshow.month, hshow.day, hshow.hour, hshow.minute, hshow.second, hmonth,
    makeDay_getters, hms, makeTime_getters, Int.emod_emod_of_dvd _ (Int.dvd_refl msPerDay),
    makeDate_split]
  have := hrange.low
  have := hrange.high
  exact timeClip_eq_some.mpr (by omega)

theorem monthStart_add_le (k : Int) (n : Nat) : monthStart k + n ≤ monthStart (k + n) := by
  induction n with
  | zero => simp
  | succ n ih =>
    have := monthStart_strictMono (show k + n < k + (n + 1 : Nat) by omega)
    omega

/-- Two clocks less than eleven days apart that are formatted alike show the same second. -/
theorem eq_of_formatted {a : Int} (ha : a % 1000 = 0) (hc : clock % 1000 = 0)
    (hyear : 1 ≤ getUTCFullYear clock) (hnear : clock < a + 11 * msPerDay)
    (hparts : formattedYear (getUTCFullYear a) = getUTCFullYear clock ∧
      getUTCMonth a + 1 = getUTCMonth clock + 1 ∧ getUTCDate a = getUTCDate clock ∧
      getUTCHours a = getUTCHours clock ∧ getUTCMinutes a = getUTCMinutes clock ∧
      getUTCSeconds a = getUTCSeconds clock) : a = clock := by
  obtain ⟨hy, hm, hd, hhour, hminute, hsecond⟩ := hparts
  have hmonth : getUTCMonth a = getUTCMonth clock := by omega
  have hday := makeDay_getters a
  have hday' := makeDay_getters clock
  have hsame : getUTCFullYear a = getUTCFullYear clock := by
    rw [formattedYear] at hy
    split at hy
    · exact hy
    · -- an earlier year that is written alike is at least twelve months back
      next hpast =>
      have hback := monthStart_add_le (12 * getUTCFullYear a + getUTCMonth clock) 12
      have hmono := monthStart_strictMono.monotone
        (show 12 * getUTCFullYear a + getUTCMonth clock + (12 : Nat) ≤
          12 * getUTCFullYear clock + getUTCMonth clock by omega)
      rw [makeDay, hmonth, hd] at hday
      rw [makeDay] at hday'
      rw [msPerDay] at *
      omega
  rw [hsame, hmonth, hd, hday'] at hday
  have htime := makeTime_getters a
  have htime' := makeTime_getters clock
  rw [hhour, hminute, hsecond, getUTCMilliseconds, ha] at htime
  rw [getUTCMilliseconds, hc, htime, msPerDay] at htime'
  rw [msPerDay] at hday
  omega

theorem zonedParts_eq_iff (hzone : Offsets zone) (hshow : Shows value clock)
    (hrange : Formatted clock) (hnear : -64800000 ≤ t - clock ∧ t - clock ≤ 64800000)
    (hwhole : t % 1000 = 0) :
    zonedParts zone t = some [value.year, value.month, value.day, value.hour, value.minute,
      value.second.getD 0] ↔ t + zone t = clock := by
  have hclip : timeClip t = some t := by
    have := hrange.low
    have := hrange.high
    exact timeClip_eq_some.mpr (by omega)
  obtain ⟨hsecond, hlow, hhigh⟩ := hzone t
  rw [zonedParts, hclip, map_some, some.injEq, hshow.year, hshow.month, hshow.day,
    hshow.hour, hshow.minute, hshow.second]
  constructor
  · intro hparts
    simp only [List.cons.injEq, and_true] at hparts
    refine eq_of_formatted (by omega) hshow.whole hrange.year ?_ hparts
    rw [msPerDay]
    omega
  · intro heq
    have hformat : formattedYear (getUTCFullYear clock) = getUTCFullYear clock := if_pos hrange.year
    simp only [heq, hformat]

theorem mem_candidates : t ∈ candidates clock ↔
    (t - clock) % 60000 = 0 ∧ -64800000 ≤ t - clock ∧ t - clock ≤ 64800000 := by
  rw [candidates, List.mem_map]
  constructor
  · rintro ⟨minute, hminute, rfl⟩
    have := List.mem_range.mp hminute
    omega
  · intro ⟨hwhole, hlow, hhigh⟩
    refine ⟨((t - clock) / 60000 + 1080).toNat, List.mem_range.mpr ?_, ?_⟩
    · omega
    · omega

/-- The search finds the instants at which the zone is whole minutes from UTC. -/
theorem resolve_spec (hzone : Offsets zone) (hshow : Shows value clock)
    (hrange : Formatted clock) :
    ∃ instants, resolveUIFnZonedDateTime value zone = some ⟨kindOf instants, instants⟩ ∧
      instants.Nodup ∧ ∀ t, t ∈ instants ↔ t + zone t = clock ∧ zone t % 60000 = 0 := by
  have hall : (candidates clock).all fun instant => (zonedParts zone instant).isSome := by
    refine List.all_eq_true.mpr fun t ht => ?_
    have := mem_candidates.mp ht
    have := hrange.low
    have := hrange.high
    rw [zonedParts, timeClip_eq_some.mpr (by omega)]
    rfl
  simp only [resolveUIFnZonedDateTime, utcDate_shown hshow hrange, bind_eq_bind,
    bind_some, hall, if_true]
  refine ⟨_, rfl, Lib.StableSort.nodup_eraseDups _, fun t => ?_⟩
  rw [List.mem_eraseDups, List.mem_filter, mem_candidates, decide_eq_true_eq]
  obtain ⟨-, hlow, hhigh⟩ := hzone t
  have := hshow.whole
  constructor
  · intro ⟨⟨hwhole, hnear⟩, hparts⟩
    have heq := (zonedParts_eq_iff hzone hshow hrange hnear (by omega)).mp hparts
    exact ⟨heq, by omega⟩
  · intro ⟨heq, hwhole⟩
    refine ⟨by omega, ?_⟩
    exact (zonedParts_eq_iff hzone hshow hrange (by omega) (by omega)).mpr heq

theorem kindOf_spec {instants : List Int} (hnodup : instants.Nodup) {P : Int → Prop}
    (hmem : ∀ t, t ∈ instants ↔ P t) :
    (kindOf instants = .gap ↔ ∀ t, ¬ P t) ∧ (kindOf instants = .exact ↔ ∃! t, P t) ∧
      (kindOf instants = .fold ↔ ∃ t u, t ≠ u ∧ P t ∧ P u) := by
  simp only [← hmem]
  match instants, hnodup with
  | [], _ | [t], _ => simp [kindOf]
  | t :: u :: rest, hnodup =>
    have htu : t ≠ u := by
      rintro rfl
      simp at hnodup
    refine ⟨⟨fun h => by simp [kindOf] at h, fun h => absurd (by simp) (h t)⟩, ?_, ?_⟩
    · refine ⟨fun h => by simp [kindOf] at h, fun ⟨w, _, hunique⟩ => absurd ?_ htu⟩
      exact (hunique t (by simp)).trans (hunique u (by simp)).symm
    · exact ⟨fun _ => ⟨t, u, htu, by simp, by simp⟩, fun _ => by simp [kindOf]⟩

/-- The instants are those whose local time is the date-time, and the kind counts them. -/
structure Resolves (zone : Zone) (clock : Int) (r : UIFnZonedResolution) : Prop where
  nodup : r.instants.Nodup
  instants : ∀ t, t ∈ r.instants ↔ t + zone t = clock
  gap : r.kind = .gap ↔ ∀ t, ¬ t + zone t = clock
  exact : r.kind = .exact ↔ ∃! t, t + zone t = clock
  fold : r.kind = .fold ↔ ∃ t u, t ≠ u ∧ t + zone t = clock ∧ u + zone u = clock

/-- A date-time is resolved just when every instant it names is whole minutes from UTC. -/
theorem resolves_iff_whole_minutes (hzone : Offsets zone) (hshow : Shows value clock)
    (hrange : Formatted clock) :
    (∃ r, resolveUIFnZonedDateTime value zone = some r ∧ Resolves zone clock r) ↔
      ∀ t, t + zone t = clock → zone t % 60000 = 0 := by
  obtain ⟨instants, hresolve, hnodup, hmem⟩ := resolve_spec hzone hshow hrange
  constructor
  · rintro ⟨r, hr, hresolves⟩ t ht
    obtain rfl := some.inj (hresolve.symm.trans hr)
    exact ((hmem t).mp ((hresolves.instants t).mpr ht)).2
  · intro hwhole
    have hinstants : ∀ t, t ∈ instants ↔ t + zone t = clock := fun t =>
      (hmem t).trans ⟨fun h => h.1, fun h => ⟨h, hwhole t h⟩⟩
    obtain ⟨hgap, hexact, hfold⟩ := kindOf_spec hnodup hinstants
    exact ⟨_, hresolve, hnodup, hinstants, hgap, hexact, hfold⟩

theorem resolves_utc : ∃ r, resolveUIFnZonedDateTime ⟨2000, 1, 1, 0, 0, none⟩ (fun _ => 0) = some r ∧
    Resolves (fun _ => 0) 946684800000 r :=
  (resolves_iff_whole_minutes (fun _ => by decide) ⟨by decide, by decide, by decide, by decide,
    by decide, by decide, by decide⟩ ⟨by decide, by decide, by decide⟩).mpr fun _ _ => rfl

/-- In 1930 the clocks of Amsterdam were 19 minutes and 32 seconds ahead; no midnight is found. -/
theorem gap_amsterdam :
    let zone : Zone := fun _ => 1172000
    let value : UIFnCalendarDateTime := ⟨1930, 1, 1, 0, 0, none⟩
    Offsets zone ∧ Shows value (-1262304000000) ∧ Formatted (-1262304000000) ∧
      (-1262305172000 : Int) + zone (-1262305172000) = -1262304000000 ∧
      ¬ ∃ r, resolveUIFnZonedDateTime value zone = some r ∧ Resolves zone (-1262304000000) r := by
  intro zone value
  have hzone : Offsets zone := fun _ => by decide
  have hshow : Shows value (-1262304000000) :=
    ⟨by decide, by decide, by decide, by decide, by decide, by decide, by decide⟩
  have hrange : Formatted (-1262304000000) := ⟨by decide, by decide, by decide⟩
  refine ⟨hzone, hshow, hrange, by decide, ?_⟩
  rintro ⟨r, hr, hresolves⟩
  obtain ⟨instants, hresolve, -, hmem⟩ := resolve_spec hzone hshow hrange
  obtain rfl := some.inj (hresolve.symm.trans hr)
  have hmidnight := (hresolves.instants (-1262305172000)).mpr (by decide)
  exact absurd ((hmem _).mp hmidnight).2 (by decide)

end SuperFunctions.Uifn.ZonedDateTime
