import SuperFunctions.Lib.Calendar

/-!
# Temporal periods (datafn core)

The period an instant lies in and the bucket it is grouped under. Instants are milliseconds since
the epoch, a time zone is its offset from UTC at every instant, and `none` is a `NaN` or the
`RangeError` the formatter throws at an invalid date.
-/
namespace SuperFunctions.Datafn.Temporal

open Lib.Calendar

inductive Scale where
  | hour
  | day
  | week
  | month
  | quarter
  | year

inductive Storage where
  | unixMs
  | unixS
  | date
  | iso
  deriving DecidableEq

/-- The offset of local time from UTC in milliseconds, at every instant. -/
abbrev Zone := Int → Int

structure DateParts where
  year : Int
  month : Int
  day : Int
  hour : Int
  minute : Int
  second : Int
  millisecond : Int

/-! ## Dates of the language -/

def msPerDay : Int := 86400000

/-- `new Date(time)`: the furthest instant is 100 million days from the epoch. -/
def timeClip (time : Int) : Option Int :=
  if -8640000000000000 ≤ time ∧ time ≤ 8640000000000000 then some time else none

def makeTime (hour minute second millisecond : Int) : Int :=
  hour * 3600000 + minute * 60000 + second * 1000 + millisecond

def makeDate (day time : Int) : Int := day * msPerDay + time

/-- Years of one or two digits are of the twentieth century. -/
def makeFullYear (year : Int) : Int := if 0 ≤ year ∧ year ≤ 99 then 1900 + year else year

/-- `Date.UTC`; months count from zero. -/
def dateUTC (year month date hour minute second millisecond : Int) : Option Int :=
  timeClip (makeDate (makeDay (makeFullYear year) month date)
    (makeTime hour minute second millisecond))

def getUTCFullYear (time : Int) : Int := yearFromDay (time / msPerDay)

def getUTCMonth (time : Int) : Int := monthFromDay (time / msPerDay)

def getUTCDate (time : Int) : Int := dateFromDay (time / msPerDay)

/-- The day of the week, Sunday is zero. -/
def getUTCDay (time : Int) : Int := (time / msPerDay + 4) % 7

def getUTCHours (time : Int) : Int := time % msPerDay / 3600000

def getUTCMinutes (time : Int) : Int := time % 3600000 / 60000

def getUTCSeconds (time : Int) : Int := time % 60000 / 1000

def getUTCMilliseconds (time : Int) : Int := time % 1000

def setUTCHours (time hours : Int) : Option Int :=
  timeClip (makeDate (time / msPerDay)
    (makeTime hours (getUTCMinutes time) (getUTCSeconds time) (getUTCMilliseconds time)))

def setUTCDate (time date : Int) : Option Int :=
  timeClip (makeDate (makeDay (getUTCFullYear time) (getUTCMonth time) date) (time % msPerDay))

def setUTCMonth (time month : Int) : Option Int :=
  timeClip (makeDate (makeDay (getUTCFullYear time) month (getUTCDate time)) (time % msPerDay))

def setUTCFullYear (time year : Int) : Option Int :=
  timeClip (makeDate (makeDay year (getUTCMonth time) (getUTCDate time)) (time % msPerDay))

/-! ## Zoned parts -/

/-- What `formatToParts` writes for a year: the era is not asked for. -/
def formattedYear (year : Int) : Int := if 1 ≤ year then year else 1 - year

/-- What `formatToParts` writes for an hour: midnight is the hour 24. -/
def formattedHour (hour : Int) : Int := if hour = 0 then 24 else hour

/-- `date` is a valid one; its milliseconds are those of UTC. -/
def getZonedParts (date : Int) (zone : Zone) : DateParts :=
  let shown := date + zone date
  let hour := formattedHour (getUTCHours shown)
  { year := formattedYear (getUTCFullYear shown)
    month := getUTCMonth shown + 1
    day := getUTCDate shown
    hour := if hour = 24 then 0 else hour
    minute := getUTCMinutes shown
    second := getUTCSeconds shown
    millisecond := getUTCMilliseconds date }

def partsToUTC (parts : DateParts) : Option Int :=
  dateUTC parts.year (parts.month - 1) parts.day parts.hour parts.minute parts.second
    parts.millisecond

def getTimezoneOffsetMs (date : Int) (zone : Zone) : Option Int := do
  let asUtc ← partsToUTC (getZonedParts date zone)
  return asUtc - date

def zonedTimeToUtcMs (parts : DateParts) (zone : Zone) : Option Int := do
  let utcGuess ← partsToUTC parts
  let offset ← getTimezoneOffsetMs utcGuess zone
  let first ← timeClip (utcGuess - offset)
  let corrected ← getTimezoneOffsetMs first zone
  return utcGuess - corrected

/-! ## Periods -/

def normalizeWeekStartsOn (value : Rat) : Int :=
  if value.den ≠ 1 then 1 else (value.num.tmod 7 + 7).tmod 7

def startOfTemporalPeriod (value : Int) (scale : Scale) (zone : Zone) (weekStartsOn : Rat) :
    Option Int := do
  let date ← timeClip value
  let parts := getZonedParts date zone
  match scale with
  | .hour => zonedTimeToUtcMs { parts with minute := 0, second := 0, millisecond := 0 } zone
  | .day => zonedTimeToUtcMs { parts with hour := 0, minute := 0, second := 0, millisecond := 0 } zone
  | .week =>
    let midnight ← dateUTC parts.year (parts.month - 1) parts.day 0 0 0 0
    let delta := (getUTCDay midnight - normalizeWeekStartsOn weekStartsOn + 7).tmod 7
    let first ← dateUTC parts.year (parts.month - 1) (parts.day - delta) 0 0 0 0
    zonedTimeToUtcMs ⟨getUTCFullYear first, getUTCMonth first + 1, getUTCDate first, 0, 0, 0, 0⟩ zone
  | .month => zonedTimeToUtcMs ⟨parts.year, parts.month, 1, 0, 0, 0, 0⟩ zone
  | .quarter => zonedTimeToUtcMs ⟨parts.year, (parts.month - 1) / 3 * 3 + 1, 1, 0, 0, 0, 0⟩ zone
  | .year => zonedTimeToUtcMs ⟨parts.year, 1, 1, 0, 0, 0, 0⟩ zone

def addTemporalPeriod (periodStartMs : Int) (scale : Scale) (zone : Zone) : Option Int := do
  let date ← timeClip periodStartMs
  let shown ← partsToUTC (getZonedParts date zone)
  let moved ← match scale with
    | .hour => setUTCHours shown (getUTCHours shown + 1)
    | .day => setUTCDate shown (getUTCDate shown + 1)
    | .week => setUTCDate shown (getUTCDate shown + 7)
    | .month => setUTCMonth shown (getUTCMonth shown + 1)
    | .quarter => setUTCMonth shown (getUTCMonth shown + 3)
    | .year => setUTCFullYear shown (getUTCFullYear shown + 1)
  zonedTimeToUtcMs ⟨getUTCFullYear moved, getUTCMonth moved + 1, getUTCDate moved,
    getUTCHours moved, getUTCMinutes moved, getUTCSeconds moved, getUTCMilliseconds moved⟩ zone

structure PeriodRange where
  start : Option Int
  last : Option Int
  deriving DecidableEq

def resolveTemporalPeriodRange (instant : Int) (scale : Scale) (zone : Zone) (weekStartsOn : Rat) :
    PeriodRange :=
  let start := startOfTemporalPeriod instant scale zone weekStartsOn
  let next := start.bind fun first => addTemporalPeriod first scale zone
  { start, last := next.map (· - 1) }

/-! ## Buckets -/

inductive StorageValue where
  | number (value : Int)
  | date (time : Int)
  /-- The text of an instant. -/
  | iso (time : Int)

def toTemporalStorageValue (ms : Int) : Storage → Option StorageValue
  | .unixS => some (.number (ms / 1000))
  | .date => (timeClip ms).map .date
  | .iso => (timeClip ms).map .iso
  | .unixMs => some (.number ms)

def resolveTemporalInputMs (value : Int) (storage : Storage) : Int :=
  if storage = .unixS then value * 1000 else value

structure TemporalGroup where
  scale : Scale
  zone : Zone
  storage : Storage
  output : Storage
  weekStartsOn : Rat

/-- `value` is what the record has at the path of the group. -/
def resolveTemporalBucketValue (value : Option Int) (group : TemporalGroup) :
    Option StorageValue := do
  let ms := resolveTemporalInputMs (← value) group.storage
  let start ← startOfTemporalPeriod ms group.scale group.zone group.weekStartsOn
  toTemporalStorageValue start group.output

end SuperFunctions.Datafn.Temporal

/-!
# The wall clock the parts are read from

The formatter shows whole seconds of local time and the milliseconds are those of UTC. From the
year 100 on, the parts of an instant are those of this clock and `Date.UTC` puts them together
again.
-/
namespace SuperFunctions.Datafn.Temporal

open Lib.Calendar

/-- The local time of an instant, as the parts give it. -/
def wallClock (zone : Zone) (t : Int) : Int := (t + zone t) / 1000 * 1000 + t % 1000

/-- The offset the parts give. -/
def offsetAt (zone : Zone) (t : Int) : Int := wallClock zone t - t

/-- A date whose year has three digits at least. -/
structure Civil (time : Int) : Prop where
  inRange : timeClip time = some time
  year : 100 ≤ getUTCFullYear time

structure Legible (zone : Zone) (t : Int) : Prop where
  inRange : timeClip t = some t
  shown : Civil (wallClock zone t)

def partsOf (time : Int) : DateParts :=
  ⟨getUTCFullYear time, getUTCMonth time + 1, getUTCDate time, getUTCHours time,
    getUTCMinutes time, getUTCSeconds time, getUTCMilliseconds time⟩

variable {zone : Zone} {t time b : Int} {parts : DateParts}

theorem timeClip_eq_some : timeClip time = some time ↔
    -8640000000000000 ≤ time ∧ time ≤ 8640000000000000 := by
  rw [timeClip]
  split_ifs with h
  · exact ⟨fun _ => h, fun _ => rfl⟩
  · exact ⟨nofun, fun h' => absurd h' h⟩

theorem makeFullYear_eq {year : Int} (h : 100 ≤ year) : makeFullYear year = year := by
  rw [makeFullYear, if_neg]
  omega

theorem makeTime_getters (time : Int) :
    makeTime (getUTCHours time) (getUTCMinutes time) (getUTCSeconds time)
      (getUTCMilliseconds time) = time % msPerDay := by
  rw [makeTime, getUTCHours, getUTCMinutes, getUTCSeconds, getUTCMilliseconds, msPerDay]
  omega

theorem makeDate_split (time : Int) : makeDate (time / msPerDay) (time % msPerDay) = time := by
  rw [makeDate, msPerDay]
  omega

theorem partsToUTC_partsOf (h : Civil time) : partsToUTC (partsOf time) = some time := by
  have hmonth : getUTCMonth time + 1 - 1 = getUTCMonth time := by omega
  rw [partsToUTC, partsOf, dateUTC, hmonth, makeFullYear_eq h.year, makeTime_getters,
    getUTCFullYear, getUTCMonth, getUTCDate, makeDay_ofDay, makeDate_split]
  exact h.inRange

theorem getters_of_second {a c : Int} (h : a / 1000 = c / 1000) :
    a / msPerDay = c / msPerDay ∧ getUTCHours a = getUTCHours c ∧
      getUTCMinutes a = getUTCMinutes c ∧ getUTCSeconds a = getUTCSeconds c := by
  rw [getUTCHours, getUTCHours, getUTCMinutes, getUTCMinutes, getUTCSeconds, getUTCSeconds,
    msPerDay]
  omega

theorem hour_of_formatted (time : Int) :
    (if formattedHour (getUTCHours time) = 24 then 0 else formattedHour (getUTCHours time)) =
      getUTCHours time := by
  have hlt : getUTCHours time < 24 := by
    rw [getUTCHours, msPerDay]
    omega
  rw [formattedHour]
  split_ifs
  · omega
  · omega
  · omega
  · rfl

theorem formattedYear_eq {year : Int} (h : 100 ≤ year) : formattedYear year = year := by
  rw [formattedYear, if_pos]
  omega

theorem getZonedParts_eq (h : Legible zone t) :
    getZonedParts t zone = partsOf (wallClock zone t) := by
  have hsecond : (t + zone t) / 1000 = wallClock zone t / 1000 := by
    rw [wallClock]
    omega
  have hms : getUTCMilliseconds t = getUTCMilliseconds (wallClock zone t) := by
    rw [getUTCMilliseconds, getUTCMilliseconds, wallClock]
    omega
  obtain ⟨hday, hhour, hminute, hsec⟩ := getters_of_second hsecond
  have hyear : getUTCFullYear (t + zone t) = getUTCFullYear (wallClock zone t) := by
    rw [getUTCFullYear, hday, getUTCFullYear]
  have hmonth : getUTCMonth (t + zone t) = getUTCMonth (wallClock zone t) := by
    rw [getUTCMonth, hday, getUTCMonth]
  have hdate : getUTCDate (t + zone t) = getUTCDate (wallClock zone t) := by
    rw [getUTCDate, hday, getUTCDate]
  simp only [getZonedParts, hour_of_formatted]
  rw [hyear, hmonth, hdate, hhour, hminute, hsec, hms, formattedYear_eq h.shown.year, partsOf]

theorem getTimezoneOffsetMs_eq (h : Legible zone t) :
    getTimezoneOffsetMs t zone = some (offsetAt zone t) := by
  rw [getTimezoneOffsetMs, getZonedParts_eq h, partsToUTC_partsOf h.shown]
  rfl

theorem zonedTimeToUtcMs_eq (hparts : partsToUTC parts = some b) (hb : Legible zone b)
    (hguess : Legible zone (b - offsetAt zone b)) :
    zonedTimeToUtcMs parts zone = some (b - offsetAt zone (b - offsetAt zone b)) := by
  rw [zonedTimeToUtcMs, hparts]
  show (getTimezoneOffsetMs b zone).bind _ = _
  rw [getTimezoneOffsetMs_eq hb]
  show (timeClip (b - offsetAt zone b)).bind _ = _
  rw [hguess.inRange]
  show (getTimezoneOffsetMs (b - offsetAt zone b) zone).bind _ = _
  rw [getTimezoneOffsetMs_eq hguess]
  rfl

end SuperFunctions.Datafn.Temporal
