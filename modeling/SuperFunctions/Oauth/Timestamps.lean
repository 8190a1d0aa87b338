import SuperFunctions.Lib.Calendar
import SuperFunctions.Lib.Encodings

/-!
# ISO timestamps of the OAuth stores

The texts that `assertIsoTimestamp` admits, the instants they name, and the order of the texts
beside the order of the instants.
-/
namespace SuperFunctions.Oauth.Timestamps

open Lib.Calendar Lib.FixedWidth

/-- The fields of a text of the shape `YYYY-MM-DDTHH:MM:SS(.mmm)?Z`. -/
structure Fields where
  year : Nat
  month : Nat
  day : Nat
  hour : Nat
  minute : Nat
  second : Nat
  milliseconds : Option Nat

/-- `(?:\.\d{3})?Z$` -/
def fraction : List Char → Option (Option Nat)
  | ['Z'] => some none
  | '.' :: cs => do
    let (value, cs) ← digits 3 cs
    if cs = ['Z'] then some (some value) else none
  | _ => none

/-- `/^\d{4}-\d{2}-\d{2}T\d{2}:\d{2}:\d{2}(?:\.\d{3})?Z$/` -/
def fields (value : String) : Option Fields := do
  let (year, cs) ← digits 4 value.toList
  let cs ← literal '-' cs
  let (month, cs) ← digits 2 cs
  let cs ← literal '-' cs
  let (day, cs) ← digits 2 cs
  let cs ← literal 'T' cs
  let (hour, cs) ← digits 2 cs
  let cs ← literal ':' cs
  let (minute, cs) ← digits 2 cs
  let cs ← literal ':' cs
  let (second, cs) ← digits 2 cs
  let milliseconds ← fraction cs
  return { year, month, day, hour, minute, second, milliseconds }

/-- The fields `Date.parse` takes: a day beyond the end of its month is one of the next, and the
hour 24 is the end of the day. -/
def Fields.inRange (f : Fields) : Bool :=
  decide (1 ≤ f.month ∧ f.month ≤ 12 ∧ 1 ≤ f.day ∧ f.day ≤ 31 ∧ f.minute ≤ 59 ∧ f.second ≤ 59 ∧
    (f.hour ≤ 23 ∨ f.hour = 24 ∧ f.minute = 0 ∧ f.second = 0 ∧ f.milliseconds.getD 0 = 0))

def Fields.dayNumber (f : Fields) : Int := makeDay f.year (f.month - 1) f.day

def Fields.clock (f : Fields) : Nat := 3600 * f.hour + 60 * f.minute + f.second

def Fields.secondNumber (f : Fields) : Int := 86400 * f.dayNumber + f.clock

/-- In milliseconds since the epoch. -/
def Fields.instant (f : Fields) : Int := 1000 * f.secondNumber + f.milliseconds.getD 0

/-- `Date.parse(value)`, for a value of the shape; `none` is `NaN`. -/
def dateParse (value : String) : Option Int :=
  (fields value).bind fun f => if f.inRange then some f.instant else none

/-- Whether `assertIsoTimestamp` lets the value pass. -/
def isIsoTimestamp (value : String) : Bool := (dateParse value).isSome

/-- A value that `assertIsoTimestamp` let pass. -/
structure Timestamp where
  text : String
  valid : isIsoTimestamp text = true

/-- A comparison with `NaN` is false. -/
def instantBefore (a b : String) : Bool :=
  match dateParse a, dateParse b with
  | some x, some y => decide (x < y)
  | _, _ => false

/-- How a column of texts compares. -/
def columnBefore (a b : String) : Bool := decide (a < b)

/-- The texts of two timestamps compare the way their instants do. -/
def comparesAlike (a b : String) : Bool := columnBefore a b == instantBefore a b

end SuperFunctions.Oauth.Timestamps
