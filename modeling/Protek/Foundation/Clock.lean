import Mathlib.Data.List.Basic

/-! # Instants and their texts

An instant counts microseconds from 1970-01-01 in UTC. `isoformat` is Python's
`datetime.isoformat` of an aware UTC datetime, which leaves the fraction out
when it is zero; `sqliteDatetime` is SQLite's `datetime(…)`, cut to the second.
-/
namespace Foundation.Clock

abbrev Instant := ℕ

def second : ℕ := 1000000

def hour : ℕ := 3600 * second

def day : ℕ := 24 * hour

def pad (width n : ℕ) : String :=
  let digits := Nat.toDigits 10 n
  String.ofList (List.replicate (width - digits.length) '0' ++ digits)

/-- Year, month and day of the proleptic Gregorian calendar, in eras of 400 years from March. -/
def civil (days : ℕ) : ℕ × ℕ × ℕ :=
  let z := days + 719468
  let doe := z % 146097
  let yoe := (doe - doe / 1460 + doe / 36524 - doe / 146096) / 365
  let doy := doe - (365 * yoe + yoe / 4 - yoe / 100)
  let mp := (5 * doy + 2) / 153
  let d := doy - (153 * mp + 2) / 5 + 1
  let m := if mp < 10 then mp + 3 else mp - 9
  let y := yoe + z / 146097 * 400
  (if m ≤ 2 then y + 1 else y,m,d)

def dateText (t : Instant) : String :=
  let (y,m,d) := civil (t / day)
  pad 4 y ++ "-" ++ pad 2 m ++ "-" ++ pad 2 d

def timeText (t : Instant) : String :=
  let s := t % day / second
  pad 2 (s / 3600) ++ ":" ++ pad 2 (s / 60 % 60) ++ ":" ++ pad 2 (s % 60)

def isoformat (t : Instant) : String :=
  let fraction := if t % second = 0 then "" else "." ++ pad 6 (t % second)
  dateText t ++ "T" ++ timeText t ++ fraction ++ "+00:00"

/-- RFC 3339 to the second, as Go services write instants. -/
def rfc3339 (t : Instant) : String := dateText t ++ "T" ++ timeText t ++ "Z"

/-- The first instant past what a Python datetime can hold. -/
def endOfTime : Instant := 253402300800 * second

def sqliteDatetime (t : Instant) : String := dateText t ++ " " ++ timeText t

example : isoformat 1792067696000001 = "2026-10-15T12:34:56.000001+00:00" := by decide
example : sqliteDatetime 951782400000000 = "2000-02-29 00:00:00" := by decide

end Foundation.Clock
