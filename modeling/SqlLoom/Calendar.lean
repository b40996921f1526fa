/-
  Date-times as nanoseconds since 1970-01-01 00:00:00 UTC, and their civil reading.

  A count of nanoseconds is split by FLOOR division into days and a time of day, so that instants
  before 1970 fall on the day they belong to.  A day number is turned into a date of the proleptic
  Gregorian calendar by counting from 0000-03-01: with the leap day at the end of the year, a cycle
  of 400 years has 146097 days and the months of a year follow one linear rule.
-/
import SqlLoom.Number.Decimal

namespace SqlLoom

/-- A date of the proleptic Gregorian calendar. -/
structure Date where
  year : Int
  month : Nat
  day : Nat
  deriving DecidableEq, Repr

namespace Date

/-- The date of a day number, where day 0 is 1970-01-01 and 719468 days earlier is 0000-03-01. -/
def ofDayNumber (days : Int) : Date :=
  let shifted := days + 719468
  let cycle := Int.fdiv shifted 146097
  let dayOfCycle := (Int.fmod shifted 146097).toNat
  let yearOfCycle :=
    (dayOfCycle - dayOfCycle / 1460 + dayOfCycle / 36524 - dayOfCycle / 146096) / 365
  let dayOfYear := dayOfCycle - (365 * yearOfCycle + yearOfCycle / 4 - yearOfCycle / 100)
  let monthFromMarch := (5 * dayOfYear + 2) / 153
  let day := dayOfYear - (153 * monthFromMarch + 2) / 5 + 1
  let month := if monthFromMarch < 10 then monthFromMarch + 3 else monthFromMarch - 9
  let year := cycle * 400 + yearOfCycle
  ⟨if month ≤ 2 then year + 1 else year, month, day⟩

end Date

/-- An instant, in nanoseconds since 1970-01-01 00:00:00 UTC. -/
structure Instant where
  nanoseconds : Int64
  deriving DecidableEq, Repr

namespace Instant

/-- Whole seconds since the epoch, rounded down. -/
def seconds (t : Instant) : Int :=
  Int.fdiv t.nanoseconds.toInt 1000000000

/-- The civil date. -/
def date (t : Instant) : Date :=
  Date.ofDayNumber (Int.fdiv t.seconds 86400)

/-- Seconds since midnight. -/
def secondOfDay (t : Instant) : Nat :=
  (Int.fmod t.seconds 86400).toNat

/-- `YYYY-MM-DD HH:MM:SS`.  The years an instant can reach, 1677 to 2262, have four digits. -/
def civilText (t : Instant) : String :=
  let d := t.date
  let s := t.secondOfDay
  String.ofList
    (paddedDigits 4 d.year.toNat ++ '-' :: paddedDigits 2 d.month ++ '-' :: paddedDigits 2 d.day
      ++ ' ' :: paddedDigits 2 (s / 3600) ++ ':' :: paddedDigits 2 (s / 60 % 60)
      ++ ':' :: paddedDigits 2 (s % 60))

/-- Whole seconds since the epoch, rounded toward it, with the unit. -/
def display (t : Instant) : String :=
  decimalInt (Int.tdiv t.nanoseconds.toInt 1000000000) ++ "s"

example : civilText ⟨0⟩ = "1970-01-01 00:00:00" := by decide
example : civilText ⟨-1⟩ = "1969-12-31 23:59:59" := by decide
example : display ⟨-1⟩ = "0s" := by decide

end Instant

end SqlLoom
