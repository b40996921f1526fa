/-
  The date of a day number is the date of the Gregorian calendar.

  1. THE CALENDAR says how many days a month has (`daysInMonth`), and the number of a date counts the
     days from 1970-01-01 to it: those of the years before its year, those of the months before its
     month, and those before it in the month (`dayNumber`).  Nothing of it is taken from the
     computation of a date.
  2. THE COMPUTATION counts from 1 March, so that a leap day is the last day of its year.  It is
     followed in two steps.  A day of a cycle of 400 years lies in one of the centuries 0 to 3, in
     one of its 25 groups of four years, in one of the years of its group

         n  =  36524·q + 1461·u + 365·v + d        q ≤ 3, u ≤ 24, v ≤ 3, d ≤ 365

     and `d = 365` only where the year ends with a leap day (`exists_year_of_cycle`,
     `yearOfCycle_eq`).  The day `d` after 1 March lies in the month that the linear rule gives
     (`ofMarch_cases`).
  3. Both meet in `valid_ofDayNumber` and `dayNumber_ofDayNumber`: the date is one of the calendar,
     and its number is the one that it was computed from.
  4. THE ORDER of dates, by year, month and day, is the order of their numbers
     (`dayNumber_lt_of_before`).
-/
import Mathlib.Order.Monotone.Basic
import Mathlib.Tactic.IntervalCases
import SqlLoom.Calendar

namespace SqlLoom.Date

attribute [ext] Date

/-! ## The calendar -/

/-- A year with a 29 February. -/
def IsLeap (year : Int) : Prop :=
  year % 4 = 0 ∧ (year % 100 ≠ 0 ∨ year % 400 = 0)

instance (year : Int) : Decidable (IsLeap year) :=
  inferInstanceAs (Decidable (_ ∧ _))

/-- How many leap days a year has. -/
def leapDays (year : Int) : Nat :=
  if IsLeap year then 1 else 0

/-- How many days a month has. -/
def daysInMonth (year : Int) (month : Nat) : Nat :=
  if month = 2 then 28 + leapDays year
  else if month ∈ [4, 6, 9, 11] then 30
  else 31

/-- How many days a year has up to the end of a month. -/
def daysThroughMonth (year : Int) : Nat → Nat
  | 0 => 0
  | month + 1 => daysThroughMonth year month + daysInMonth year (month + 1)

/-- How many days lie between the first days of the year 1 and of a year. -/
def daysBeforeYear (year : Int) : Int :=
  365 * (year - 1) + (year - 1) / 4 - (year - 1) / 100 + (year - 1) / 400

/-- A date of the calendar. -/
structure Valid (d : Date) : Prop where
  month_pos : 1 ≤ d.month
  month_le : d.month ≤ 12
  day_pos : 1 ≤ d.day
  day_le : d.day ≤ daysInMonth d.year d.month

/-- How many days lie between 1970-01-01 and a date. -/
def dayNumber (d : Date) : Int :=
  daysBeforeYear d.year + daysThroughMonth d.year (d.month - 1) + (d.day - 1) - daysBeforeYear 1970

theorem leapDays_eq (y : Int) : (IsLeap y ∧ leapDays y = 1) ∨ (¬ IsLeap y ∧ leapDays y = 0) := by
  unfold leapDays
  by_cases h : IsLeap y
  · exact Or.inl ⟨h, if_pos h⟩
  · exact Or.inr ⟨h, if_neg h⟩

/-- A year has 365 days, and its leap day. -/
theorem daysBeforeYear_succ (y : Int) :
    daysBeforeYear (y + 1) = daysBeforeYear y + 365 + leapDays y := by
  unfold daysBeforeYear
  rcases leapDays_eq y with ⟨h, hl⟩ | ⟨h, hl⟩
  · unfold IsLeap at h
    omega
  · unfold IsLeap at h
    omega

/-- From March on, the months of a year follow one linear rule. -/
theorem daysThroughMonth_eq (y : Int) {m : Nat} (hlow : 2 ≤ m) (hhigh : m ≤ 12) :
    daysThroughMonth y m = 59 + leapDays y + (153 * (m - 2) + 2) / 5 := by
  interval_cases m <;> simp [daysThroughMonth, daysInMonth] <;> omega

/-! ## The year of a day -/

/-- A day of a cycle of 400 years lies in a century, in a group of four years, in a year of it. -/
theorem exists_year_of_cycle {n : Nat} (h : n < 146097) :
    ∃ q u v d : Nat, q ≤ 3 ∧ u ≤ 24 ∧ v ≤ 3 ∧ d ≤ 365 ∧ (d = 365 → v = 3 ∧ (u = 24 → q = 3))
      ∧ n = 36524 * q + 1461 * u + 365 * v + d := by
  -- the last day of the cycle is the leap day that makes its last century longer
  obtain ⟨q, r, hq, hr, hlast, hn⟩ : ∃ q r : Nat, q ≤ 3 ∧ r ≤ 36524 ∧ (r = 36524 → q = 3)
      ∧ n = 36524 * q + r := by
    by_cases hend : n = 146096
    · exact ⟨3, 36524, by omega, by omega, by omega, by omega⟩
    · exact ⟨n / 36524, n % 36524, by omega, by omega, by omega, by omega⟩
  -- and the last day of four years is the one that makes their last year longer
  obtain ⟨v, d, hv, hd, hleap, hrest⟩ : ∃ v d : Nat, v ≤ 3 ∧ d ≤ 365 ∧ (d = 365 → v = 3)
      ∧ r % 1461 = 365 * v + d := by
    by_cases hend : r % 1461 = 1460
    · exact ⟨3, 365, by omega, by omega, by omega, by omega⟩
    · exact ⟨r % 1461 / 365, r % 1461 % 365, by omega, by omega, by omega, by omega⟩
  exact ⟨q, r / 1461, v, d, hq, by omega, hv, hd, by omega, by omega⟩

/-- The computation finds that year. -/
theorem yearOfCycle_eq {n q u v d : Nat} (hq : q ≤ 3) (hu : u ≤ 24) (hv : v ≤ 3) (hd : d ≤ 365)
    (hlast : d = 365 → v = 3 ∧ (u = 24 → q = 3)) (hn : n = 36524 * q + 1461 * u + 365 * v + d) :
    (n - n / 1460 + n / 36524 - n / 146096) / 365 = 100 * q + 4 * u + v := by
  have hcentury : n / 36524 = q + n / 146096 := by
    have hr : 1461 * u + 365 * v + d ≤ 36523 ∨ q = 3 ∧ u = 24 ∧ v = 3 ∧ d = 365 := by omega
    rcases hr with hr | ⟨rfl, rfl, rfl, rfl⟩
    · have h₁ : n / 36524 = q := by omega
      have h₂ : n / 146096 = 0 := by omega
      omega
    · omega
  have hfour : n / 1460 = 25 * q + u ∧ d ≤ 364 ∨ n / 1460 = 25 * q + u + 1 ∧ 1 ≤ d := by omega
  omega

theorem daysBeforeYear_of_cycle (c : Int) {q u v : Nat} (hq : q ≤ 3) (hu : u ≤ 24) (hv : v ≤ 3) :
    daysBeforeYear (c * 400 + (100 * q + 4 * u + v : Nat) + 1)
      = 146097 * c + 36524 * q + 1461 * u + 365 * v := by
  have h₁ : (c * 400 + (100 * q + 4 * u + v : Nat)) / 4 = 100 * c + 25 * q + u := by omega
  have h₂ : (c * 400 + (100 * q + 4 * u + v : Nat)) / 100 = 4 * c + q := by omega
  have h₃ : (c * 400 + (100 * q + 4 * u + v : Nat)) / 400 = c := by omega
  rw [daysBeforeYear, add_sub_cancel_right, h₁, h₂, h₃]
  omega

/-! ## The month of a day -/

/-- The date that lies `d` days behind 1 March of a year. -/
def ofMarch (year : Int) (d : Nat) : Date :=
  let monthFromMarch := (5 * d + 2) / 153
  let month := if monthFromMarch < 10 then monthFromMarch + 3 else monthFromMarch - 9
  ⟨if month ≤ 2 then year + 1 else year, month, d - (153 * monthFromMarch + 2) / 5 + 1⟩

/-- March to December of the year, then January and February of the next one. -/
theorem ofMarch_cases {d : Nat} (h : d ≤ 365) (year : Int) :
    (∃ m b : Nat, m ≤ 9 ∧ b = (153 * m + 2) / 5 ∧ b ≤ d ∧ d < (153 * (m + 1) + 2) / 5
        ∧ ofMarch year d = ⟨year, m + 3, d - b + 1⟩)
      ∨ (306 ≤ d ∧ d < 337 ∧ ofMarch year d = ⟨year + 1, 1, d - 306 + 1⟩)
      ∨ (337 ≤ d ∧ ofMarch year d = ⟨year + 1, 2, d - 337 + 1⟩) := by
  by_cases hm : (5 * d + 2) / 153 < 10
  · refine Or.inl ⟨(5 * d + 2) / 153, _, by omega, rfl, by omega, by omega, ?_⟩
    have hmonth : ¬ (5 * d + 2) / 153 + 3 ≤ 2 := by omega
    simp only [ofMarch, if_pos hm, if_neg hmonth]
  · by_cases hlast : (5 * d + 2) / 153 = 10
    · refine Or.inr (Or.inl ⟨by omega, by omega, ?_⟩)
      simp [ofMarch, hlast]
    · have hlast : (5 * d + 2) / 153 = 11 := by omega
      refine Or.inr (Or.inr ⟨by omega, ?_⟩)
      simp [ofMarch, hlast]

theorem valid_ofMarch {year : Int} {d : Nat} (h : d ≤ 364 + leapDays (year + 1)) :
    (ofMarch year d).Valid := by
  have hleap := leapDays_eq (year + 1)
  rcases ofMarch_cases (show d ≤ 365 by omega) year with
    ⟨m, b, hm, hb, hlow, hhigh, hdate⟩ | ⟨hlow, hhigh, hdate⟩ | ⟨hlow, hdate⟩
  · rw [hdate]
    refine ⟨show 1 ≤ m + 3 by omega, show m + 3 ≤ 12 by omega, show 1 ≤ d - b + 1 by omega, ?_⟩
    show d - b + 1 ≤ daysInMonth year (m + 3)
    interval_cases m <;> simp [daysInMonth] <;> omega
  · rw [hdate]
    refine ⟨show 1 ≤ 1 by omega, show 1 ≤ 12 by omega, show 1 ≤ d - 306 + 1 by omega, ?_⟩
    show d - 306 + 1 ≤ 31
    omega
  · rw [hdate]
    refine ⟨show 1 ≤ 2 by omega, show 2 ≤ 12 by omega, show 1 ≤ d - 337 + 1 by omega, ?_⟩
    show d - 337 + 1 ≤ 28 + leapDays (year + 1)
    omega

/-- 719468 days lie between 1 March of the year 0 and 1970-01-01. -/
theorem dayNumber_ofMarch {year : Int} {d : Nat} (h : d ≤ 365) :
    (ofMarch year d).dayNumber = daysBeforeYear (year + 1) + d - 719468 := by
  have hepoch : daysBeforeYear 1970 = 719162 := by decide
  have hnext := daysBeforeYear_succ year
  rcases ofMarch_cases h year with
    ⟨m, b, hm, hb, hlow, hhigh, hdate⟩ | ⟨hlow, hhigh, hdate⟩ | ⟨hlow, hdate⟩
  · have hbefore := daysThroughMonth_eq year (m := m + 2) (by omega) (by omega)
    rw [Nat.add_sub_cancel] at hbefore
    rw [hdate]
    show daysBeforeYear year + daysThroughMonth year (m + 2) + ((d - b + 1 : Nat) - 1)
      - daysBeforeYear 1970 = _
    omega
  · rw [hdate]
    show daysBeforeYear (year + 1) + (0 : Nat) + ((d - 306 + 1 : Nat) - 1) - daysBeforeYear 1970 = _
    omega
  · rw [hdate]
    show daysBeforeYear (year + 1) + (31 : Nat) + ((d - 337 + 1 : Nat) - 1) - daysBeforeYear 1970 = _
    omega

/-! ## The date of a day number -/

/-- Year and month put together. -/
theorem ofDayNumber_eq (days : Int) :
    ∃ (year : Int) (d : Nat), ofDayNumber days = ofMarch year d ∧ d ≤ 364 + leapDays (year + 1)
      ∧ days + 719468 = daysBeforeYear (year + 1) + d := by
  have hcycle := Int.mul_fdiv_add_fmod (days + 719468) 146097
  have hnonneg : 0 ≤ (days + 719468).fmod 146097 := Int.fmod_nonneg_of_pos _ (by decide)
  have hlt : (days + 719468).fmod 146097 < 146097 := Int.fmod_lt_of_pos _ (by decide)
  generalize hc : (days + 719468).fdiv 146097 = c at hcycle
  generalize hn : (days + 719468).fmod 146097 = n at hcycle hnonneg hlt
  obtain ⟨n, rfl⟩ := Int.eq_ofNat_of_zero_le hnonneg
  obtain ⟨q, u, v, d, hq, hu, hv, hd, hlast, hsplit⟩ := exists_year_of_cycle (n := n) (by omega)
  have hyear := yearOfCycle_eq hq hu hv hd hlast hsplit
  refine ⟨c * 400 + (100 * q + 4 * u + v : Nat), d, ?_, ?_, ?_⟩
  · have hday : n - (365 * (100 * q + 4 * u + v) + (100 * q + 4 * u + v) / 4
        - (100 * q + 4 * u + v) / 100) = d := by
      have h₁ : (100 * q + 4 * u + v) / 4 = 25 * q + u := by omega
      have h₂ : (100 * q + 4 * u + v) / 100 = q := by omega
      rw [h₁, h₂]
      omega
    simp only [ofDayNumber, hc, hn, Int.toNat_natCast, hyear, hday, ofMarch]
  · clear hyear hsplit hcycle
    rcases leapDays_eq (c * 400 + (100 * q + 4 * u + v : Nat) + 1) with ⟨h, hl⟩ | ⟨h, hl⟩
    · omega
    · unfold IsLeap at h
      omega
  · rw [daysBeforeYear_of_cycle c hq hu hv]
    omega

/-- **Every day number has a date of the calendar.** -/
theorem valid_ofDayNumber (days : Int) : (ofDayNumber days).Valid := by
  obtain ⟨year, d, hdate, hd, -⟩ := ofDayNumber_eq days
  rw [hdate]
  exact valid_ofMarch hd

/-- **And it is the date with that number.** -/
theorem dayNumber_ofDayNumber (days : Int) : (ofDayNumber days).dayNumber = days := by
  obtain ⟨year, d, hdate, hd, hsum⟩ := ofDayNumber_eq days
  have hleap := leapDays_eq (year + 1)
  rw [hdate, dayNumber_ofMarch (by omega)]
  omega

/-! ## The order of dates -/

/-- Earlier by year, then by month, then by day. -/
def Before (d e : Date) : Prop :=
  d.year < e.year ∨ d.year = e.year ∧ (d.month < e.month ∨ d.month = e.month ∧ d.day < e.day)

theorem daysThroughMonth_mono (y : Int) : Monotone (daysThroughMonth y) :=
  monotone_nat_of_le_succ fun _ => Nat.le_add_right _ _

/-- A date lies in its month. -/
theorem Valid.through_month {d : Date} (h : d.Valid) :
    daysThroughMonth d.year (d.month - 1) + d.day ≤ daysThroughMonth d.year d.month := by
  have hpos := h.month_pos
  have hle := h.day_le
  obtain ⟨m, hm⟩ : ∃ m, d.month = m + 1 := ⟨d.month - 1, by omega⟩
  rw [hm] at hle ⊢
  show daysThroughMonth d.year m + d.day ≤ daysThroughMonth d.year m + daysInMonth d.year (m + 1)
  omega

/-- And in its year. -/
theorem Valid.year_bounds {d : Date} (h : d.Valid) :
    daysBeforeYear d.year ≤ d.dayNumber + 719162 ∧ d.dayNumber + 719162 < daysBeforeYear (d.year + 1) := by
  have hepoch : daysBeforeYear 1970 = 719162 := by decide
  have hmonth := h.through_month
  have hyear : daysThroughMonth d.year d.month ≤ daysThroughMonth d.year 12 :=
    daysThroughMonth_mono d.year h.month_le
  have htwelve := daysThroughMonth_eq d.year (m := 12) (by omega) (by omega)
  have hnext := daysBeforeYear_succ d.year
  have hday := h.day_pos
  unfold dayNumber
  omega

theorem daysBeforeYear_mono {y z : Int} (h : y ≤ z) : daysBeforeYear y ≤ daysBeforeYear z := by
  unfold daysBeforeYear
  omega

/-- **Earlier dates have smaller numbers.** -/
theorem dayNumber_lt_of_before {d e : Date} (hd : d.Valid) (he : e.Valid) (h : d.Before e) :
    d.dayNumber < e.dayNumber := by
  rcases h with hyear | ⟨hyear, hmonth | ⟨hmonth, hday⟩⟩
  · have hbetween := daysBeforeYear_mono (show d.year + 1 ≤ e.year by omega)
    have h₁ := hd.year_bounds
    have h₂ := he.year_bounds
    omega
  · have hbetween := daysThroughMonth_mono d.year (show d.month ≤ e.month - 1 by omega)
    have h₁ := hd.through_month
    have h₂ := he.day_pos
    unfold dayNumber
    rw [← hyear]
    omega
  · unfold dayNumber
    rw [← hyear, ← hmonth]
    omega

end SqlLoom.Date
