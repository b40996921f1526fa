/-
  The literal of an instant: it is the civil time of the instant, and it keeps the order of instants.

  1. READING (`CivilTime.read`) knows nothing of the writer.  It takes a quoted text of the fixed form
     `'YYYY-MM-DD HH:MM:SS'` apart, digit by digit, and accepts nothing else.  What it finds is valid
     when the calendar has the date and a day the time (`CivilTime.Valid`), and its seconds are
     counted by the calendar (`CivilTime.seconds`).
  2. NUMBERS OF A FIXED WIDTH.  `paddedDigits w n` has `w` digits and the value `n`, as long as `n`
     has at most `w` digits; and among such numbers the order of the texts is the order of the values
     (`paddedDigits_append_lt_iff`).  The last one is an induction on the width: the number ends with
     one digit, and the digits before it are a number that is one digit shorter.
  3. FIELDS are numbers of fixed widths, each with a mark behind it.  They are read back
     (`readFields_writeFields`), and they are ordered as the lists of their numbers are, from the
     first one on (`writeFields_lt_iff`).
  4. THE CIVIL TIME of an instant (`Instant.civil`) is valid, has the seconds of the instant, rounded
     down, and a year from 1677 to 2262.  The years are the only thing that the 64 bits are needed
     for: they are what makes four digits enough.
  5. THE ORDER.  A text that comes first is the text of an earlier civil time (`before_of_written_lt`),
     and that one has fewer seconds (`seconds_lt_of_before`).  So a later instant never comes first.
-/
import SqlLoom.Proofs.Calendar
import SqlLoom.Value.Literal

namespace SqlLoom

/-! ## Civil times and how to read them -/

/-- A date and a time of day. -/
structure CivilTime where
  date : Date
  hour : Nat
  minute : Nat
  second : Nat
  deriving DecidableEq

namespace CivilTime

/-- A date of the calendar and a time of the day. -/
structure Valid (c : CivilTime) : Prop where
  date : c.date.Valid
  hour_lt : c.hour < 24
  minute_lt : c.minute < 60
  second_lt : c.second < 60

/-- The seconds from the beginning of 1970 to a civil time, where every day has 86400 of them. -/
def seconds (c : CivilTime) : Int :=
  86400 * c.date.dayNumber + (3600 * c.hour + 60 * c.minute + c.second : Nat)

/-- Takes the given character off the front. -/
def readMark (mark : Char) : List Char → Option (List Char)
  | [] => none
  | c :: rest => if c = mark then some rest else none

/-- Takes a number of exactly `width` digits off the front. -/
def readNumber (width : Nat) (cs : List Char) : Option (Nat × List Char) :=
  if width ≤ cs.length ∧ (cs.take width).all Char.isDigit then
    some (Nat.ofDigitChars 10 (cs.take width) 0, cs.drop width)
  else none

/-- Reads one number for each field, of the given width and with the given mark behind it, up to the
    end of the text. -/
def readFields : List (Nat × Char) → List Char → Option (List Nat)
  | [], cs => if cs = [] then some [] else none
  | (width, mark) :: form, cs => do
    let (n, rest) ← readNumber width cs
    let rest ← readMark mark rest
    let ns ← readFields form rest
    return n :: ns

/-- `YYYY-MM-DD HH:MM:SS'` -/
def form : List (Nat × Char) :=
  [(4, '-'), (2, '-'), (2, ' '), (2, ':'), (2, ':'), (2, '\'')]

/-- Reads `'YYYY-MM-DD HH:MM:SS'`, with nothing behind it. -/
def read (cs : List Char) : Option CivilTime := do
  let rest ← readMark '\'' cs
  match ← readFields form rest with
  | [year, month, day, hour, minute, second] => some ⟨⟨year, month, day⟩, hour, minute, second⟩
  | _ => none

end CivilTime

/-! ## Numbers of a fixed width -/

/-- The last digit of a number, and the digits before it. -/
theorem paddedDigits_succ {width : Nat} (h : 0 < width) (n : Nat) :
    paddedDigits (width + 1) n = paddedDigits width (n / 10) ++ [(n % 10).digitChar] := by
  unfold paddedDigits decimalDigits
  rw [Nat.toDigits_eq_if (n := n) (by decide)]
  by_cases hn : n < 10
  · have hdiv : n / 10 = 0 := Nat.div_eq_of_lt hn
    have hmod : n % 10 = n := Nat.mod_eq_of_lt hn
    have hzero : Nat.toDigits 10 0 = ['0'] := rfl
    obtain ⟨w, rfl⟩ : ∃ w, width = w + 1 := ⟨width - 1, by omega⟩
    simp [hn, hdiv, hmod, hzero, List.replicate_succ']
  · simp [hn]

theorem paddedDigits_one {n : Nat} (h : n < 10) : paddedDigits 1 n = [n.digitChar] := by
  simp [paddedDigits, decimalDigits, Nat.toDigits_of_lt_base h]

theorem length_paddedDigits {width n : Nat} (hw : 0 < width) (hn : n < 10 ^ width) :
    (paddedDigits width n).length = width := by
  have hle := (Nat.length_toDigits_le_iff (b := 10) (by decide) hw).mpr hn
  rw [paddedDigits, List.length_append, List.length_replicate]
  exact Nat.sub_add_cancel hle

theorem isDigit_of_mem_paddedDigits {width n : Nat} {c : Char} (h : c ∈ paddedDigits width n) :
    c.isDigit = true := by
  rcases List.mem_append.mp h with h | h
  · rw [List.eq_of_mem_replicate h]
    rfl
  · exact Nat.isDigit_of_mem_toDigits (by decide) (by decide) h

theorem ofDigitChars_paddedDigits (width n : Nat) :
    Nat.ofDigitChars 10 (paddedDigits width n) 0 = n := by
  have hzeros : ∀ k, Nat.ofDigitChars 10 (List.replicate k '0') 0 = 0 := by
    intro k
    induction k with
    | zero => rfl
    | succ k ih =>
      rw [List.replicate_succ, Nat.ofDigitChars_cons]
      exact ih
  rw [paddedDigits, Nat.ofDigitChars_append, hzeros]
  exact Nat.ofDigitChars_ten_toDigits

theorem digitChar_lt_iff {a b : Nat} (ha : a < 10) (hb : b < 10) :
    a.digitChar < b.digitChar ↔ a < b := by
  have hcode : a.digitChar < b.digitChar ↔ a.digitChar.toNat < b.digitChar.toNat := Iff.rfl
  rw [hcode, Nat.toNat_digitChar_of_lt_ten ha, Nat.toNat_digitChar_of_lt_ten hb]
  omega

theorem digitChar_eq_iff {a b : Nat} (ha : a < 10) (hb : b < 10) :
    a.digitChar = b.digitChar ↔ a = b := by
  rw [← Char.toNat_inj, Nat.toNat_digitChar_of_lt_ten ha, Nat.toNat_digitChar_of_lt_ten hb]
  omega

/-- **Numbers of one width are ordered as their texts are**, whatever stands behind them. -/
theorem paddedDigits_append_lt_iff {width : Nat} (hw : 1 ≤ width) {a b : Nat} (ha : a < 10 ^ width)
    (hb : b < 10 ^ width) {s t : List Char} :
    paddedDigits width a ++ s < paddedDigits width b ++ t ↔ a < b ∨ a = b ∧ s < t := by
  induction width, hw using Nat.le_induction generalizing a b s t with
  | base =>
    rw [paddedDigits_one ha, paddedDigits_one hb, List.singleton_append, List.singleton_append,
      List.cons_lt_cons_iff, digitChar_lt_iff ha hb, digitChar_eq_iff ha hb]
  | succ width hw ih =>
    rw [Nat.pow_succ] at ha hb
    have hmod : ∀ n, n % 10 < 10 := fun n => Nat.mod_lt n (by decide)
    rw [paddedDigits_succ hw, paddedDigits_succ hw, List.append_assoc, List.append_assoc,
      ih (by omega) (by omega), List.singleton_append, List.singleton_append, List.cons_lt_cons_iff,
      digitChar_lt_iff (hmod a) (hmod b), digitChar_eq_iff (hmod a) (hmod b)]
    by_cases hst : s < t
    · simp only [hst, and_true]
      omega
    · simp only [hst, and_false, or_false]
      omega

namespace CivilTime

/-! ## Fields -/

/-- Numbers of the given widths, each with its mark behind it. -/
def writeFields : List (Nat × Char) → List Nat → List Char
  | (width, mark) :: form, n :: ns => paddedDigits width n ++ mark :: writeFields form ns
  | _, _ => []

/-- A number has at most the digits of its field. -/
def FitsField (field : Nat × Char) (n : Nat) : Prop :=
  0 < field.1 ∧ n < 10 ^ field.1

theorem readMark_cons (mark : Char) (rest : List Char) :
    readMark mark (mark :: rest) = some rest :=
  if_pos rfl

theorem readNumber_append {width n : Nat} (hw : 0 < width) (hn : n < 10 ^ width)
    (rest : List Char) : readNumber width (paddedDigits width n ++ rest) = some (n, rest) := by
  have hlength := length_paddedDigits hw hn
  have htake : (paddedDigits width n ++ rest).take width = paddedDigits width n :=
    List.take_left' hlength
  have hdrop : (paddedDigits width n ++ rest).drop width = rest := List.drop_left' hlength
  have hle : width ≤ (paddedDigits width n ++ rest).length := by
    rw [List.length_append, hlength]
    exact Nat.le_add_right width _
  have hdigits : (paddedDigits width n).all Char.isDigit = true :=
    List.all_eq_true.mpr fun _ => isDigit_of_mem_paddedDigits
  unfold readNumber
  rw [htake, hdrop, if_pos ⟨hle, hdigits⟩, ofDigitChars_paddedDigits]

/-- Fields are read back. -/
theorem readFields_writeFields {form : List (Nat × Char)} {ns : List Nat}
    (h : List.Forall₂ FitsField form ns) : readFields form (writeFields form ns) = some ns := by
  induction h with
  | nil => rfl
  | @cons field n form ns hfits _ ih =>
    obtain ⟨width, mark⟩ := field
    rw [writeFields, readFields, readNumber_append hfits.1 hfits.2]
    simp only [Option.bind_eq_bind, Option.bind_some, readMark_cons, ih]
    rfl

/-- Fields are ordered as the lists of their numbers are. -/
theorem writeFields_lt_iff {form : List (Nat × Char)} {ms ns : List Nat}
    (hm : List.Forall₂ FitsField form ms) (hn : List.Forall₂ FitsField form ns) :
    writeFields form ms < writeFields form ns ↔ ms < ns := by
  induction hm generalizing ns with
  | nil =>
    cases hn
    simp [writeFields]
  | @cons field m form ms hfits _ ih =>
    obtain ⟨width, mark⟩ := field
    cases hn with
    | cons hfits' hn =>
      rw [writeFields, writeFields, paddedDigits_append_lt_iff hfits.1 hfits.2 hfits'.2,
        List.cons_lt_cons_iff, List.cons_lt_cons_iff, ih hn]
      simp

/-! ## Writing and reading -/

/-- The numbers of a civil time, from the largest unit to the smallest. -/
def fields (c : CivilTime) : List Nat :=
  [c.date.year.toNat, c.date.month, c.date.day, c.hour, c.minute, c.second]

/-- The quoted text of a civil time. -/
def written (c : CivilTime) : List Char :=
  '\'' :: writeFields form c.fields

/-- The year is one of four digits at most. -/
def HasYear (c : CivilTime) : Prop :=
  0 ≤ c.date.year ∧ c.date.year ≤ 9999

theorem Valid.fits {c : CivilTime} (h : c.Valid) (hyear : c.HasYear) :
    List.Forall₂ FitsField form c.fields := by
  obtain ⟨hlow, hhigh⟩ := hyear
  have hmonth := h.date.month_le
  have hday : c.date.day ≤ 31 := by
    have hleap := Date.leapDays_eq c.date.year
    refine h.date.day_le.trans ?_
    unfold Date.daysInMonth
    split_ifs <;> omega
  have hhour := h.hour_lt
  have hminute := h.minute_lt
  have hsecond := h.second_lt
  refine .cons ⟨by decide, ?_⟩ (.cons ⟨by decide, ?_⟩ (.cons ⟨by decide, ?_⟩ (.cons ⟨by decide, ?_⟩
    (.cons ⟨by decide, ?_⟩ (.cons ⟨by decide, ?_⟩ .nil)))))
  · show c.date.year.toNat < 10000
    omega
  · show c.date.month < 100
    omega
  · show c.date.day < 100
    omega
  · show c.hour < 100
    omega
  · show c.minute < 100
    omega
  · show c.second < 100
    omega

/-- What is written is read back. -/
theorem read_written {c : CivilTime} (h : c.Valid) (hyear : c.HasYear) : read c.written = some c := by
  have hnumber : (c.date.year.toNat : Int) = c.date.year := Int.toNat_of_nonneg hyear.1
  have hfields := readFields_writeFields (h.fits hyear)
  simp only [read, written, readMark_cons, hfields, Option.bind_eq_bind, Option.bind_some]
  simp only [fields, hnumber]

/-! ## The order of civil times -/

/-- Earlier by date, then by hour, minute and second. -/
def Before (c d : CivilTime) : Prop :=
  c.date.Before d.date ∨ c.date = d.date ∧ (c.hour < d.hour
    ∨ c.hour = d.hour ∧ (c.minute < d.minute ∨ c.minute = d.minute ∧ c.second < d.second))

/-- The text that comes first belongs to the earlier time. -/
theorem before_of_written_lt {c d : CivilTime} (hc : c.Valid) (hcyear : c.HasYear) (hd : d.Valid)
    (hdyear : d.HasYear) (h : c.written < d.written) : c.Before d := by
  have hfields : c.fields < d.fields := by
    rcases List.cons_lt_cons_iff.mp h with hquote | ⟨-, h⟩
    · exact absurd hquote (by decide)
    · exact (writeFields_lt_iff (hc.fits hcyear) (hd.fits hdyear)).mp h
  obtain ⟨hcyear, -⟩ := hcyear
  obtain ⟨hdyear, -⟩ := hdyear
  simp only [fields, List.cons_lt_cons_iff, List.not_lt_nil, and_false, or_false] at hfields
  rcases hfields with hyear | ⟨hyear, hmonth | ⟨hmonth, hday | ⟨hday, htime⟩⟩⟩
  · exact Or.inl (Or.inl (show c.date.year < d.date.year by omega))
  · exact Or.inl (Or.inr ⟨by omega, Or.inl hmonth⟩)
  · exact Or.inl (Or.inr ⟨by omega, Or.inr ⟨hmonth, hday⟩⟩)
  · exact Or.inr ⟨Date.ext (by omega) hmonth hday, htime⟩

/-- The earlier of two valid times has fewer seconds: its date has, or its time of day. -/
theorem seconds_lt_of_before {c d : CivilTime} (hc : c.Valid) (hd : d.Valid) (h : c.Before d) :
    c.seconds < d.seconds := by
  have h₁ := hc.hour_lt
  have h₂ := hc.minute_lt
  have h₃ := hc.second_lt
  have h₄ := hd.hour_lt
  have h₅ := hd.minute_lt
  have h₆ := hd.second_lt
  unfold seconds
  rcases h with hdate | ⟨hdate, htime⟩
  · have hday := Date.dayNumber_lt_of_before hc.date hd.date hdate
    omega
  · rw [hdate]
    omega

end CivilTime

/-! ## The civil time of an instant -/

/-- A text without quotes has none to be doubled. -/
theorem doubleQuotes_eq_self {cs : List Char} (h : '\'' ∉ cs) : doubleQuotes cs = cs := by
  induction cs with
  | nil => rfl
  | cons c cs ih =>
    obtain ⟨hc, hcs⟩ := List.ne_and_not_mem_of_not_mem_cons h
    rw [doubleQuotes, if_neg (Ne.symm hc), ih hcs]

namespace Instant

/-- The civil time of an instant, in UTC. -/
def civil (t : Instant) : CivilTime :=
  ⟨t.date, t.secondOfDay / 3600, t.secondOfDay / 60 % 60, t.secondOfDay % 60⟩

theorem day_add_secondOfDay (t : Instant) :
    86400 * t.seconds.fdiv 86400 + t.secondOfDay = t.seconds ∧ t.secondOfDay < 86400 := by
  have hsum := Int.mul_fdiv_add_fmod t.seconds 86400
  have hnonneg : 0 ≤ t.seconds.fmod 86400 := Int.fmod_nonneg_of_pos _ (by decide)
  have hlt : t.seconds.fmod 86400 < 86400 := Int.fmod_lt_of_pos _ (by decide)
  unfold secondOfDay
  omega

theorem valid_civil (t : Instant) : t.civil.Valid := by
  obtain ⟨-, hday⟩ := t.day_add_secondOfDay
  refine ⟨Date.valid_ofDayNumber _, ?_, ?_, ?_⟩
  · show t.secondOfDay / 3600 < 24
    omega
  · show t.secondOfDay / 60 % 60 < 60
    omega
  · show t.secondOfDay % 60 < 60
    omega

theorem seconds_civil (t : Instant) : t.civil.seconds = t.seconds := by
  obtain ⟨hsum, -⟩ := t.day_add_secondOfDay
  have hdate : t.civil.date.dayNumber = t.seconds.fdiv 86400 := Date.dayNumber_ofDayNumber _
  rw [CivilTime.seconds, hdate]
  show 86400 * t.seconds.fdiv 86400 + ((3600 * (t.secondOfDay / 3600)
    + 60 * (t.secondOfDay / 60 % 60) + t.secondOfDay % 60 : Nat) : Int) = t.seconds
  omega

/-- The first and the last instant of 64 bits lie in 1677 and 2262. -/
theorem year_civil (t : Instant) : 1677 ≤ t.civil.date.year ∧ t.civil.date.year ≤ 2262 := by
  have hlow := Int64.le_toInt t.nanoseconds
  have hhigh := Int64.toInt_lt t.nanoseconds
  have hseconds := Int.mul_fdiv_add_fmod t.nanoseconds.toInt 1000000000
  have hnonneg : 0 ≤ t.nanoseconds.toInt.fmod 1000000000 := Int.fmod_nonneg_of_pos _ (by decide)
  have hlt : t.nanoseconds.toInt.fmod 1000000000 < 1000000000 := Int.fmod_lt_of_pos _ (by decide)
  obtain ⟨hsum, hday⟩ := t.day_add_secondOfDay
  have hnumber : t.civil.date.dayNumber = t.seconds.fdiv 86400 := Date.dayNumber_ofDayNumber _
  obtain ⟨hfirst, hlast⟩ := t.valid_civil.date.year_bounds
  have hdays : -106752 ≤ t.seconds.fdiv 86400 ∧ t.seconds.fdiv 86400 ≤ 106751 := by
    unfold seconds at hsum ⊢
    omega
  unfold Date.daysBeforeYear at hfirst hlast
  omega

theorem hasYear_civil (t : Instant) : t.civil.HasYear := by
  obtain ⟨hlow, hhigh⟩ := t.year_civil
  exact ⟨by omega, by omega⟩

theorem seconds_mono {t u : Instant} (h : t.nanoseconds ≤ u.nanoseconds) : t.seconds ≤ u.seconds := by
  have hle := Int64.le_iff_toInt_le.mp h
  unfold seconds
  rw [Int.fdiv_eq_ediv_of_nonneg _ (by decide), Int.fdiv_eq_ediv_of_nonneg _ (by decide)]
  exact Int.ediv_le_ediv (by decide) hle

/-- A literal is the quoted civil time. -/
theorem toList_literalText (t : Instant) :
    (Value.literalText (.instant t)).toList = t.civil.written := by
  have hdigit : ∀ {width n}, '\'' ∉ paddedDigits width n := fun h =>
    absurd (isDigit_of_mem_paddedDigits h) (by decide)
  have hquotes : '\'' ∉ t.civilText.toList := by
    simp [civilText, hdigit]
  have hliteral : (Value.literalText (.instant t)).toList
      = '\'' :: (doubleQuotes t.civilText.toList ++ ['\'']) := by
    simp [Value.literalText, Value.literal, Sql.text, Piece.chars]
  rw [hliteral, doubleQuotes_eq_self hquotes]
  simp [civilText, CivilTime.written, CivilTime.fields, CivilTime.form, CivilTime.writeFields, civil]

/-- **The literal of an instant is its civil time.**  It reads as a date of the calendar, in a year of
    four digits, and a time of the day; and their seconds since 1970 are the nanoseconds rounded down,
    before 1970 too.  **And literals keep the order of instants**: the text of a later instant never
    comes before the text of an earlier one. -/
theorem literal_reads_back_and_keeps_order :
    (∀ t : Instant, ∃ c : CivilTime, CivilTime.read (Value.literalText (.instant t)).toList = some c
      ∧ c.Valid ∧ 1000 ≤ c.date.year ∧ c.date.year ≤ 9999
      ∧ c.seconds = Int.fdiv t.nanoseconds.toInt 1000000000)
    ∧ ∀ t u : Instant, t.nanoseconds ≤ u.nanoseconds →
        Value.literalText (.instant t) ≤ Value.literalText (.instant u) := by
  constructor
  · intro t
    obtain ⟨hlow, hhigh⟩ := t.year_civil
    refine ⟨t.civil, ?_, t.valid_civil, by omega, by omega, t.seconds_civil⟩
    rw [toList_literalText]
    exact CivilTime.read_written t.valid_civil t.hasYear_civil
  · intro t u h
    show ¬ (Value.literalText (.instant u)).toList < (Value.literalText (.instant t)).toList
    rw [toList_literalText, toList_literalText]
    intro hlt
    have hbefore := CivilTime.before_of_written_lt u.valid_civil u.hasYear_civil
      t.valid_civil t.hasYear_civil hlt
    have hseconds := CivilTime.seconds_lt_of_before u.valid_civil t.valid_civil hbefore
    rw [seconds_civil, seconds_civil] at hseconds
    exact absurd (seconds_mono h) (not_le.mpr hseconds)

/-- The last instant before 1970 and the first of it: the texts change in every number. -/
theorem literal_keeps_order_at_epoch :
    Value.literalText (.instant ⟨-1⟩) = "'1969-12-31 23:59:59'"
      ∧ Value.literalText (.instant ⟨0⟩) = "'1970-01-01 00:00:00'"
      ∧ Value.literalText (.instant ⟨-1⟩) ≤ Value.literalText (.instant ⟨0⟩) :=
  ⟨by decide, by decide, literal_reads_back_and_keeps_order.2 ⟨-1⟩ ⟨0⟩ (by decide)⟩

end Instant

end SqlLoom
