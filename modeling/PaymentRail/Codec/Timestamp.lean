import PaymentRail.Codec.Decimal
import Mathlib.Algebra.Order.Ring.Int
import Mathlib.Data.Nat.Log

/-!
# Times as text

A `time.Time` in the layout `time.RFC3339Nano` and back: `Format` on the wall clock of a zone, and the
parser of that layout.  A time is its instant, in nanoseconds since the epoch; the zone it was written
in is not kept, since times are compared by their instants.

Days are counted in years that begin on 1 March, so that a leap day is the last of its year.
-/

namespace PaymentRail.Timestamp

open Decimal

/-! ### The calendar -/

/-- A day of the proleptic Gregorian calendar. -/
structure Date where
  year : ℤ
  month : ℕ
  day : ℕ
  deriving DecidableEq

/-- The days from 1 March of the year 0 to 1 March of a year. -/
def yearStart (year : ℤ) : ℤ := 365 * year + year / 4 - year / 100 + year / 400

/-- The year, counted from March, of a day counted from 1 March of the year 0. -/
def yearOf (day : ℤ) : ℤ :=
  let guess := 400 * day / 146097
  if day < yearStart guess then guess - 1
  else if yearStart (guess + 1) ≤ day then guess + 1
  else guess

/-- The days of a year before its months, March being the month 0. -/
def monthStart (month : ℕ) : ℕ := (153 * month + 2) / 5

/-- The days from 1 March of the year 0 to the epoch. -/
def epochDay : ℤ := 719468

/-- The date of a day in a year from March. -/
def Date.ofYearDay (year : ℤ) (dayOfYear : ℕ) : Date :=
  let month := (5 * dayOfYear + 2) / 153
  if month < 10 then ⟨year, month + 3, dayOfYear - monthStart month + 1⟩
  else ⟨year + 1, month - 9, dayOfYear - monthStart month + 1⟩

/-- The date of a day, counted from the epoch. -/
def Date.ofDays (days : ℤ) : Date :=
  let day := days + epochDay
  .ofYearDay (yearOf day) (day - yearStart (yearOf day)).toNat

/-- The day of a date, counted from the epoch. -/
def Date.toDays (date : Date) : ℤ :=
  if date.month ≤ 2 then
    yearStart (date.year - 1) + monthStart (date.month + 9) + date.day - 1 - epochDay
  else yearStart date.year + monthStart (date.month - 3) + date.day - 1 - epochDay

def isLeap (year : ℤ) : Bool := year % 4 = 0 ∧ (year % 100 ≠ 0 ∨ year % 400 = 0)

/-- `daysIn`. -/
def daysIn (month : ℕ) (year : ℤ) : ℕ :=
  if month = 2 then if isLeap year then 29 else 28
  else if month = 4 ∨ month = 6 ∨ month = 9 ∨ month = 11 then 30
  else 31

theorem daysIn_le (month : ℕ) (year : ℤ) : daysIn month year ≤ 31 := by
  unfold daysIn
  split
  · split <;> decide
  · split <;> decide

/-- A day lies in its year. -/
theorem yearStart_yearOf (day : ℤ) :
    yearStart (yearOf day) ≤ day ∧ day < yearStart (yearOf day + 1) := by
  unfold yearOf
  simp only
  split
  · next hearly =>
    unfold yearStart at hearly ⊢
    constructor <;> omega
  · next hearly =>
    split
    · next hlate =>
      unfold yearStart at hlate ⊢
      constructor <;> omega
    · next hlate => exact ⟨by omega, by omega⟩

/-- The year that ends in the February of a leap year has one more day. -/
theorem yearStart_succ (year : ℤ) :
    yearStart (year + 1) = yearStart year + if isLeap (year + 1) then 366 else 365 := by
  unfold yearStart isLeap
  split
  · next hleap =>
    rw [decide_eq_true_iff] at hleap
    omega
  · next hleap =>
    rw [decide_eq_true_iff] at hleap
    omega

theorem toDays_ofYearDay (year : ℤ) {dayOfYear : ℕ} (h : dayOfYear < 366) :
    (Date.ofYearDay year dayOfYear).toDays = yearStart year + dayOfYear - epochDay := by
  have hstart : monthStart ((5 * dayOfYear + 2) / 153) ≤ dayOfYear := by
    unfold monthStart
    omega
  have hlast : (5 * dayOfYear + 2) / 153 ≤ 11 := by omega
  unfold Date.ofYearDay Date.toDays
  simp only
  split
  · next hmonth =>
    have hspring : ¬(5 * dayOfYear + 2) / 153 + 3 ≤ 2 := by omega
    simp only [if_neg hspring, Nat.add_sub_cancel]
    omega
  · next hmonth =>
    have hwinter : (5 * dayOfYear + 2) / 153 - 9 ≤ 2 := by omega
    have hback : (5 * dayOfYear + 2) / 153 - 9 + 9 = (5 * dayOfYear + 2) / 153 := by omega
    simp only [if_pos hwinter, hback, add_sub_cancel_right]
    omega

/-- The dates of a year are days of their months. -/
theorem mem_month_ofYearDay (year : ℤ) {dayOfYear : ℕ}
    (h : dayOfYear < if isLeap (year + 1) then 366 else 365) :
    let date := Date.ofYearDay year dayOfYear
    1 ≤ date.month ∧ date.month ≤ 12 ∧ 1 ≤ date.day ∧ date.day ≤ daysIn date.month date.year := by
  have hlast : (5 * dayOfYear + 2) / 153 ≤ 11 := by
    split at h <;> omega
  obtain ⟨month, hmonth⟩ : ∃ month, month = (5 * dayOfYear + 2) / 153 := ⟨_, rfl⟩
  unfold Date.ofYearDay
  simp only
  rw [← hmonth] at hlast ⊢
  unfold monthStart daysIn
  interval_cases month <;> simp <;> first | omega | (split at h <;> split <;> omega)

/-- What the date of a day gives back, and what it is checked for. -/
theorem ofDays_spec (days : ℤ) :
    (Date.ofDays days).toDays = days ∧ 1 ≤ (Date.ofDays days).month ∧ (Date.ofDays days).month ≤ 12 ∧
      1 ≤ (Date.ofDays days).day ∧
      (Date.ofDays days).day ≤ daysIn (Date.ofDays days).month (Date.ofDays days).year := by
  obtain ⟨hfirst, hlast⟩ := yearStart_yearOf (days + epochDay)
  unfold Date.ofDays
  simp only
  generalize yearOf (days + epochDay) = year at hfirst hlast ⊢
  have hday := Int.toNat_of_nonneg (Int.sub_nonneg.mpr hfirst)
  generalize (days + epochDay - yearStart year).toNat = dayOfYear at hday ⊢
  have hlength : dayOfYear < if isLeap (year + 1) then 366 else 365 := by
    rw [yearStart_succ] at hlast
    split at hlast <;> split <;> omega
  refine ⟨?_, mem_month_ofYearDay year hlength⟩
  rw [toDays_ofYearDay year (by split at hlength <;> omega)]
  omega

/-! ### Writing a time -/

/-- The offset of a zone from UTC, in whole minutes. -/
structure Zone where
  minutes : ℤ
  lt_day : minutes.natAbs < 24 * 60

def Zone.utc : Zone := ⟨0, by decide⟩

/-- What a clock in the zone shows, in nanoseconds. -/
def Zone.wallClock (zone : Zone) (time : ℤ) : ℤ := time + zone.minutes * 60 * 10 ^ 9

/-- The date that a clock in the zone shows. -/
def Zone.date (zone : Zone) (time : ℤ) : Date := .ofDays (zone.wallClock time / 10 ^ 9 / 86400)

/-- The second of the day. -/
def Zone.second (zone : Zone) (time : ℤ) : ℕ := (zone.wallClock time / 10 ^ 9 % 86400).toNat

def Zone.nanosecond (zone : Zone) (time : ℤ) : ℕ := (zone.wallClock time % 10 ^ 9).toNat

/-- `appendInt` with a width of four. -/
def formatYear (year : ℤ) : List Char :=
  let digits := render (max 4 (Nat.log 10 year.natAbs + 1)) year.natAbs
  if year < 0 then '-' :: digits else digits

def formatFraction (nanosecond : ℕ) : List Char :=
  if nanosecond = 0 then [] else '.' :: trimZeros (render 9 nanosecond)

def formatZone (zone : Zone) : List Char :=
  if zone.minutes = 0 then ['Z']
  else
    (if zone.minutes < 0 then '-' else '+') ::
      (render 2 (zone.minutes.natAbs / 60) ++ ':' :: render 2 (zone.minutes.natAbs % 60))

def formatDate (date : Date) : List Char :=
  formatYear date.year ++ '-' :: (render 2 date.month ++ '-' :: render 2 date.day)

def formatClock (second : ℕ) : List Char :=
  render 2 (second / 3600) ++ ':' :: (render 2 (second / 60 % 60) ++ ':' :: render 2 (second % 60))

/-- `Time.Format` with the layout `RFC3339Nano`. -/
def format (zone : Zone) (time : ℤ) : List Char :=
  formatDate (zone.date time) ++ 'T' :: (formatClock (zone.second time) ++
    (formatFraction (zone.nanosecond time) ++ formatZone zone))

/-! ### Reading a time -/

/-- Read a number of a fixed width in a range. -/
def parseUint (width least most : ℕ) (text : List Char) : Option (ℕ × List Char) :=
  if text.length < width then none
  else
    (read (text.take width)).bind fun n ↦
      if least ≤ n ∧ n ≤ most then some (n, text.drop width) else none

def expect (c : Char) : List Char → Option (List Char)
  | [] => none
  | head :: rest => if head = c then some rest else none

/-- The fraction of a second, which may be missing. -/
def parseFraction : List Char → Option (ℕ × List Char)
  | '.' :: c :: rest =>
    if isDigit c then
      (readFraction 9 ((c :: rest).takeWhile isDigit)).map fun n ↦
        (n, (c :: rest).dropWhile isDigit)
    else some (0, '.' :: c :: rest)
  | text => some (0, text)

/-- The offset of the zone in seconds, at the end of the text. -/
def parseZone (text : List Char) : Option ℤ :=
  if text = ['Z'] then some 0
  else
    match text with
    | [] => none
    | sign :: rest => do
      let (hour, rest) ← parseUint 2 0 23 rest
      let rest ← expect ':' rest
      let (minute, rest) ← parseUint 2 0 59 rest
      if rest ≠ [] then none
      else if sign = '+' then some ((hour * 60 + minute) * 60 : ℕ)
      else if sign = '-' then some (-((hour * 60 + minute) * 60 : ℕ))
      else none

def parseDate (text : List Char) : Option (Date × List Char) := do
  let (year, text) ← parseUint 4 0 9999 text
  let text ← expect '-' text
  let (month, text) ← parseUint 2 1 12 text
  let text ← expect '-' text
  let (day, text) ← parseUint 2 1 (daysIn month year) text
  return (⟨year, month, day⟩, text)

/-- The second of the day. -/
def parseClock (text : List Char) : Option (ℕ × List Char) := do
  let (hour, text) ← parseUint 2 0 23 text
  let text ← expect ':' text
  let (minute, text) ← parseUint 2 0 59 text
  let text ← expect ':' text
  let (second, text) ← parseUint 2 0 59 text
  return ((hour * 60 + minute) * 60 + second, text)

/-- `parseRFC3339`, which reads every text that `format` writes.  `time.Parse` falls back to a more lenient
reader where it refuses: that one also takes a comma before the fraction, an hour of one digit and the
offset `+24:00`. -/
def parse (text : List Char) : Option ℤ := do
  let (date, text) ← parseDate text
  let text ← expect 'T' text
  let (second, text) ← parseClock text
  let (nanosecond, text) ← parseFraction text
  let offset ← parseZone text
  return (date.toDays * 86400 + second - offset) * 10 ^ 9 + nanosecond

theorem parseUint_render {width least most n : ℕ} (hwidth : n < 10 ^ width) (hleast : least ≤ n)
    (hmost : n ≤ most) (rest : List Char) :
    parseUint width least most (render width n ++ rest) = some (n, rest) := by
  have htake : (render width n ++ rest).take width = render width n :=
    List.take_left' (length_render width n)
  have hdrop : (render width n ++ rest).drop width = rest := List.drop_left' (length_render width n)
  rw [parseUint, if_neg (by simp), htake, hdrop, read_render hwidth, Option.bind_some,
    if_pos ⟨hleast, hmost⟩]

theorem expect_cons (c : Char) (rest : List Char) : expect c (c :: rest) = some rest := if_pos rfl

theorem parseZone_format (zone : Zone) : parseZone (formatZone zone) = some (zone.minutes * 60) := by
  have hlt := zone.lt_day
  unfold formatZone
  split
  · next hzero => simp [parseZone, hzero]
  · next hne =>
    have hhour := parseUint_render (by omega : zone.minutes.natAbs / 60 < 10 ^ 2) (Nat.zero_le _)
      (by omega : zone.minutes.natAbs / 60 ≤ 23)
    have hminute := parseUint_render (by omega : zone.minutes.natAbs % 60 < 10 ^ 2) (Nat.zero_le _)
      (by omega : zone.minutes.natAbs % 60 ≤ 59) []
    rw [List.append_nil] at hminute
    have hsign : ∀ sign : Char, parseZone (sign :: (render 2 (zone.minutes.natAbs / 60) ++
        ':' :: render 2 (zone.minutes.natAbs % 60))) =
          if sign = '+' then some ((zone.minutes.natAbs * 60 : ℕ) : ℤ)
          else if sign = '-' then some (-(zone.minutes.natAbs * 60 : ℕ)) else none := by
      intro sign
      have hminutes : zone.minutes.natAbs / 60 * 60 + zone.minutes.natAbs % 60 =
          zone.minutes.natAbs := by omega
      rw [parseZone, if_neg (by simp [render])]
      simp only [hhour, expect_cons, hminute, bind, Option.bind_some, hminutes, ne_eq,
        not_true_eq_false, if_false]
    rw [hsign]
    split
    · next hneg =>
      rw [if_neg (by decide), if_pos rfl, Option.some.injEq]
      omega
    · next hpos =>
      rw [if_pos rfl, Option.some.injEq]
      omega

/-- The text of a zone does not begin with a digit or a point. -/
theorem exists_formatZone (zone : Zone) :
    ∃ c rest, formatZone zone = c :: rest ∧ c ≠ '.' ∧ isDigit c = false := by
  unfold formatZone
  split
  · exact ⟨'Z', [], rfl, by decide, by decide⟩
  · split
    · exact ⟨'-', _, rfl, by decide, by decide⟩
    · exact ⟨'+', _, rfl, by decide, by decide⟩

theorem parseFraction_format {nanosecond : ℕ} (h : nanosecond < 10 ^ 9) (zone : Zone) :
    parseFraction (formatFraction nanosecond ++ formatZone zone) =
      some (nanosecond, formatZone zone) := by
  obtain ⟨c, rest, hzone, hpoint, hdigit⟩ := exists_formatZone zone
  rw [hzone]
  unfold formatFraction
  split
  · next hzero =>
    rw [hzero, List.nil_append, parseFraction]
    rintro c' rest' hcons
    exact hpoint (List.cons.inj hcons).1
  · next hne =>
    have hfraction := readFraction_trimZeros h
    have hdigits : ∀ c ∈ trimZeros (render 9 nanosecond), isDigit c := fun c hc ↦
      isDigit_of_mem_render (( List.rdropWhile_prefix _ _).subset hc)
    generalize trimZeros (render 9 nanosecond) = digits at hfraction hdigits
    cases digits with
    | nil =>
      have hempty : readFraction 9 [] = some 0 := rfl
      rw [hempty, Option.some.injEq] at hfraction
      exact absurd hfraction.symm hne
    | cons first others =>
      have htake : ((first :: others) ++ c :: rest).takeWhile isDigit = first :: others := by
        rw [List.takeWhile_append_of_pos hdigits, List.takeWhile_cons_of_neg (by simp [hdigit]),
          List.append_nil]
      have hdrop : ((first :: others) ++ c :: rest).dropWhile isDigit = c :: rest := by
        rw [List.dropWhile_append_of_pos hdigits, List.dropWhile_cons_of_neg (by simp [hdigit])]
      rw [List.cons_append, List.cons_append, parseFraction,
        if_pos (hdigits first (List.mem_cons_self ..)), ← List.cons_append, htake, hdrop, hfraction]
      rfl

theorem formatYear_eq {year : ℤ} (hfirst : 0 ≤ year) (hlast : year ≤ 9999) :
    formatYear year = render 4 year.toNat := by
  have hlog : Nat.log 10 year.natAbs + 1 ≤ 4 := Nat.log_lt_of_lt_pow' (by decide) (by omega)
  rw [formatYear, if_neg (by omega), max_eq_left hlog, (by omega : year.natAbs = year.toNat)]

theorem parseDate_format {date : Date} (hfirst : 0 ≤ date.year) (hlast : date.year ≤ 9999)
    (hmonth : 1 ≤ date.month) (hmonth' : date.month ≤ 12) (hday : 1 ≤ date.day)
    (hday' : date.day ≤ daysIn date.month date.year) (rest : List Char) :
    parseDate (formatDate date ++ rest) = some (date, rest) := by
  have hle := daysIn_le date.month date.year
  have hyear := Int.toNat_of_nonneg hfirst
  rw [parseDate, formatDate, formatYear_eq hfirst hlast, List.append_assoc,
    parseUint_render (by omega) (Nat.zero_le _) (by omega)]
  simp only [bind, Option.bind_some, List.cons_append, List.append_assoc, expect_cons, hyear]
  rw [parseUint_render (by omega) hmonth hmonth']
  simp only [Option.bind_some, expect_cons]
  rw [parseUint_render (by omega) hday hday']
  rfl

theorem parseClock_format {second : ℕ} (h : second < 86400) (rest : List Char) :
    parseClock (formatClock second ++ rest) = some (second, rest) := by
  rw [parseClock, formatClock, List.append_assoc,
    parseUint_render (by omega) (Nat.zero_le _) (by omega)]
  simp only [bind, Option.bind_some, List.cons_append, List.append_assoc, expect_cons]
  rw [parseUint_render (by omega) (Nat.zero_le _) (by omega)]
  simp only [Option.bind_some, expect_cons]
  rw [parseUint_render (by omega) (Nat.zero_le _) (by omega), Option.bind_some]
  have hsum : (second / 3600 * 60 + second / 60 % 60) * 60 + second % 60 = second := by omega
  exact congrArg (fun n ↦ some (n, rest)) hsum

/-- What is written in a year of four digits is read back. -/
theorem parse_format {zone : Zone} {time : ℤ} (hfirst : 0 ≤ (zone.date time).year)
    (hlast : (zone.date time).year ≤ 9999) : parse (format zone time) = some time := by
  obtain ⟨hdays, hmonth, hmonth', hday, hday'⟩ := ofDays_spec (zone.wallClock time / 10 ^ 9 / 86400)
  rw [← Zone.date] at hdays hmonth hmonth' hday hday'
  have hclock : zone.wallClock time = time + zone.minutes * 60 * 10 ^ 9 := rfl
  have hsecond : (zone.second time : ℤ) = zone.wallClock time / 10 ^ 9 % 86400 := by
    unfold Zone.second
    omega
  have hnano : (zone.nanosecond time : ℤ) = zone.wallClock time % 10 ^ 9 := by
    unfold Zone.nanosecond
    omega
  rw [parse, format, parseDate_format hfirst hlast hmonth hmonth' hday hday']
  simp only [bind, Option.bind_some, expect_cons]
  rw [parseClock_format (by omega), Option.bind_some, parseFraction_format (by omega),
    Option.bind_some, parseZone_format, Option.bind_some, hdays]
  refine congrArg some ?_
  omega

/-- The characters of a time. -/
theorem mem_format {zone : Zone} {time : ℤ} {c : Char} (h : c ∈ format zone time) :
    isDigit c ∨ c ∈ ['-', 'T', ':', '.', 'Z', '+'] := by
  have hrender : ∀ width n, c ∈ render width n → isDigit c := fun width n ↦ isDigit_of_mem_render
  have hyear : c ∈ formatYear (zone.date time).year → isDigit c ∨ c = '-' := by
    unfold formatYear
    simp only
    split
    · exact fun hc ↦ (List.mem_cons.mp hc).symm.imp (hrender _ _) id
    · exact fun hc ↦ .inl (hrender _ _ hc)
  have hfraction : c ∈ formatFraction (zone.nanosecond time) → c = '.' ∨ isDigit c := by
    unfold formatFraction
    split
    · exact fun hc ↦ nomatch hc
    · exact fun hc ↦ (List.mem_cons.mp hc).imp id fun hc ↦
        hrender _ _ (( List.rdropWhile_prefix _ _).subset hc)
  have hzone : c ∈ formatZone zone → isDigit c ∨ c ∈ ['-', ':', 'Z', '+'] := by
    unfold formatZone
    split
    · intro hc
      exact .inr (by simpa using Or.inr (Or.inr (Or.inl (List.mem_singleton.mp hc))))
    · intro hc
      simp only [List.mem_cons, List.mem_append] at hc ⊢
      rcases hc with hc | hc | hc | hc
      · split at hc <;> simp [hc]
      · exact .inl (hrender _ _ hc)
      · simp [hc]
      · exact .inl (hrender _ _ hc)
  simp only [format, formatDate, formatClock, List.mem_append, List.mem_cons] at h
  simp only [List.mem_cons, List.not_mem_nil, or_false] at hzone ⊢
  grind

example : format .utc 1700000000120000000 = "2023-11-14T22:13:20.12Z".toList := by decide +kernel

end PaymentRail.Timestamp
