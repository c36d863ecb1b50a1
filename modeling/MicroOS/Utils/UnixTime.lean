import MicroOS.Lib.ByteMem
import MicroOS.Lib.Calendar

/-!
The calendar of `utils/unix_time.c`, and its copy in `user/libc/buildin/unix_time.c`.

* `toUnixTime`, `fromUnixTime`: the functions of the kernel; `Libc.toUnixTime`,
  `Libc.fromUnixTime`: those of the library;
* `toUnixTime_eq`: `to_unix_time` counts the days of the calendar;
* `Gregorian`, `fromUnixTime_eq`: what `from_unix_time` computes, without overflow, and that it is a
  date (`Gregorian.date`);
* `calendar_round_trips`: the functions are inverse to each other.

An `unsigned long` has 32 bits. `to_unix_time` is modelled where its `int` arithmetic does not
overflow.
-/

namespace MicroOS

open ByteMem CInt Calendar

/-- What `from_unix_time` writes. -/
structure TimeFields where
  year : ℤ
  month : ℤ
  day : ℤ
  hour : ℤ
  minute : ℤ
  second : ℤ
deriving DecidableEq

/-- `days_since_newyear`. -/
def daysSinceNewyear : List ℤ := [0, 31, 59, 90, 120, 151, 181, 212, 243, 273, 304, 334]

/-- `to_unix_time`. -/
def toUnixTime (year month day hour minute second : ℤ) : ℤ :=
  let leapYears := ((year - 1) - 1968).tdiv 4 - ((year - 1) - 1900).tdiv 100 +
    ((year - 1) - 1600).tdiv 400
  let daysSince1970 := (year - 1970) * 365 + leapYears +
    daysSinceNewyear.getD (month - 1).toNat 0 + day - 1
  let daysSince1970 :=
    if month > 2 ∧ year.tmod 4 = 0 ∧ (year.tmod 100 ≠ 0 ∨ year.tmod 400 = 0) then
      daysSince1970 + 1
    else daysSince1970
  second + 60 * (minute + 60 * (hour + 24 * daysSince1970))

/-- `from_unix_time`. -/
def fromUnixTime (unixtime : ℕ) : TimeFields :=
  let dayN := wrap32 (719468 + unixtime / 86400)
  let secondsSince0 := unixtime % 86400
  let temp := sub32 (wrap32 (4 * wrap32 (dayN + 36524 + 1)) / 146097) 1
  let year := int (wrap32 (100 * temp))
  let dayN := sub32 dayN (wrap32 (36524 * temp + temp / 4))
  let temp := sub32 (wrap32 (4 * wrap32 (dayN + 365 + 1)) / 1461) 1
  let year := int (year + temp)
  let dayN := sub32 dayN (wrap32 (365 * temp + temp / 4))
  let month := int (wrap32 (5 * dayN + 2) / 153 : ℕ)
  let day := int (dayN - (month * 153 + 2).tdiv 5 + 1)
  let month := int (month + 3)
  let late := month > 12
  let month := if late then int (month - 12) else month
  let year := if late then int (year + 1) else year
  ⟨year, month, day, (secondsSince0 / 3600 : ℕ), (secondsSince0 % 3600 / 60 : ℕ),
    (secondsSince0 % 60 : ℕ)⟩

variable {t : ℕ} {year month day hour minute second : ℤ}

/-! ### `to_unix_time` -/

/-- `days_since_newyear`, with the 29th of February. -/
lemma daysSinceNewyear_eq (year : ℤ) (h1 : 1 ≤ month) (h12 : month ≤ 12) :
    daysSinceNewyear.getD (month - 1).toNat 0 + (if month > 2 ∧ Leap year then 1 else 0) =
      monthStart year (month - 1).toNat := by
  by_cases hleap : Leap year <;> interval_cases month <;>
    simp [monthStart, monthLength, daysSinceNewyear, hleap]

lemma dayNumber_epoch : dayNumber 1970 1 1 = 719162 := by
  norm_num [dayNumber, yearStart, monthStart]

/-- **`to_unix_time` counts days.** -/
lemma toUnixTime_eq (hyear : 1970 ≤ year) (h : ValidDate year month day) :
    toUnixTime year month day hour minute second = second + 60 * (minute + 60 * (hour + 24 *
      (dayNumber year month day - dayNumber 1970 1 1))) := by
  have h4 : ((year - 1) - 1968).tdiv 4 = ((year - 1) - 1968) / 4 :=
    Int.tdiv_eq_ediv_of_nonneg (by omega)
  have h100 : ((year - 1) - 1900).tdiv 100 = ((year - 1) - 1900) / 100 :=
    Int.tdiv_eq_ediv_of_nonneg (by omega)
  have h400 : ((year - 1) - 1600).tdiv 400 = ((year - 1) - 1600) / 400 :=
    Int.tdiv_eq_ediv_of_nonneg (by omega)
  have hmod : ∀ k, year.tmod k = year % k := fun k => Int.tmod_eq_emod_of_nonneg (by omega)
  have hstart := daysSinceNewyear_eq year h.month_pos h.month_le
  rw [toUnixTime, dayNumber_epoch, dayNumber, ← hstart, h4, h100, h400, hmod 4, hmod 100, hmod 400,
    yearStart]
  simp only [Leap]
  split_ifs <;> omega

/-! ### `from_unix_time` -/

/-- The date of the day `n` of a year that begins with March, `q` years behind the first year of the
century `c`; `mp` is the month, from March on. -/
structure Gregorian (t c q mp n : ℕ) : Prop where
  century_ge : 19 ≤ c
  century_le : c ≤ 21
  year_lt : q < 100
  day_le : n ≤ 365
  leap : n = 365 → q % 4 = 3 ∧ (q = 99 → c = 19)
  days : 719468 + t / 86400 = 36524 * c + c / 4 + 365 * q + q / 4 + n
  month : mp = (5 * n + 2) / 153

/-- The fields that are computed from them. -/
def gregorianFields (t c q mp n : ℕ) : TimeFields where
  year := if 9 < mp then 100 * c + q + 1 else 100 * c + q
  month := if 9 < mp then mp - 9 else mp + 3
  day := n - (mp * 153 + 2) / 5 + 1
  hour := (t % 86400 / 3600 : ℕ)
  minute := (t % 86400 % 3600 / 60 : ℕ)
  second := (t % 86400 % 60 : ℕ)

/-- **What `from_unix_time` computes**: nothing overflows. -/
lemma fromUnixTime_eq (ht : t < 2 ^ 32) :
    ∃ c q mp n, Gregorian t c q mp n ∧ fromUnixTime t = gregorianFields t c q mp n := by
  have hday : 719468 + t / 86400 ≤ 769178 := by omega
  generalize hN : 719468 + t / 86400 = N at hday
  have hN0 : 719468 ≤ N := by omega
  obtain ⟨c, hc⟩ : ∃ c, c = 4 * (N + 36524 + 1) / 146097 - 1 := ⟨_, rfl⟩
  obtain ⟨n₁, hn₁⟩ : ∃ n₁, n₁ = N - (36524 * c + c / 4) := ⟨_, rfl⟩
  obtain ⟨q, hq⟩ : ∃ q, q = 4 * (n₁ + 365 + 1) / 1461 - 1 := ⟨_, rfl⟩
  obtain ⟨n, hn⟩ : ∃ n, n = n₁ - (365 * q + q / 4) := ⟨_, rfl⟩
  have hc19 : 19 ≤ c := by omega
  have hc21 : c ≤ 21 := by omega
  have hn₁le : n₁ ≤ 36524 ∧ (c ≠ 19 → n₁ ≤ 36523) := by
    interval_cases c <;> omega
  have hsum₁ : N = 36524 * c + c / 4 + n₁ := by
    interval_cases c <;> omega
  have hq99 : q < 100 := by omega
  have hsum₂ : n₁ = 365 * q + q / 4 + n := by omega
  have hn365 : n ≤ 365 := by omega
  have hleap : n = 365 → q % 4 = 3 ∧ (q = 99 → c = 19) := by omega
  obtain ⟨mp, hmp⟩ : ∃ mp, mp = (5 * n + 2) / 153 := ⟨_, rfl⟩
  refine ⟨c, q, mp, n, ⟨hc19, hc21, hq99, hn365, hleap, by omega, hmp⟩, ?_⟩
  -- the unsigned values
  have hN' : wrap32 N = N := wrap32_of_lt (by omega)
  have hc' : sub32 (wrap32 (4 * wrap32 (N + 36524 + 1)) / 146097) 1 = c := by
    rw [wrap32_of_lt (show N + 36524 + 1 < 2 ^ 32 by omega), wrap32_of_lt (by omega),
      sub32_of_le (by omega) (by omega), hc]
  have hn₁' : sub32 N (wrap32 (36524 * c + c / 4)) = n₁ := by
    rw [wrap32_of_lt (by omega), sub32_of_le (by omega) (by omega), hn₁]
  have hq' : sub32 (wrap32 (4 * wrap32 (n₁ + 365 + 1)) / 1461) 1 = q := by
    rw [wrap32_of_lt (show n₁ + 365 + 1 < 2 ^ 32 by omega), wrap32_of_lt (by omega),
      sub32_of_le (by omega) (by omega), hq]
  have hn' : sub32 n₁ (wrap32 (365 * q + q / 4)) = n := by
    rw [wrap32_of_lt (by omega), sub32_of_le (by omega) (by omega), hn]
  have hm' : wrap32 (5 * n + 2) = 5 * n + 2 := wrap32_of_lt (by omega)
  have hy' : wrap32 (100 * c) = 100 * c := wrap32_of_lt (by omega)
  -- the values of type `int`
  have hint : ∀ z : ℤ, -2000 ≤ z → z ≤ 3000 → int z = z := fun z hlo hhi =>
    int_of_mem (by omega) (by rw [intMax]; omega)
  simp only [fromUnixTime, hN, hN', hc', hn₁', hq', hn', hm', hy', ← hmp, gregorianFields]
  have hmp11 : mp ≤ 11 := by omega
  have htdiv : ((mp : ℤ) * 153 + 2).tdiv 5 = ((mp : ℤ) * 153 + 2) / 5 :=
    Int.tdiv_eq_ediv_of_nonneg (by omega)
  rw [hint (100 * c : ℕ) (by omega) (by omega), hint mp (by omega) (by omega), htdiv,
    hint (mp + 3) (by omega) (by omega), hint (mp + 3 - 12) (by omega) (by omega),
    hint ((100 * c : ℕ) + q) (by omega) (by omega),
    hint ((100 * c : ℕ) + q + 1) (by omega) (by omega),
    hint (n - ((mp : ℤ) * 153 + 2) / 5 + 1) (by omega) (by omega)]
  rw [TimeFields.mk.injEq]
  refine ⟨?_, ?_, rfl, rfl, rfl, rfl⟩
  · push_cast
    exact if_congr (by omega) rfl rfl
  · exact if_congr (by omega) (by omega) rfl

/-- From March on, the months are as long as the intervals between multiples of 30.6 days. -/
lemma monthStart_march (year : ℤ) {mp : ℕ} (h : mp ≤ 9) :
    monthStart year (mp + 2) = 59 + (if Leap year then 1 else 0) + (mp * 153 + 2) / 5 ∧
      monthLength year (mp + 2) = ((mp + 1) * 153 + 2) / 5 - (mp * 153 + 2) / 5 := by
  by_cases hleap : Leap year <;> interval_cases mp <;> simp [monthStart, monthLength, hleap]

/-- The days in front of a year, in centuries. -/
lemma yearStart_century (c : ℕ) {q : ℕ} (hq : q < 100) :
    yearStart (100 * c + q + 1) = 36524 * c + c / 4 + 365 * q + q / 4 := by
  have h4 : (100 * (c : ℤ) + q) / 4 = 25 * c + q / 4 := by omega
  have h100 : (100 * (c : ℤ) + q) / 100 = c := by omega
  have h400 : (100 * (c : ℤ) + q) / 400 = c / 4 := by omega
  rw [yearStart, add_sub_cancel_right, h4, h100, h400]
  ring

/-- **The fields are a date**, the one of the day. -/
lemma Gregorian.date {c q mp n : ℕ} (h : Gregorian t c q mp n) :
    ValidDate (gregorianFields t c q mp n).year (gregorianFields t c q mp n).month
      (gregorianFields t c q mp n).day ∧
    dayNumber (gregorianFields t c q mp n).year (gregorianFields t c q mp n).month
      (gregorianFields t c q mp n).day = 719162 + (t / 86400 : ℕ) := by
  obtain ⟨hc19, hc21, hq, hn, hleap, hdays, hmonth⟩ := h
  have hlo : 153 * mp ≤ 5 * n + 2 := by omega
  have hhi : 5 * n + 2 < 153 * (mp + 1) := by omega
  generalize t / 86400 = D at hdays
  have hyear := yearStart_century c hq
  simp only [gregorianFields]
  -- the year of the algorithm begins in March: ten months are of this year, two of the next
  by_cases hmarch : mp ≤ 9
  · obtain ⟨hstart, hlength⟩ := monthStart_march (100 * c + q) hmarch
    have hindex : ((mp : ℤ) + 3 - 1).toNat = mp + 2 := by omega
    rw [if_neg (by omega), if_neg (by omega)]
    refine ⟨⟨by omega, by omega, by omega, ?_⟩, ?_⟩
    · rw [hindex, hlength]
      omega
    · rw [yearStart_succ, yearLength] at hyear
      rw [dayNumber, hindex, hstart]
      split_ifs at hyear ⊢ with hl
      · omega
      · omega
  · rw [if_pos (by omega), if_pos (by omega)]
    rcases (by omega : mp = 10 ∨ mp = 11) with rfl | rfl
    · have hindex : (((10 : ℕ) : ℤ) - 9 - 1).toNat = 0 := rfl
      have hjanuary : monthLength (100 * c + q + 1) 0 = 31 := rfl
      refine ⟨⟨by omega, by omega, by omega, ?_⟩, ?_⟩
      · rw [hindex, hjanuary]
        omega
      · rw [dayNumber, hyear, hindex, monthStart]
        omega
    · have hindex : (((11 : ℕ) : ℤ) - 9 - 1).toNat = 1 := rfl
      have hfebruary : monthLength (100 * c + q + 1) 1 =
        if Leap (100 * c + q + 1) then 29 else 28 := rfl
      have hjanuary : monthStart (100 * c + q + 1) 1 = 31 := rfl
      refine ⟨⟨by omega, by omega, by omega, ?_⟩, ?_⟩
      · rw [hindex, hfebruary]
        split_ifs with hl
        · omega
        · -- the day 365 is a 29th of February
          have hn : n ≠ 365 := fun h => hl (by rw [Leap]; omega)
          omega
      · rw [dayNumber, hyear, hindex, hjanuary]
        omega

/-! ### Round trips -/

/-- A date and a time of day. -/
structure TimeFields.Valid (f : TimeFields) : Prop where
  date : ValidDate f.year f.month f.day
  time : ValidTime f.hour f.minute f.second

/-- `to_unix_time` of fields. -/
def TimeFields.unix (f : TimeFields) : ℤ :=
  toUnixTime f.year f.month f.day f.hour f.minute f.second

/-- **From a time to fields and back.** -/
lemma fromUnixTime_valid (ht : t < 2 ^ 32) :
    (fromUnixTime t).Valid ∧ 1970 ≤ (fromUnixTime t).year ∧ (fromUnixTime t).unix = t := by
  obtain ⟨c, q, mp, n, h, heq⟩ := fromUnixTime_eq ht
  obtain ⟨hdate, hday⟩ := h.date
  rw [heq]
  have hhour : (gregorianFields t c q mp n).hour = (t % 86400 / 3600 : ℕ) := rfl
  have hminute : (gregorianFields t c q mp n).minute = (t % 86400 % 3600 / 60 : ℕ) := rfl
  have hsecond : (gregorianFields t c q mp n).second = (t % 86400 % 60 : ℕ) := rfl
  generalize gregorianFields t c q mp n = f at hdate hday hhour hminute hsecond
  have hyear : 1970 ≤ f.year := by
    by_contra hlt
    have hmono := yearStart_mono (show f.year + 1 ≤ 1970 by omega)
    have hin := hdate.mem_year.2
    rw [hday] at hin
    have hstart : yearStart 1970 = 719162 := by norm_num [yearStart]
    omega
  refine ⟨⟨hdate, ?_⟩, hyear, ?_⟩
  · rw [hhour, hminute, hsecond]
    constructor <;> omega
  · rw [TimeFields.unix, toUnixTime_eq hyear hdate, hday, dayNumber_epoch, hhour, hminute, hsecond]
    omega

/-- Fields with the same time are the same. -/
lemma TimeFields.unix_inj {f g : TimeFields} (hf : f.Valid) (hg : g.Valid) (hfy : 1970 ≤ f.year)
    (hgy : 1970 ≤ g.year) (heq : f.unix = g.unix) : f = g := by
  rw [TimeFields.unix, TimeFields.unix, toUnixTime_eq hfy hf.date, toUnixTime_eq hgy hg.date] at heq
  obtain ⟨hday, hhour, hminute, hsecond⟩ := secondOfDay_inj hf.time hg.time heq
  obtain ⟨hyear, hmonth, hday⟩ := dayNumber_inj hf.date hg.date (by omega)
  cases f
  cases g
  exact TimeFields.mk.injEq .. ▸ ⟨hyear, hmonth, hday, hhour, hminute, hsecond⟩

/-- Times from 1970 on are not negative. -/
lemma TimeFields.unix_nonneg {f : TimeFields} (hf : f.Valid) (hfy : 1970 ≤ f.year) :
    0 ≤ f.unix := by
  obtain ⟨_, _, _, _, _, _⟩ := hf.time
  have hmono := yearStart_mono hfy
  have hday := hf.date.mem_year.1
  have hstart : yearStart 1970 = 719162 := by norm_num [yearStart]
  rw [TimeFields.unix, toUnixTime_eq hfy hf.date, dayNumber_epoch]
  omega

/-! ### The copy in the library -/

namespace Libc

/-- `to_unix_time` of the library. -/
def toUnixTime (year month day hour minute second : ℤ) : ℤ :=
  let leapYears := ((year - 1) - 1968).tdiv 4 - ((year - 1) - 1900).tdiv 100 +
    ((year - 1) - 1600).tdiv 400
  let daysSince1970 := (year - 1970) * 365 + leapYears +
    [0, 31, 59, 90, 120, 151, 181, 212, 243, 273, 304, 334].getD (month - 1).toNat 0 + day - 1
  let daysSince1970 :=
    if month > 2 ∧ year.tmod 4 = 0 ∧ (year.tmod 100 ≠ 0 ∨ year.tmod 400 = 0) then
      daysSince1970 + 1
    else daysSince1970
  second + 60 * (minute + 60 * (hour + 24 * daysSince1970))

/-- `from_unix_time` of the library. -/
def fromUnixTime (unixtime : ℕ) : TimeFields :=
  let dayN := wrap32 (719468 + unixtime / 86400)
  let secondsSince0 := unixtime % 86400
  let temp := sub32 (wrap32 (4 * wrap32 (dayN + 36524 + 1)) / 146097) 1
  let year := int (wrap32 (100 * temp))
  let dayN := sub32 dayN (wrap32 (36524 * temp + temp / 4))
  let temp := sub32 (wrap32 (4 * wrap32 (dayN + 365 + 1)) / 1461) 1
  let year := int (year + temp)
  let dayN := sub32 dayN (wrap32 (365 * temp + temp / 4))
  let month := int (wrap32 (5 * dayN + 2) / 153 : ℕ)
  let day := int (dayN - (month * 153 + 2).tdiv 5 + 1)
  let month := int (month + 3)
  let late := month > 12
  let month := if late then int (month - 12) else month
  let year := if late then int (year + 1) else year
  ⟨year, month, day, (secondsSince0 / 3600 : ℕ), (secondsSince0 % 3600 / 60 : ℕ),
    (secondsSince0 % 60 : ℕ)⟩

end Libc

/-- **The calendar.** Every time of 32 bits has fields that are a date and a time of day, and
`to_unix_time` gives it back; every date and time of day from 1970 on whose time has 32 bits comes
back from `from_unix_time`. The library computes the same. -/
theorem calendar_round_trips (t : ℕ) (f : TimeFields) :
    (t < 2 ^ 32 → (fromUnixTime t).Valid ∧ (fromUnixTime t).unix = t) ∧
    (f.Valid → 1970 ≤ f.year → f.unix < 2 ^ 32 → fromUnixTime f.unix.toNat = f) ∧
    Libc.toUnixTime = toUnixTime ∧ Libc.fromUnixTime = fromUnixTime := by
  refine ⟨fun ht => ?_, fun hf hyear hlt => ?_, rfl, rfl⟩
  · obtain ⟨hvalid, -, hback⟩ := fromUnixTime_valid ht
    exact ⟨hvalid, hback⟩
  · have hnonneg := TimeFields.unix_nonneg hf hyear
    obtain ⟨hvalid, hyear', hback⟩ := fromUnixTime_valid (t := f.unix.toNat) (by omega)
    exact TimeFields.unix_inj hvalid hf hyear' hyear (hback.trans (Int.toNat_of_nonneg hnonneg))

example : fromUnixTime 951782400 = ⟨2000, 2, 29, 0, 0, 0⟩ := by decide

end MicroOS
