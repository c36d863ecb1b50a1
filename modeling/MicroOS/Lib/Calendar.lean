import Mathlib.Tactic

/-!
The Gregorian calendar.

* `Leap`, `yearLength`, `monthLength`: how long years and months are;
* `yearStart`, `monthStart`: the days in front of a year and, in a year, in front of a month;
* `ValidDate`, `ValidTime`: the dates and the times of day that there are;
* `dayNumber`, `dayNumber_inj`: the number of a day, and that it has one date only;
* `secondOfDay_inj`: a second of a day has one time of day only.

Months are counted from 1 in a date, and from 0 in `monthLength` and `monthStart`.
-/

namespace Calendar

variable {year month day year' month' day' : ℤ}

/-- There is a 29th of February. -/
def Leap (year : ℤ) : Prop := year % 4 = 0 ∧ (year % 100 ≠ 0 ∨ year % 400 = 0)

instance (year : ℤ) : Decidable (Leap year) := inferInstanceAs (Decidable (_ ∧ _))

/-- The days of a year. -/
def yearLength (year : ℤ) : ℤ := if Leap year then 366 else 365

/-- The days of a month. -/
def monthLength (year : ℤ) (month : ℕ) : ℤ :=
  [31, if Leap year then 29 else 28, 31, 30, 31, 30, 31, 31, 30, 31, 30, 31].getD month 0

/-- The days in front of a year, from the year 1 on. -/
def yearStart (year : ℤ) : ℤ :=
  365 * (year - 1) + (year - 1) / 4 - (year - 1) / 100 + (year - 1) / 400

/-- The days of a year in front of a month. -/
def monthStart (year : ℤ) : ℕ → ℤ
  | 0 => 0
  | month + 1 => monthStart year month + monthLength year month

/-- A date. -/
structure ValidDate (year month day : ℤ) : Prop where
  month_pos : 1 ≤ month
  month_le : month ≤ 12
  day_pos : 1 ≤ day
  day_le : day ≤ monthLength year (month - 1).toNat

/-- A time of day. -/
structure ValidTime (hour minute second : ℤ) : Prop where
  hour_nonneg : 0 ≤ hour
  hour_lt : hour < 24
  minute_nonneg : 0 ≤ minute
  minute_lt : minute < 60
  second_nonneg : 0 ≤ second
  second_lt : second < 60

/-- **The number of a day**: the days in front of it, from the year 1 on. -/
def dayNumber (year month day : ℤ) : ℤ :=
  yearStart year + monthStart year (month - 1).toNat + (day - 1)

/-- A year starts where the year in front of it ends. -/
lemma yearStart_succ (year : ℤ) : yearStart (year + 1) = yearStart year + yearLength year := by
  simp only [yearStart, yearLength, Leap]
  split_ifs with hleap <;> omega

/-- Later years start later. -/
lemma yearStart_mono : Monotone yearStart := by
  refine monotone_int_of_le_succ fun year => ?_
  rw [yearStart_succ, yearLength]
  split_ifs <;> omega

/-- No month has a negative length. -/
lemma monthLength_nonneg (year : ℤ) (month : ℕ) : 0 ≤ monthLength year month := by
  rw [monthLength]
  rcases Nat.lt_or_ge month 12 with hlt | hge
  · split_ifs <;> interval_cases month <;> decide
  · simp [hge]

/-- Later months start later. -/
lemma monthStart_mono (year : ℤ) : Monotone (monthStart year) := by
  refine monotone_nat_of_le_succ fun month => ?_
  rw [monthStart]
  exact le_add_of_nonneg_right (monthLength_nonneg year month)

lemma monthStart_twelve (year : ℤ) : monthStart year 12 = yearLength year := by
  simp only [monthStart, monthLength, yearLength]
  split_ifs <;> rfl

/-- A value is in one of the intervals between the values of a monotone function only. -/
lemma eq_of_mem_Ico {ι : Type*} [LinearOrder ι] [Add ι] [One ι] [SuccAddOrder ι] {f : ι → ℤ}
    (hf : Monotone f) {a b : ι} {x : ℤ} (ha : f a ≤ x ∧ x < f (a + 1))
    (hb : f b ≤ x ∧ x < f (b + 1)) : a = b := by
  rcases lt_trichotomy a b with hlt | heq | hlt
  · exact absurd (hf (Order.add_one_le_of_lt hlt)) (not_le.mpr (hb.1.trans_lt ha.2))
  · exact heq
  · exact absurd (hf (Order.add_one_le_of_lt hlt)) (not_le.mpr (ha.1.trans_lt hb.2))

/-- The days of a date in its year. -/
lemma ValidDate.dayOfYear (h : ValidDate year month day) :
    monthStart year (month - 1).toNat ≤ monthStart year (month - 1).toNat + (day - 1) ∧
      monthStart year (month - 1).toNat + (day - 1) < monthStart year ((month - 1).toNat + 1) := by
  have hpos := h.day_pos
  have hle := h.day_le
  rw [monthStart]
  omega

/-- A day is in its year. -/
lemma ValidDate.mem_year (h : ValidDate year month day) :
    yearStart year ≤ dayNumber year month day ∧
      dayNumber year month day < yearStart (year + 1) := by
  obtain ⟨hlo, hhi⟩ := h.dayOfYear
  have h1 := h.month_pos
  have h12 := h.month_le
  have hfirst : monthStart year 0 ≤ monthStart year (month - 1).toNat :=
    monthStart_mono year (Nat.zero_le _)
  have hlast : monthStart year ((month - 1).toNat + 1) ≤ monthStart year 12 :=
    monthStart_mono year (by omega)
  rw [monthStart_twelve] at hlast
  rw [monthStart] at hfirst
  rw [dayNumber, yearStart_succ]
  omega

/-- **A day has one date.** -/
theorem dayNumber_inj (h : ValidDate year month day) (h' : ValidDate year' month' day')
    (heq : dayNumber year month day = dayNumber year' month' day') :
    year = year' ∧ month = month' ∧ day = day' := by
  obtain rfl := eq_of_mem_Ico yearStart_mono h.mem_year (heq ▸ h'.mem_year)
  have hday : monthStart year (month - 1).toNat + (day - 1) =
      monthStart year (month' - 1).toNat + (day' - 1) := by
    rw [dayNumber, dayNumber] at heq
    omega
  have hmonth : (month - 1).toNat = (month' - 1).toNat :=
    eq_of_mem_Ico (monthStart_mono year) h.dayOfYear (hday ▸ h'.dayOfYear)
  have h1 := h.month_pos
  have h1' := h'.month_pos
  rw [hmonth] at hday
  exact ⟨rfl, by omega, by omega⟩

/-- **A second of a day has one time of day.** -/
theorem secondOfDay_inj {hour minute second hour' minute' second' d d' : ℤ}
    (h : ValidTime hour minute second) (h' : ValidTime hour' minute' second')
    (heq : second + 60 * (minute + 60 * (hour + 24 * d)) =
      second' + 60 * (minute' + 60 * (hour' + 24 * d'))) :
    d = d' ∧ hour = hour' ∧ minute = minute' ∧ second = second' := by
  obtain ⟨_, _, _, _, _, _⟩ := h
  obtain ⟨_, _, _, _, _, _⟩ := h'
  omega

end Calendar
