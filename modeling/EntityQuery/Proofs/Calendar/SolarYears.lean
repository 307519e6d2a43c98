import EntityQuery.Calendar.Text
import EntityQuery.Proofs.Calendar.SolarHijri

set_option autoImplicit false

namespace EntityQuery.Calendar.SolarHijri

def IsLeap (year : Nat) : Prop :=
  year % 33 ∈ [1, 5, 9, 13, 17, 22, 26, 30]

instance (year : Nat) : Decidable (IsLeap year) :=
  inferInstanceAs (Decidable (_ ∈ _))

-- The days that the calendar has: the last month is of thirty days in leap years alone.
def Occurs (year month day : Nat) : Prop :=
  1 ≤ year ∧ 1 ≤ month ∧ 1 ≤ day ∧
    (month ≤ 6 ∧ day ≤ 31 ∨ month ≤ 11 ∧ day ≤ 30 ∨ month = 12 ∧ day ≤ if IsLeap year then 30 else 29)

-- The day after the last one of a common year, counted to that year.
def Surplus (year month day : Nat) : Prop :=
  1 ≤ year ∧ month = 12 ∧ day = 30 ∧ ¬IsLeap year

def Precedes (year month day year' month' day' : Nat) : Prop :=
  year < year' ∨ year = year' ∧ (month < month' ∨ month = month' ∧ day < day')

variable {year month day year' month' day' : Nat}

theorem isDate_iff : isDate year month day ↔ Occurs year month day ∨ Surplus year month day := by
  simp only [isDate, monthLength, Occurs, Surplus]
  by_cases leap : IsLeap year
  next =>
    simp only [leap, if_true, not_true_eq_false, and_false, or_false]
    repeat' split
    all_goals omega
  next =>
    simp only [leap, if_false, not_false_eq_true, and_true]
    repeat' split
    all_goals omega

def firstDay (year : Nat) : Int :=
  dayNumber year 1 1

-- Years are counted off from the start of a cycle; in it every fourth year is a leap year but the last.
theorem isLeap_iff {q r : Nat} (parts : year + 1595 = 33 * q + r) (bound : r < 33) :
    IsLeap year ↔ r % 4 = 0 ∧ r ≠ 32 := by
  have cycle : ∀ r < 33, ((r + 22) % 33 ∈ [1, 5, 9, 13, 17, 22, 26, 30] ↔ r % 4 = 0 ∧ r ≠ 32) := by
    decide
  have shifted : year % 33 = (r + 22) % 33 := by omega
  rw [IsLeap, shifted]
  exact cycle r bound

theorem firstDay_succ (year : Nat) :
    firstDay (year + 1) = firstDay year + if IsLeap year then 366 else 365 := by
  obtain ⟨q, r, parts, bound⟩ : ∃ q r, year + 1595 = 33 * q + r ∧ r < 33 :=
    ⟨(year + 1595) / 33, (year + 1595) % 33, by omega, by omega⟩
  have cycles : ((year : Int) + 1595) / 33 = q := by omega
  have inCycle : ((year : Int) + 1595) % 33 = r := by omega
  simp only [firstDay, dayNumber, isLeap_iff parts bound, cycles, inCycle]
  by_cases last : r = 32
  next =>
    have cycles : ((year + 1 : Nat) + 1595 : Int) / 33 = q + 1 := by omega
    have inCycle : ((year + 1 : Nat) + 1595 : Int) % 33 = 0 := by omega
    rw [cycles, inCycle]
    omega
  next =>
    have cycles : ((year + 1 : Nat) + 1595 : Int) / 33 = q := by omega
    have inCycle : ((year + 1 : Nat) + 1595 : Int) % 33 = r + 1 := by omega
    rw [cycles, inCycle]
    omega

theorem firstDay_mono (order : year ≤ year') : firstDay year ≤ firstDay year' := by
  induction order with
  | refl => exact le_refl _
  | @step later _ ih =>
    refine ih.trans ?_
    rw [Nat.succ_eq_add_one, firstDay_succ]
    split <;> omega

def yearDay (month day : Nat) : Int :=
  daysBefore month + day - 1

theorem dayNumber_eq (year month day : Nat) :
    dayNumber year month day = firstDay year + yearDay month day := by
  have opens : daysBefore 1 = 0 := rfl
  simp only [firstDay, dayNumber, yearDay]
  omega

theorem yearDay_mem (valid : isDate year month day) : 0 ≤ yearDay month day ∧ yearDay month day ≤ 365 ∧
    (yearDay month day = 0 ↔ month = 1 ∧ day = 1) ∧ (yearDay month day = 365 ↔ month = 12 ∧ day = 30) := by
  obtain ⟨-, one, most⟩ := valid
  simp only [monthLength] at most
  simp only [yearDay, daysBefore]
  repeat' split at most
  all_goals split <;> omega

theorem daysBefore_add_length (least : 1 ≤ month) (earlier : month < month') (most : month' ≤ 12) :
    daysBefore month + monthLength month ≤ daysBefore month' := by
  have each : ∀ m' < 13, ∀ m < m', 1 ≤ m → daysBefore m + monthLength m ≤ daysBefore m' := by decide
  exact each month' (by omega) month earlier least

theorem yearDay_lt (valid : isDate year month day) (valid' : isDate year' month' day')
    (order : month < month' ∨ month = month' ∧ day < day') : yearDay month day < yearDay month' day' := by
  have months := month_mem valid
  have months' := month_mem valid'
  have most := valid.2.2
  unfold yearDay
  rcases order with earlier | ⟨same, earlier⟩
  next =>
    have before := daysBefore_add_length months.1 earlier months'.2.1
    omega
  next =>
    rw [same]
    omega

theorem dayNumber_surplus (surplus : Surplus year month day) :
    dayNumber year month day = dayNumber (year + 1) 1 1 := by
  obtain ⟨-, rfl, rfl, common⟩ := surplus
  have length := firstDay_succ year
  have last : yearDay 12 30 = 365 := rfl
  have first : yearDay 1 1 = 0 := rfl
  rw [if_neg common] at length
  rw [dayNumber_eq, dayNumber_eq, length]
  omega

theorem dayNumber_lt (valid : isDate year month day) (valid' : isDate year' month' day')
    (order : Precedes year month day year' month' day')
    (proper : ¬(Surplus year month day ∧ year' = year + 1 ∧ month' = 1 ∧ day' = 1)) :
    dayNumber year month day < dayNumber year' month' day' := by
  rw [dayNumber_eq, dayNumber_eq]
  rcases order with years | ⟨rfl, days⟩
  next =>
    obtain ⟨-, most, -, last⟩ := yearDay_mem valid
    obtain ⟨least, -, first, -⟩ := yearDay_mem valid'
    have length := firstDay_succ year
    have length' := firstDay_succ (year + 1)
    have start := @firstDay_mono (year + 1) year' (by omega)
    by_cases later : year + 1 < year'
    next =>
      have start := @firstDay_mono (year + 1 + 1) year' (by omega)
      split at length' <;> split at length <;> omega
    next =>
      have next : year' = year + 1 := by omega
      by_cases leap : IsLeap year
      next =>
        rw [if_pos leap] at length
        omega
      next =>
        rw [if_neg leap] at length
        have apart : ¬(yearDay month day = 365 ∧ yearDay month' day' = 0) := by
          rintro ⟨full, opens⟩
          obtain ⟨twelfth, thirtieth⟩ := last.1 full
          exact proper ⟨⟨valid.1, twelfth, thirtieth, leap⟩, next, first.1 opens⟩
        omega
  next =>
    have less := yearDay_lt valid valid' days
    omega

/-- No days are converted but those of the calendar and the surplus days. An earlier date is converted to
an earlier day, except where a surplus day is compared with the first day of the next year, which are
converted to the same day. -/
theorem toGregorian?_ordered (year month day : Nat) :
    (∀ {g}, toGregorian? year month day = some g → Occurs year month day ∨ Surplus year month day) ∧
    (∀ {year' month' day' g g'}, toGregorian? year month day = some g →
      toGregorian? year' month' day' = some g' → Precedes year month day year' month' day' →
      ((DateTime.ofDate g).compare (.ofDate g') = .lt ↔
        ¬(Surplus year month day ∧ year' = year + 1 ∧ month' = 1 ∧ day' = 1)) ∧
      (Surplus year month day ∧ year' = year + 1 ∧ month' = 1 ∧ day' = 1 → g = g')) ∧
    (Surplus year month day → toGregorian? year month day = toGregorian? (year + 1) 1 1) := by
  refine ⟨fun found => isDate_iff.1 (isDate_of_toGregorian? found), fun found found' order => ?_,
    fun surplus => ?_⟩
  · have valid := isDate_of_toGregorian? found
    have valid' := isDate_of_toGregorian? found'
    have number := (toGregorian?_eq_some_iff valid).1 found
    have number' := (toGregorian?_eq_some_iff valid').1 found'
    rw [Date.compare_dayNumber, compare_lt_iff_lt, number, number']
    refine ⟨⟨?_, dayNumber_lt valid valid' order⟩, ?_⟩
    · rintro less ⟨surplus, rfl, rfl, rfl⟩
      rw [dayNumber_surplus surplus] at less
      exact lt_irrefl _ less
    · rintro ⟨surplus, rfl, rfl, rfl⟩
      rw [dayNumber_surplus surplus] at number
      exact Date.eq_of_dayNumber (number.trans number'.symm)
  · have valid := isDate_iff.2 (.inr surplus)
    have valid' : isDate (year + 1) 1 1 := ⟨by omega, le_refl 1, by decide⟩
    rw [toGregorian?_eq_after? valid, toGregorian?_eq_after? valid', dayNumber_surplus surplus]

theorem toGregorian?_ordered_leap : ∃ g g' : Date, toGregorian? 1399 12 30 = some g ∧
    toGregorian? 1400 1 1 = some g' ∧ Occurs 1399 12 30 ∧ Precedes 1399 12 30 1400 1 1 ∧
    (DateTime.ofDate g).compare (.ofDate g') = .lt ∧ Surplus 1400 12 30 ∧
    toGregorian? 1400 12 30 = toGregorian? 1401 1 1 := by
  have last : toGregorian? 1399 12 30 = some ⟨2021, 3, 20, by decide, by decide⟩ := rfl
  have first : toGregorian? 1400 1 1 = some ⟨2021, 3, 21, by decide, by decide⟩ := rfl
  have order : Precedes 1399 12 30 1400 1 1 := .inl (by decide)
  have leap : IsLeap 1399 := by decide
  have surplus : Surplus 1400 12 30 := ⟨by decide, rfl, rfl, by decide⟩
  obtain ⟨days, ordered, -⟩ := toGregorian?_ordered 1399 12 30
  obtain ⟨-, -, merged⟩ := toGregorian?_ordered 1400 12 30
  have proper : ¬Surplus 1399 12 30 := fun surplus => surplus.2.2.2 leap
  exact ⟨_, _, last, first, (days last).resolve_right proper, order,
    (ordered last first order).1.2 fun both => proper both.1, surplus, merged surplus⟩

-- The thirtieth of the last month of a common year is taken for the first day of the next.
theorem toGregorian?_surplus : ∃ g : Date, ¬Occurs 1400 12 30 ∧ Precedes 1400 12 30 1401 1 1 ∧
    toGregorian? 1400 12 30 = some g ∧ toGregorian? 1401 1 1 = some g ∧
    DateTime.read "1400/12/30".toList = some (.ofDate g) := by
  have common : ¬IsLeap 1400 := by decide
  refine ⟨⟨2022, 3, 21, by decide, by decide⟩, ?_, .inl (by decide), rfl, rfl, by decide⟩
  simp [Occurs, common]

end EntityQuery.Calendar.SolarHijri
