import Mathlib.Data.List.GetD
import EntityQuery.Calendar.Date
import EntityQuery.Proofs.Text

set_option autoImplicit false

namespace EntityQuery.Calendar

def yearStart (year : Int) : Int :=
  365 * year + ((year + 3) / 4 - (year + 99) / 100 + (year + 399) / 400)

def yearLength (year : Int) : Nat :=
  if isLeap year then 366 else 365

theorem yearStart_succ (year : Int) : yearStart (year + 1) = yearStart year + yearLength year := by
  unfold yearStart yearLength
  simp only [isLeap, Bool.and_eq_true, Bool.or_eq_true, beq_iff_eq, bne_iff_ne]
  split <;> omega

theorem yearStart_mono {y z : Int} (order : y ≤ z) : yearStart y ≤ yearStart z := by
  unfold yearStart
  omega

def daysBefore (leap : Bool) (month : Nat) : Nat :=
  ((monthLengths leap).take (month - 1)).foldl (· + ·) 0

theorem daysBefore_succ (leap : Bool) {month : Nat} (least : 1 ≤ month) (most : month ≤ 12) :
    daysBefore leap (month + 1) =
      daysBefore leap month + (monthLengths leap).getD (month - 1) 0 := by
  have each : ∀ leap, ∀ m < 13, 1 ≤ m →
      daysBefore leap (m + 1) = daysBefore leap m + (monthLengths leap).getD (m - 1) 0 := by decide
  exact each leap month (by omega) least

theorem daysBefore_mono (leap : Bool) {m n : Nat} (order : m ≤ n) (most : n ≤ 13) :
    daysBefore leap m ≤ daysBefore leap n := by
  have each : ∀ leap, ∀ n < 14, ∀ m < n + 1, daysBefore leap m ≤ daysBefore leap n := by decide
  exact each leap n (by omega) m (by omega)

theorem daysBefore_end (year : Int) : daysBefore (isLeap year) 13 = yearLength year := by
  unfold yearLength
  cases isLeap year <;> rfl

theorem daysInMonth_eq {year : Int} {month : Nat} (least : 1 ≤ month) :
    daysInMonth year month = (monthLengths (isLeap year)).getD (month - 1) 0 :=
  if_neg (by omega)

theorem daysInMonth_pos {year : Int} {month : Nat} (least : 1 ≤ month) (most : month ≤ 12) :
    1 ≤ daysInMonth year month := by
  have each : ∀ leap, ∀ m < 13, 1 ≤ m → 1 ≤ (monthLengths leap).getD (m - 1) 0 := by decide
  rw [daysInMonth_eq least]
  exact each _ month (by omega) least

namespace Date

variable {a b d e : Date}

theorem one_le_month (d : Date) : 1 ≤ d.month := by
  by_contra none
  have days := d.day_mem
  rw [daysInMonth, if_pos (by omega)] at days
  omega

theorem month_le (d : Date) : d.month ≤ 12 := by
  by_contra more
  have days := d.day_mem
  rw [daysInMonth_eq d.one_le_month, List.getD_eq_default _ _ (by simp [monthLengths]; omega)] at days
  omega

theorem day_le (d : Date) : d.day ≤ 31 := by
  have each : ∀ leap, ∀ m < 13, (monthLengths leap).getD (m - 1) 0 ≤ 31 := by decide
  have most := each (isLeap d.year) d.month (by have := d.month_le; omega)
  have days := d.day_mem.2
  rw [daysInMonth_eq d.one_le_month] at days
  omega

def yearDay (d : Date) : Nat :=
  daysBefore (isLeap d.year) d.month + (d.day - 1)

theorem yearDay_lt_month (d : Date) : d.yearDay < daysBefore (isLeap d.year) (d.month + 1) := by
  have days := d.day_mem
  have next := daysBefore_succ (isLeap d.year) d.one_le_month d.month_le
  rw [daysInMonth_eq d.one_le_month] at days
  unfold yearDay
  omega

theorem yearDay_lt (d : Date) : d.yearDay < yearLength d.year := by
  have within := d.yearDay_lt_month
  have most := d.month_le
  have last := daysBefore_mono (isLeap d.year) (m := d.month + 1) (n := 13) (by omega) (le_refl _)
  rw [daysBefore_end] at last
  omega

theorem dayNumber_eq (d : Date) : d.dayNumber = yearStart d.year + d.yearDay := by
  have first := d.day_mem.1
  have parts : d.dayNumber =
      yearStart d.year + daysBefore (isLeap d.year) d.month + ((d.day : Int) - 1) := rfl
  rw [parts, yearDay]
  omega

theorem dayNumber_mem (d : Date) :
    yearStart d.year ≤ d.dayNumber ∧ d.dayNumber < yearStart (d.year + 1) := by
  have within := d.yearDay_lt
  rw [dayNumber_eq, yearStart_succ]
  omega

theorem year_eq_of_dayNumber {year : Int} (least : yearStart year ≤ d.dayNumber)
    (most : d.dayNumber < yearStart (year + 1)) : d.year = year := by
  obtain ⟨first, last⟩ := d.dayNumber_mem
  by_contra other
  rcases lt_or_gt_of_ne other with before | after
  next =>
    have bound := yearStart_mono (y := d.year + 1) (z := year) (by omega)
    omega
  next =>
    have bound := yearStart_mono (y := year + 1) (z := d.year) (by omega)
    omega

theorem compare_eq_lt_iff : (DateTime.ofDate a).compare (.ofDate b) = .lt ↔
    a.year < b.year ∨ a.year = b.year ∧ (a.month < b.month ∨ a.month = b.month ∧ a.day < b.day) := by
  simp [DateTime.compare, DateTime.ofDate, compareLex, compareOn, Ordering.then_eq_lt,
    compare_lt_iff_lt]

theorem dayNumber_lt (before : (DateTime.ofDate a).compare (.ofDate b) = .lt) :
    a.dayNumber < b.dayNumber := by
  rcases compare_eq_lt_iff.1 before with years | ⟨years, rest⟩
  next =>
    have last := a.dayNumber_mem.2
    have first := b.dayNumber_mem.1
    have bound := yearStart_mono (y := a.year + 1) (z := b.year) (by omega)
    omega
  next =>
    rw [dayNumber_eq, dayNumber_eq, years]
    rcases rest with months | ⟨months, days⟩
    next =>
      have last := a.yearDay_lt_month
      have most := b.month_le
      have bound := daysBefore_mono (isLeap b.year) (m := a.month + 1) (n := b.month) (by omega) (by omega)
      simp only [yearDay, years] at last ⊢
      omega
    next =>
      have first := a.day_mem.1
      simp only [yearDay, years, months]
      omega

theorem compare_dayNumber (a b : Date) :
    (DateTime.ofDate a).compare (.ofDate b) = Ord.compare a.dayNumber b.dayNumber := by
  cases order : (DateTime.ofDate a).compare (.ofDate b) with
  | lt => exact (compare_lt_iff_lt.2 (dayNumber_lt order)).symm
  | eq =>
    have same := congrArg (fun d : DateTime => d.date.dayNumber) (DateTime.compare_eq_iff.1 order)
    exact (compare_eq_iff_eq.2 same).symm
  | gt =>
    have swapped : (DateTime.ofDate b).compare (.ofDate a) = .lt := by
      rw [DateTime.compare_swap, order]
      rfl
    exact (compare_gt_iff_gt.2 (dayNumber_lt swapped)).symm

theorem eq_of_dayNumber (same : a.dayNumber = b.dayNumber) : a = b := by
  have order := compare_dayNumber a b
  rw [compare_eq_iff_eq.2 same] at order
  exact congrArg DateTime.date (DateTime.compare_eq_iff.1 order)

theorem exists_ofParts? {year : Int} {month day : Nat} (years : minYear ≤ year ∧ year ≤ maxYear)
    (days : 1 ≤ day ∧ day ≤ daysInMonth year month) : ∃ d, ofParts? year month day = some d :=
  ⟨⟨year, month, day, years, days⟩, dif_pos ⟨years, days⟩⟩

theorem dayNumber_ofParts? {year : Int} {month day : Nat} (found : ofParts? year month day = some d) :
    d.dayNumber = yearStart year + (daysBefore (isLeap year) month + (day - 1) : Nat) := by
  obtain ⟨rfl, rfl, rfl⟩ := ofParts?_eq_some_iff.1 found
  exact d.dayNumber_eq

theorem daysBefore_next (d : Date) : daysBefore (isLeap d.year) (d.month + 1) =
    daysBefore (isLeap d.year) d.month + daysInMonth d.year d.month := by
  rw [daysInMonth_eq d.one_le_month, daysBefore_succ _ d.one_le_month d.month_le]

theorem dayNumber_next? (found : d.next? = some e) : e.dayNumber = d.dayNumber + 1 := by
  obtain ⟨first, last⟩ := d.day_mem
  have month := d.daysBefore_next
  rw [d.dayNumber_eq, yearDay]
  unfold next? at found
  split at found
  next =>
    rw [dayNumber_ofParts? found]
    omega
  next =>
    split at found
    next =>
      rw [dayNumber_ofParts? found]
      omega
    next =>
      have most := d.month_le
      have year := daysBefore_end d.year
      have opens : daysBefore (isLeap (d.year + 1)) 1 = 0 := rfl
      have december : d.month + 1 = 13 := by omega
      rw [december] at month
      rw [dayNumber_ofParts? found, yearStart_succ, opens]
      omega

theorem dayNumber_previous? (found : d.previous? = some e) : e.dayNumber + 1 = d.dayNumber := by
  obtain ⟨first, last⟩ := d.day_mem
  rw [d.dayNumber_eq, yearDay]
  unfold previous? at found
  split at found
  next =>
    rw [dayNumber_ofParts? found]
    omega
  next =>
    split at found
    next =>
      have month := e.daysBefore_next
      have some := e.day_mem.1
      obtain ⟨year, before, days⟩ := ofParts?_eq_some_iff.1 found
      have later : e.month + 1 = d.month := by omega
      rw [later, year, before] at month
      rw [dayNumber_ofParts? found]
      omega
    next =>
      have january : d.month = 1 := by
        have least := d.one_le_month
        omega
      have year := yearStart_succ (d.year - 1)
      rw [Int.sub_add_cancel] at year
      rw [dayNumber_ofParts? found, january, year]
      unfold yearLength
      cases isLeap (d.year - 1) <;> simp [daysBefore, monthLengths] <;> omega

theorem exists_next? (room : d.dayNumber + 1 < yearStart (maxYear + 1)) : ∃ e, d.next? = some e := by
  obtain ⟨first, last⟩ := d.day_mem
  unfold next?
  split
  next more => exact exists_ofParts? d.year_mem ⟨by omega, more⟩
  next full =>
    split
    next within => exact exists_ofParts? d.year_mem ⟨le_refl 1, daysInMonth_pos (by omega) within⟩
    next =>
      have later : d.year + 1 ≤ maxYear := by
        by_contra beyond
        have month := d.daysBefore_next
        have most := d.month_le
        have year := daysBefore_end d.year
        have december : d.month + 1 = 13 := by omega
        have final : d.year = maxYear := by
          have years := d.year_mem.2
          omega
        rw [december] at month
        rw [← final, yearStart_succ, dayNumber_eq, yearDay] at room
        omega
      have least := d.year_mem.1
      exact exists_ofParts? ⟨by omega, later⟩ ⟨le_refl 1, daysInMonth_pos (le_refl 1) (by decide)⟩

theorem exists_previous? (room : yearStart minYear < d.dayNumber) : ∃ e, d.previous? = some e := by
  obtain ⟨first, last⟩ := d.day_mem
  have most := d.month_le
  unfold previous?
  split
  next more => exact exists_ofParts? d.year_mem ⟨by omega, by omega⟩
  next =>
    split
    next within =>
      exact exists_ofParts? d.year_mem ⟨daysInMonth_pos (by omega) (by omega), le_refl _⟩
    next =>
      have earlier : minYear ≤ d.year - 1 := by
        by_contra beyond
        have january : d.month = 1 := by
          have least := d.one_le_month
          omega
        have opens : d.yearDay = 0 := by
          have one : d.day = 1 := by omega
          rw [yearDay, january, one]
          rfl
        have initial : d.year = minYear := by
          have years := d.year_mem.1
          omega
        rw [dayNumber_eq, opens, initial] at room
        omega
      have greatest := d.year_mem.2
      exact exists_ofParts? ⟨earlier, by omega⟩ ⟨by decide, le_refl 31⟩

theorem next?_eq_some_iff : d.next? = some e ↔ e.dayNumber = d.dayNumber + 1 := by
  refine ⟨dayNumber_next?, fun number => ?_⟩
  have last := e.dayNumber_mem.2
  have bound := yearStart_mono (y := e.year + 1) (z := maxYear + 1) (by have := e.year_mem.2; omega)
  obtain ⟨f, found⟩ := d.exists_next? (by omega)
  have same : f = e := eq_of_dayNumber ((dayNumber_next? found).trans number.symm)
  exact same ▸ found

theorem previous?_eq_some_iff : d.previous? = some e ↔ e.dayNumber + 1 = d.dayNumber := by
  refine ⟨dayNumber_previous?, fun number => ?_⟩
  have first := e.dayNumber_mem.1
  have bound := yearStart_mono e.year_mem.1
  obtain ⟨f, found⟩ := d.exists_previous? (by omega)
  have before := dayNumber_previous? found
  have same : f = e := eq_of_dayNumber (by omega)
  exact same ▸ found

def after? : Nat → Option Date
  | 0 => ofParts? 0 1 1
  | n + 1 => after? n >>= next?

theorem after?_eq_some_iff {n : Nat} : after? n = some d ↔ d.dayNumber = n := by
  induction n generalizing d with
  | zero =>
    let start : Date := ⟨0, 1, 1, by decide, by decide⟩
    have first : after? 0 = some start := rfl
    have zero : start.dayNumber = 0 := rfl
    constructor
    · intro found
      obtain rfl := Option.some.inj (first.symm.trans found)
      exact zero
    · intro number
      exact first.trans (congrArg some (eq_of_dayNumber (zero.trans number.symm)))
  | succ n ih =>
    refine Option.bind_eq_some_iff.trans ?_
    constructor
    · rintro ⟨c, found, next⟩
      have number := ih.1 found
      have following := next?_eq_some_iff.1 next
      omega
    · intro number
      -- The day before is reached first; it exists because the count is not at its start.
      have least : yearStart minYear < 0 := by decide
      obtain ⟨c, before⟩ := d.exists_previous? (by omega)
      have step := previous?_eq_some_iff.1 before
      refine ⟨c, ih.2 (by omega), next?_eq_some_iff.2 (by omega)⟩

theorem exists_after? {n : Nat} (room : (n : Int) < yearStart (maxYear + 1)) : ∃ d, after? n = some d := by
  induction n with
  | zero => exact ⟨_, rfl⟩
  | succ n ih =>
    obtain ⟨c, found⟩ := ih (by omega)
    have number := after?_eq_some_iff.1 found
    obtain ⟨d, next⟩ := c.exists_next? (by omega)
    exact ⟨d, Option.bind_eq_some_iff.2 ⟨c, found, next⟩⟩

-- Month and day are found so that the months passed and the day make up the index.
theorem splitMonths_sum {lengths : List Nat} {first index : Nat} (within : index < lengths.sum) :
    ∃ k day, splitMonths lengths first index = some (first + k, day) ∧ 1 ≤ day ∧
      day ≤ lengths.getD k 0 ∧ (lengths.take k).sum + day = index + 1 := by
  induction lengths generalizing first index with
  | nil => cases within
  | cons length rest ih =>
    unfold splitMonths
    split
    next inside => exact ⟨0, index + 1, rfl, by omega, inside, by simp⟩
    next later =>
      rw [List.sum_cons] at within
      obtain ⟨k, day, found, least, most, total⟩ := @ih (first + 1) (index - length) (by omega)
      refine ⟨k + 1, day, ?_, least, most, ?_⟩
      · rw [found, Nat.add_assoc, Nat.add_comm 1 k]
      · rw [List.take_succ_cons, List.sum_cons]
        omega

theorem ofYearDay?_eq_some_iff {year : Int} {index : Nat} (within : index < yearLength year) :
    ofYearDay? year index = some d ↔ d.dayNumber = yearStart year + index := by
  have whole : (monthLengths (isLeap year)).sum = yearLength year := by
    unfold yearLength
    cases isLeap year <;> rfl
  obtain ⟨k, day, split, least, most, total⟩ := @splitMonths_sum _ 1 _ (whole ▸ within)
  have passed : daysBefore (isLeap year) (1 + k) = ((monthLengths (isLeap year)).take k).sum := by
    rw [daysBefore, Nat.add_sub_cancel_left, List.sum_eq_foldl]
  have parts : ofYearDay? year index = ofParts? year (1 + k) day := by
    rw [ofYearDay?, split]
    rfl
  rw [parts]
  constructor
  · intro found
    rw [dayNumber_ofParts? found]
    omega
  · intro number
    have named : d.year = year := by
      apply year_eq_of_dayNumber
      · omega
      · rw [yearStart_succ]
        omega
    have fits : day ≤ daysInMonth year (1 + k) := by
      rwa [daysInMonth_eq (by omega), Nat.add_sub_cancel_left]
    obtain ⟨e, found⟩ := exists_ofParts? (named ▸ d.year_mem) ⟨least, fits⟩
    have counted := dayNumber_ofParts? found
    have same : e = d := eq_of_dayNumber (by omega)
    exact same ▸ found

end Date

end EntityQuery.Calendar
