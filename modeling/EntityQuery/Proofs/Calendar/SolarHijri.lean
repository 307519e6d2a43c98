import EntityQuery.Calendar.SolarHijri
import EntityQuery.Proofs.Calendar.DayCount

set_option autoImplicit false

namespace EntityQuery.Calendar

theorem yearStart_century {a b : Int} (least : 0 ≤ b) (most : b ≤ 3) :
    yearStart (400 * a + 100 * b) = 146097 * a + 36524 * b + if b = 0 then 0 else 1 := by
  unfold yearStart
  omega

-- Years of a century, in spans of four that begin with a leap year, but for the first year of a century
-- that has no leap day.
theorem yearStart_span {c s e : Int} (century : c % 100 = 0) (spans : 0 ≤ s ∧ s ≤ 24)
    (years : 0 ≤ e ∧ e ≤ 4) :
    yearStart (c + 4 * s + e) = yearStart c + 1461 * s + 365 * e + (if e = 0 then 0 else 1) -
      if c % 400 = 0 ∨ s = 0 ∧ e = 0 then 0 else 1 := by
  unfold yearStart
  omega

namespace SolarHijri

def century (n : Int) : Int × Int :=
  let year := 400 * n.tdiv 146097
  let day := n.tmod 146097
  if day > 36524 then
    let inCentury := (day - 1).tmod 36524
    (year + 100 * (day - 1).tdiv 36524, if inCentury ≥ 365 then inCentury + 1 else inCentury)
  else
    (year, day)

def span (p : Int × Int) : Int × Int :=
  let year := p.1 + 4 * p.2.tdiv 1461
  let day := p.2.tmod 1461
  if day > 365 then (year + (day - 1).tdiv 365, (day - 1).tmod 365) else (year, day)

theorem yearAndDay_eq (n : Int) : yearAndDay n = span (century n) := rfl

-- What is left after centuries. A century without a leap day at its start is one day short.
theorem century_spec {n : Int} (least : 0 ≤ n) :
    (century n).1 % 100 = 0 ∧ 0 ≤ (century n).2 ∧ (century n).2 ≤ 36524 ∧
      ((century n).1 % 400 ≠ 0 → (century n).2 ≠ 365) ∧
      n = yearStart (century n).1 + (century n).2 -
        if (century n).1 % 400 = 0 ∨ (century n).2 < 365 then 0 else 1 := by
  unfold century
  rw [Int.tdiv_eq_ediv_of_nonneg least, Int.tmod_eq_emod_of_nonneg least]
  dsimp only
  split
  next late =>
    have start := @yearStart_century (n / 146097) ((n % 146097 - 1) / 36524) (by omega) (by omega)
    rw [Int.tdiv_eq_ediv_of_nonneg (by omega), Int.tmod_eq_emod_of_nonneg (by omega), start]
    omega
  next early =>
    have start := @yearStart_century (n / 146097) 0 (by omega) (by omega)
    rw [Int.mul_zero, Int.add_zero] at start
    rw [start]
    omega

theorem span_spec {p : Int × Int} (start : p.1 % 100 = 0) (least : 0 ≤ p.2) (most : p.2 ≤ 36524)
    (skipped : p.1 % 400 ≠ 0 → p.2 ≠ 365) :
    0 ≤ (span p).2 ∧ yearStart (span p).1 + (span p).2 < yearStart ((span p).1 + 1) ∧
      yearStart (span p).1 + (span p).2 =
        yearStart p.1 + p.2 - if p.1 % 400 = 0 ∨ p.2 < 365 then 0 else 1 := by
  unfold span
  rw [Int.tdiv_eq_ediv_of_nonneg least, Int.tmod_eq_emod_of_nonneg least]
  dsimp only
  split
  next late =>
    have year := @yearStart_span p.1 (p.2 / 1461) ((p.2 % 1461 - 1) / 365) start (by omega) (by omega)
    have next := @yearStart_span p.1 (p.2 / 1461) ((p.2 % 1461 - 1) / 365 + 1) start (by omega) (by omega)
    rw [← Int.add_assoc] at next
    rw [Int.tdiv_eq_ediv_of_nonneg (by omega), Int.tmod_eq_emod_of_nonneg (by omega), year, next]
    omega
  next =>
    have year := @yearStart_span p.1 (p.2 / 1461) 0 start (by omega) (by omega)
    have next := @yearStart_span p.1 (p.2 / 1461) 1 start (by omega) (by omega)
    rw [Int.add_zero] at year
    rw [year, next]
    omega

theorem yearAndDay_spec {n : Int} (least : 0 ≤ n) :
    0 ≤ (yearAndDay n).2 ∧
      yearStart (yearAndDay n).1 + (yearAndDay n).2 < yearStart ((yearAndDay n).1 + 1) ∧
      yearStart (yearAndDay n).1 + (yearAndDay n).2 = n := by
  obtain ⟨start, first, last, skipped, total⟩ := century_spec least
  obtain ⟨positive, within, same⟩ := span_spec start first last skipped
  rw [yearAndDay_eq]
  exact ⟨positive, within, same.trans total.symm⟩

variable {year month day : Nat}

theorem month_mem (valid : isDate year month day) : 1 ≤ month ∧ month ≤ 12 ∧ 1 ≤ day ∧ day ≤ 31 := by
  obtain ⟨-, one, most⟩ := valid
  simp only [monthLength] at most
  repeat' split at most
  all_goals omega

theorem daysBefore_mem (valid : isDate year month day) : 0 ≤ daysBefore month ∧ daysBefore month ≤ 336 := by
  have months := month_mem valid
  unfold daysBefore
  split <;> omega

theorem dayNumber_mem (valid : isDate year month day) :
    227260 ≤ dayNumber year month day ∧ dayNumber year month day ≤ 366 * year + 228000 := by
  have first := valid.1
  have months := month_mem valid
  have before := daysBefore_mem valid
  simp only [dayNumber]
  omega

theorem toGregorian?_eq_some_iff {g : Date} (valid : isDate year month day) :
    toGregorian? year month day = some g ↔ g.dayNumber = dayNumber year month day := by
  have least := (dayNumber_mem valid).1
  obtain ⟨positive, within, total⟩ := yearAndDay_spec (n := dayNumber year month day) (by omega)
  have inside : (yearAndDay (dayNumber year month day)).2.toNat <
      yearLength (yearAndDay (dayNumber year month day)).1 := by
    rw [yearStart_succ] at within
    omega
  have count := Date.ofYearDay?_eq_some_iff (d := g) inside
  rw [Int.toNat_of_nonneg positive, total] at count
  unfold toGregorian?
  rw [if_pos valid]
  dsimp only
  rwa [if_neg (by omega)]

theorem isDate_of_toGregorian? {g : Date} (found : toGregorian? year month day = some g) :
    isDate year month day := by
  by_contra invalid
  rw [toGregorian?, if_neg invalid] at found
  cases found

def word? (n : Int) : Option Int :=
  if -2 ^ 63 ≤ n ∧ n < 2 ^ 63 then some n else none

theorem word?_eq {n m : Int} (least : -2 ^ 63 ≤ n) (most : n < 2 ^ 63) (same : n = m) :
    word? n = some m := by
  rw [word?, if_pos ⟨least, most⟩, same]

section Steps

variable {α : Type} {n k : Int} {rest : Int → Option α} {result : Option α}

theorem word?_bind (least : -2 ^ 63 ≤ n) (most : n < 2 ^ 63) (after : ∀ m, m = n → rest m = result) :
    word? n >>= rest = result := by
  rw [word?_eq least most rfl]
  exact after n rfl

theorem quotient?_bind (least : 0 ≤ n) (most : n < 2 ^ 63) (divisor : 0 < k)
    (after : ∀ m, m = n / k → rest m = result) : word? (n.tdiv k) >>= rest = result := by
  have below := Int.ediv_le_self k least
  have positive := Int.ediv_nonneg least divisor.le
  rw [Int.tdiv_eq_ediv_of_nonneg least]
  exact word?_bind (by omega) (by omega) after

theorem remainder?_bind (least : 0 ≤ n) (most : n < 2 ^ 63) (divisor : 0 < k)
    (after : ∀ m, m = n % k → rest m = result) : word? (n.tmod k) >>= rest = result := by
  have parts := Int.mul_ediv_add_emod n k
  have product := Int.mul_nonneg divisor.le (Int.ediv_nonneg least divisor.le)
  have positive := Int.emod_nonneg n divisor.ne'
  rw [Int.tmod_eq_emod_of_nonneg least]
  exact word?_bind (by omega) (by omega) after

end Steps

def daysBefore? (month : Nat) : Option Int :=
  if month < 7 then do
    let months ← word? (month - 1)
    word? (months * 31)
  else do
    let months ← word? (month - 7)
    let days ← word? (months * 30)
    word? (days + 186)

def dayNumber? (year month day : Nat) : Option Int := do
  let shifted ← word? (year + 1595)
  let common ← word? (365 * shifted)
  let common ← word? (-355668 + common)
  let cycles ← word? (shifted.tdiv 33)
  let leaps ← word? (cycles * 8)
  let days ← word? (common + leaps)
  let inCycle ← word? (shifted.tmod 33)
  let inCycle ← word? (inCycle + 3)
  let leaps ← word? (inCycle.tdiv 4)
  let days ← word? (days + leaps)
  let days ← word? (days + day)
  let before ← daysBefore? month
  word? (days + before)

def century? (n : Int) : Option (Int × Int) := do
  let cycles ← word? (n.tdiv 146097)
  let year ← word? (400 * cycles)
  let day ← word? (n.tmod 146097)
  if day > 36524 then do
    let day ← word? (day - 1)
    let centuries ← word? (day.tdiv 36524)
    let years ← word? (100 * centuries)
    let year ← word? (year + years)
    let day ← word? (day.tmod 36524)
    if day ≥ 365 then do
      let day ← word? (day + 1)
      some (year, day)
    else
      some (year, day)
  else
    some (year, day)

def span? (p : Int × Int) : Option (Int × Int) := do
  let spans ← word? (p.2.tdiv 1461)
  let years ← word? (4 * spans)
  let year ← word? (p.1 + years)
  let day ← word? (p.2.tmod 1461)
  if day > 365 then do
    let before ← word? (day - 1)
    let years ← word? (before.tdiv 365)
    let year ← word? (year + years)
    let day ← word? (before.tmod 365)
    some (year, day)
  else
    some (year, day)

theorem daysBefore?_eq (most : month ≤ 12) : daysBefore? month = some (daysBefore month) := by
  unfold daysBefore? daysBefore
  split
  next =>
    refine word?_bind (by omega) (by omega) fun months hm => ?_
    exact word?_eq (by omega) (by omega) (by omega)
  next =>
    refine word?_bind (by omega) (by omega) fun months hm => ?_
    refine word?_bind (by omega) (by omega) fun days hd => ?_
    exact word?_eq (by omega) (by omega) (by omega)

theorem dayNumber?_eq (valid : isDate year month day) (bound : year < 2 ^ 31) :
    dayNumber? year month day = some (dayNumber year month day) := by
  have first := valid.1
  have months := month_mem valid
  have before := daysBefore_mem valid
  unfold dayNumber? dayNumber
  dsimp only
  refine word?_bind (by omega) (by omega) fun shifted hs => ?_
  refine word?_bind (by omega) (by omega) fun common hc => ?_
  refine word?_bind (by omega) (by omega) fun common' hc' => ?_
  refine quotient?_bind (by omega) (by omega) (by decide) fun cycles hq => ?_
  refine word?_bind (by omega) (by omega) fun leaps hl => ?_
  refine word?_bind (by omega) (by omega) fun days hd => ?_
  refine remainder?_bind (by omega) (by omega) (by decide) fun inCycle hr => ?_
  refine word?_bind (by omega) (by omega) fun inCycle' hr' => ?_
  refine quotient?_bind (by omega) (by omega) (by decide) fun leaps' hl' => ?_
  refine word?_bind (by omega) (by omega) fun days' hd' => ?_
  refine word?_bind (by omega) (by omega) fun days'' hd'' => ?_
  rw [daysBefore?_eq months.2.1]
  exact word?_eq (by omega) (by omega) (by omega)

theorem century?_eq {n : Int} (least : 0 ≤ n) (most : n < 2 ^ 62) : century? n = some (century n) := by
  unfold century? century
  rw [Int.tdiv_eq_ediv_of_nonneg least, Int.tmod_eq_emod_of_nonneg least]
  dsimp only
  refine word?_bind (by omega) (by omega) fun cycles hc => ?_
  refine word?_bind (by omega) (by omega) fun year hy => ?_
  refine word?_bind (by omega) (by omega) fun day hd => ?_
  subst hd
  split
  next late =>
    rw [Int.tdiv_eq_ediv_of_nonneg (by omega), Int.tmod_eq_emod_of_nonneg (by omega)]
    refine word?_bind (by omega) (by omega) fun day hd => ?_
    refine quotient?_bind (by omega) (by omega) (by decide) fun centuries hq => ?_
    refine word?_bind (by omega) (by omega) fun years hz => ?_
    refine word?_bind (by omega) (by omega) fun year' hy' => ?_
    refine remainder?_bind (by omega) (by omega) (by decide) fun day' hd' => ?_
    subst hd hd'
    split
    next =>
      refine word?_bind (by omega) (by omega) fun day'' hd'' => ?_
      rw [hd'', hy', hz, hq, hy, hc]
    next => rw [hy', hz, hq, hy, hc]
  next => rw [hy, hc]

theorem span?_eq {p : Int × Int} (year : -2 ^ 62 ≤ p.1 ∧ p.1 < 2 ^ 62) (day : 0 ≤ p.2 ∧ p.2 < 2 ^ 61) :
    span? p = some (span p) := by
  unfold span? span
  rw [Int.tdiv_eq_ediv_of_nonneg day.1, Int.tmod_eq_emod_of_nonneg day.1]
  dsimp only
  refine word?_bind (by omega) (by omega) fun spans hs => ?_
  refine word?_bind (by omega) (by omega) fun years hz => ?_
  refine word?_bind (by omega) (by omega) fun year' hy => ?_
  refine word?_bind (by omega) (by omega) fun day' hd => ?_
  subst hd
  split
  next late =>
    rw [Int.tdiv_eq_ediv_of_nonneg (by omega), Int.tmod_eq_emod_of_nonneg (by omega)]
    refine word?_bind (by omega) (by omega) fun before hb => ?_
    refine quotient?_bind (by omega) (by omega) (by decide) fun years' hz' => ?_
    refine word?_bind (by omega) (by omega) fun year'' hy'' => ?_
    refine remainder?_bind (by omega) (by omega) (by decide) fun day'' hd'' => ?_
    rw [hd'', hy'', hz', hb, hy, hz, hs]
  next => rw [hy, hz, hs]

def yearAndDay? (n : Int) : Option (Int × Int) := do
  span? (← century? n)

theorem yearAndDay?_eq {n : Int} (least : 0 ≤ n) (most : n < 2 ^ 60) :
    yearAndDay? n = some (yearAndDay n) := by
  obtain ⟨-, first, last, -, total⟩ := century_spec least
  have year : -2 ^ 62 ≤ (century n).1 ∧ (century n).1 < 2 ^ 62 := by
    unfold yearStart at total
    omega
  rw [yearAndDay?, century?_eq least (by omega), yearAndDay_eq]
  exact span?_eq year (by omega)

theorem toGregorian?_eq_after? (valid : isDate year month day) :
    toGregorian? year month day = Date.after? (dayNumber year month day).toNat := by
  have least := (dayNumber_mem valid).1
  ext g
  rw [toGregorian?_eq_some_iff valid, Date.after?_eq_some_iff, Int.toNat_of_nonneg (by omega)]

theorem toGregorian?_next {year' month' day' : Nat} (valid : isDate year month day)
    (valid' : isDate year' month' day')
    (number : dayNumber year' month' day' = dayNumber year month day + 1) :
    toGregorian? year' month' day' = toGregorian? year month day >>= Date.next? := by
  have least := (dayNumber_mem valid).1
  have later : (dayNumber year' month' day').toNat = (dayNumber year month day).toNat + 1 := by omega
  rw [toGregorian?_eq_after? valid, toGregorian?_eq_after? valid', later, Date.after?]

theorem dayNumber_sum (year month day : Nat) :
    dayNumber year month day = -355668 + 365 * ((year : Int) + 1595) + 8 * (((year : Int) + 1595) / 33) +
      (((year : Int) + 1595) % 33 + 3) / 4 + day +
      if month < 7 then 31 * ((month : Int) - 1) else 30 * ((month : Int) - 7) + 186 := by
  simp only [dayNumber, daysBefore]
  split <;> omega

theorem isDate_next (valid : isDate year month day) (early : month ≤ 11) : isDate year (month + 1) 1 := by
  refine ⟨valid.1, le_refl 1, ?_⟩
  unfold monthLength
  repeat' split
  all_goals omega

/-- A Solar Hijri date is converted to the day that many days after the first of January of the year zero,
wherever that day is in the years that dates have. Its number is counted, and divided into a year and
a day that is never negative, without an overflow of 64 bits. Days of a month that follow each other, and
the last day of a month and the first of the next, are converted to days that follow each other. -/
theorem toGregorian?_counted (valid : isDate year month day) :
    let j : Int := year + 1595
    let n := -355668 + 365 * j + 8 * (j / 33) + (j % 33 + 3) / 4 + day +
      if month < 7 then 31 * ((month : Int) - 1) else 30 * ((month : Int) - 7) + 186
    0 < n ∧
    (year < 2 ^ 31 → (dayNumber? year month day >>= yearAndDay?) = some (yearAndDay n)) ∧
    0 ≤ (yearAndDay n).2 ∧
    (minYear ≤ (yearAndDay n).1 → (yearAndDay n).1 ≤ maxYear →
      ∃ g, toGregorian? year month day = some g ∧ g.year = (yearAndDay n).1) ∧
    toGregorian? year month day = Date.after? n.toNat ∧
    (day < monthLength month →
      toGregorian? year month (day + 1) = toGregorian? year month day >>= Date.next?) ∧
    (month ≤ 11 → day = monthLength month →
      toGregorian? year (month + 1) 1 = toGregorian? year month day >>= Date.next?) := by
  intro j n
  have number : n = dayNumber year month day := (dayNumber_sum year month day).symm
  obtain ⟨least, most⟩ := dayNumber_mem valid
  obtain ⟨positive, within, total⟩ := @yearAndDay_spec (dayNumber year month day) (by omega)
  rw [number]
  refine ⟨by omega, fun bound => ?_, positive, fun _ late => ?_, toGregorian?_eq_after? valid,
    fun inside => ?_, fun early last => ?_⟩
  · rw [dayNumber?_eq valid bound]
    exact yearAndDay?_eq (by omega) (by omega)
  · have bound := yearStart_mono (y := (yearAndDay (dayNumber year month day)).1 + 1) (z := maxYear + 1)
      (by omega)
    obtain ⟨g, found⟩ := Date.exists_after? (n := (dayNumber year month day).toNat) (by omega)
    have counted := Date.after?_eq_some_iff.1 found
    exact ⟨g, (toGregorian?_eq_after? valid).trans found,
      Date.year_eq_of_dayNumber (by omega) (by omega)⟩
  · refine toGregorian?_next valid ⟨valid.1, by omega, inside⟩ ?_
    simp only [dayNumber]
    omega
  · have months := month_mem valid
    refine toGregorian?_next valid (isDate_next valid early) ?_
    simp only [dayNumber, daysBefore, last, monthLength]
    repeat' split
    all_goals omega

theorem toGregorian?_counted_century : ∃ g : Date, (g.year, g.month, g.day) = (2000, 2, 29) ∧
    isDate 1378 12 10 ∧ toGregorian? 1378 12 10 = some g ∧ Date.after? 730544 = some g ∧
    (dayNumber? 1378 12 10 >>= yearAndDay?) = some (2000, 59) ∧
    toGregorian? 1378 12 11 = g.next? := by
  have valid : isDate 1378 12 10 := by decide
  have early : minYear ≤ (yearAndDay 730544).1 := by decide
  have late : (yearAndDay 730544).1 ≤ maxYear := by decide
  obtain ⟨-, words, -, found, count, following, -⟩ := toGregorian?_counted valid
  obtain ⟨g, converted, -⟩ := found early late
  have day : toGregorian? 1378 12 10 = some ⟨2000, 2, 29, by decide, by decide⟩ := rfl
  obtain rfl := Option.some.inj (day.symm.trans converted)
  refine ⟨_, rfl, valid, converted, count.symm.trans converted, words (by decide), ?_⟩
  rw [following (by decide), converted]
  rfl

end SolarHijri

end EntityQuery.Calendar
