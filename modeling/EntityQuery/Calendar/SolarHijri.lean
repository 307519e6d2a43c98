import EntityQuery.Calendar.Date

set_option autoImplicit false

namespace EntityQuery.Calendar.SolarHijri

def monthLength (month : Nat) : Nat :=
  if month = 0 then 0 else if month ≤ 6 then 31 else if month ≤ 12 then 30 else 0

def isDate (year month day : Nat) : Prop :=
  1 ≤ year ∧ 1 ≤ day ∧ day ≤ monthLength month

instance (year month day : Nat) : Decidable (isDate year month day) :=
  inferInstanceAs (Decidable (_ ∧ _ ∧ _))

def daysBefore (month : Nat) : Int :=
  if month < 7 then ((month : Int) - 1) * 31 else ((month : Int) - 7) * 30 + 186

-- Days since the first of January of the Gregorian year zero. Shifting the year by 1595 starts a
-- cycle of thirty-three years, which has eight leap days.
def dayNumber (year month day : Nat) : Int :=
  let shifted : Int := year + 1595
  365 * shifted + shifted / 33 * 8 + (shifted % 33 + 3) / 4 + day + daysBefore month - 355668

-- The Gregorian year a day number falls into, and the days since its first of January. Whole cycles
-- of 400 years are taken off, then centuries, four-year spans and years. A century that does not
-- begin with a leap year lacks one day at its start, which is put in so that its four-year spans
-- are as long as the others.
def yearAndDay (n : Int) : Int × Int :=
  let year := 400 * n.tdiv 146097
  let day := n.tmod 146097
  let (year, day) :=
    if day > 36524 then
      let inCentury := (day - 1).tmod 36524
      (year + 100 * (day - 1).tdiv 36524, if inCentury ≥ 365 then inCentury + 1 else inCentury)
    else
      (year, day)
  let year := year + 4 * day.tdiv 1461
  let day := day.tmod 1461
  if day > 365 then (year + (day - 1).tdiv 365, (day - 1).tmod 365) else (year, day)

def toGregorian? (year month day : Nat) : Option Date :=
  if isDate year month day then
    let (y, d) := yearAndDay (dayNumber year month day)
    if d < 0 then none else Date.ofYearDay? y d.toNat
  else
    none

end EntityQuery.Calendar.SolarHijri
