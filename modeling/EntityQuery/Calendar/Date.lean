set_option autoImplicit false

namespace EntityQuery.Calendar

def isLeap (year : Int) : Bool :=
  year % 4 == 0 && (year % 100 != 0 || year % 400 == 0)

def monthLengths (leap : Bool) : List Nat :=
  [31, if leap then 29 else 28, 31, 30, 31, 30, 31, 31, 30, 31, 30, 31]

def daysInMonth (year : Int) (month : Nat) : Nat :=
  if month = 0 then 0 else (monthLengths (isLeap year)).getD (month - 1) 0

def minYear : Int := -262143

def maxYear : Int := 262142

structure Date where
  year : Int
  month : Nat
  day : Nat
  year_mem : minYear ≤ year ∧ year ≤ maxYear
  day_mem : 1 ≤ day ∧ day ≤ daysInMonth year month
  deriving DecidableEq, Repr

namespace Date

def ofParts? (year : Int) (month day : Nat) : Option Date :=
  if h : (minYear ≤ year ∧ year ≤ maxYear) ∧ 1 ≤ day ∧ day ≤ daysInMonth year month then
    some ⟨year, month, day, h.1, h.2⟩
  else
    none

theorem ofParts?_eq_some_iff {year : Int} {month day : Nat} {d : Date} :
    ofParts? year month day = some d ↔ d.year = year ∧ d.month = month ∧ d.day = day := by
  unfold ofParts?
  constructor
  · split
    · rintro ⟨⟩
      exact ⟨rfl, rfl, rfl⟩
    · simp
  · rintro ⟨rfl, rfl, rfl⟩
    rw [dif_pos ⟨d.year_mem, d.day_mem⟩]

def splitMonths : List Nat → Nat → Nat → Option (Nat × Nat)
  | [], _, _ => none
  | len :: rest, month, index =>
    if index < len then some (month, index + 1) else splitMonths rest (month + 1) (index - len)

def ofYearDay? (year : Int) (index : Nat) : Option Date := do
  let (month, day) ← splitMonths (monthLengths (isLeap year)) 1 index
  ofParts? year month day

def next? (d : Date) : Option Date :=
  if d.day < daysInMonth d.year d.month then ofParts? d.year d.month (d.day + 1)
  else if d.month < 12 then ofParts? d.year (d.month + 1) 1
  else ofParts? (d.year + 1) 1 1

def previous? (d : Date) : Option Date :=
  if 1 < d.day then ofParts? d.year d.month (d.day - 1)
  else if 1 < d.month then ofParts? d.year (d.month - 1) (daysInMonth d.year (d.month - 1))
  else ofParts? (d.year - 1) 12 31

-- Days since the first of January of the year zero.
def dayNumber (d : Date) : Int :=
  let leapDays := (d.year + 3) / 4 - (d.year + 99) / 100 + (d.year + 399) / 400
  let monthDays : Nat := ((monthLengths (isLeap d.year)).take (d.month - 1)).foldl (· + ·) 0
  365 * d.year + leapDays + monthDays + (d.day - 1)

end Date

-- A time of day. A leap second has a thousand million nanoseconds or more, after any second.
structure Time where
  hour : Nat
  minute : Nat
  second : Nat
  nanosecond : Nat
  hour_lt : hour < 24
  minute_lt : minute < 60
  second_lt : second < 60
  nanosecond_lt : nanosecond < 2000000000
  deriving DecidableEq, Repr

namespace Time

-- From its parts a leap second is made at the end of a minute only.
def ofParts? (hour minute second nanosecond : Nat) : Option Time :=
  if h : hour < 24 ∧ minute < 60 ∧ second < 60 ∧ nanosecond < 2000000000 ∧
      (1000000000 ≤ nanosecond → second = 59) then
    some ⟨hour, minute, second, nanosecond, h.1, h.2.1, h.2.2.1, h.2.2.2.1⟩
  else
    none

def midnight : Time :=
  ⟨0, 0, 0, 0, by decide, by decide, by decide, by decide⟩

def atMinute (t : Time) (m : Nat) : Time :=
  { t with
    hour := m / 60 % 24
    minute := m % 60
    hour_lt := Nat.mod_lt _ (by decide)
    minute_lt := Nat.mod_lt _ (by decide) }

end Time

structure DateTime where
  date : Date
  time : Time
  deriving DecidableEq, Repr

namespace DateTime

def ofDate (d : Date) : DateTime :=
  ⟨d, .midnight⟩

def compare : DateTime → DateTime → Ordering :=
  compareLex (compareOn (·.date.year)) <|
  compareLex (compareOn (·.date.month)) <|
  compareLex (compareOn (·.date.day)) <|
  compareLex (compareOn (·.time.hour)) <|
  compareLex (compareOn (·.time.minute)) <|
  compareLex (compareOn (·.time.second)) (compareOn (·.time.nanosecond))

theorem compare_swap (a b : DateTime) : b.compare a = (a.compare b).swap := by
  simp only [compare, compareLex, compareOn, Ordering.swap_then, Nat.compare_swap, Int.compare_swap]

theorem compare_eq_iff {a b : DateTime} : a.compare b = .eq ↔ a = b := by
  rcases a with ⟨⟨_, _, _, _, _⟩, ⟨_, _, _, _, _, _, _, _⟩⟩
  rcases b with ⟨⟨_, _, _, _, _⟩, ⟨_, _, _, _, _, _, _, _⟩⟩
  simp [compare, compareLex, compareOn, Ordering.then_eq_eq, and_assoc]

end DateTime

end EntityQuery.Calendar
