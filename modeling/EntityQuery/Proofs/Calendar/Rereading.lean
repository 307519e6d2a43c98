import EntityQuery.Proofs.Calendar.Grammar
import EntityQuery.Proofs.Calendar.SolarHijri
import EntityQuery.Proofs.Coercion

set_option autoImplicit false

namespace EntityQuery.Calendar

open EntityQuery.Text

namespace Reading

variable {sign : Char} {cs : List Char}

theorem number_signed {least most : Nat} (positive : 0 < least) (mark : sign.isDigit = false) :
    number least most (sign :: cs) = none := by
  have run : (spanDigits most (sign :: cs)).1 = [] := by
    cases most <;> simp [spanDigits, mark]
  simp [number, run, positive]

theorem rfc3339_signed (mark : sign.isDigit = false) : rfc3339 (sign :: cs) = none := by
  rw [rfc3339, number_signed (by decide) mark]
  rfl

theorem typed_signed (mark : sign.isDigit = false) : typed (sign :: cs) = none := by
  rw [typed, number_signed (by decide) mark]
  rfl

end Reading

namespace DateTime

variable {d : DateTime}

theorem render_signed (years : ¬d.FourDigits) :
    ∃ rest, d.render = (if d.date.year < 0 then '-' else '+') :: rest := by
  unfold FourDigits at years
  simp only [render, yearText, years, if_false, List.cons_append]
  exact ⟨_, rfl⟩

theorem read_signed {sign : Char} {rest : List Char} (mark : sign = '-' ∨ sign = '+') :
    read (sign :: rest) = none := by
  have shown : isBlank sign = false := by rcases mark with rfl | rfl <;> decide
  have other : sign.isDigit = false := by rcases mark with rfl | rfl <;> decide
  have first := head?_trim (sign :: rest)
  rw [List.find?_cons_of_pos (by simp [shown])] at first
  obtain ⟨rest', trimmed⟩ := List.head?_eq_some_iff.1 first
  rw [read, trimmed, Reading.rfc3339_signed other, Reading.typed_signed other]
  rfl

theorem read_render_eq (d : DateTime) :
    read d.render = if d.FourDigits then some d.shown else none := by
  split
  next years => exact read_render years
  next years =>
    obtain ⟨rest, signed⟩ := render_signed years
    rw [signed]
    exact read_signed (by split <;> simp)

-- A sign stays where it is when digits are normalized.
theorem read_normalized_eq (d : DateTime) :
    read (normalizeDigits d.render) = if d.FourDigits then some d.shown else none := by
  split
  next years => rw [normalizeDigits_render years, read_render years]
  next years =>
    obtain ⟨rest, signed⟩ := render_signed years
    have kept : normalizeDigits d.render =
        (if d.date.year < 0 then '-' else '+') :: normalizeDigits rest := by
      rw [signed]
      split <;> rfl
    rw [kept]
    exact read_signed (by split <;> simp)

theorem read_render_eq_self_iff (d : DateTime) : read d.render = some d ↔ d.Returns := by
  rw [read_render_eq, Returns, ← shown_eq_self_iff]
  split <;> simp [*]

end DateTime

namespace Date

-- The days that some text is read as: those of the years 0 to 9999, the one before and the one
-- after.
def Readable (d : Date) : Prop :=
  0 ≤ d.year ∧ d.year ≤ 9999 ∨ d.year = -1 ∧ d.month = 12 ∧ d.day = 31 ∨
    d.year = 10000 ∧ d.month = 1 ∧ d.day = 1

theorem year_of_ofParts? {year : Int} {month day : Nat} {d : Date}
    (found : ofParts? year month day = some d) : d.year = year :=
  (ofParts?_eq_some_iff.1 found).1

theorem previous?_cases {d e : Date} (before : d.previous? = some e) :
    e.year = d.year ∨ e.year = d.year - 1 ∧ e.month = 12 ∧ e.day = 31 := by
  unfold previous? at before
  split at before
  next => exact .inl (year_of_ofParts? before)
  next =>
    split at before
    next => exact .inl (year_of_ofParts? before)
    next => exact .inr (ofParts?_eq_some_iff.1 before)

theorem next?_cases {d e : Date} (after : d.next? = some e) :
    e.year = d.year ∨ e.year = d.year + 1 ∧ e.month = 1 ∧ e.day = 1 := by
  unfold next? at after
  split at after
  next => exact .inl (year_of_ofParts? after)
  next =>
    split at after
    next => exact .inl (year_of_ofParts? after)
    next => exact .inr (ofParts?_eq_some_iff.1 after)

end Date

theorem SolarHijri.toGregorian?_year {year month day : Nat} {d : Date} (early : year < 1700)
    (found : toGregorian? year month day = some d) : 0 ≤ d.year ∧ d.year ≤ 9999 := by
  have valid := isDate_of_toGregorian? found
  have number := (toGregorian?_eq_some_iff valid).1 found
  obtain ⟨least, most⟩ := dayNumber_mem valid
  obtain ⟨start, next⟩ := d.dayNumber_mem
  unfold yearStart at start next
  omega

theorem DateTime.Instant.date_cases {d e : DateTime} {east : Int} (moved : d.Instant east e)
    (least : -1440 < east) (most : east < 1440) :
    e.date = d.date ∨ d.date.previous? = some e.date ∨ d.date.next? = some e.date := by
  have hours := d.time.hour_lt
  have minutes := d.time.minute_lt
  have hours' := e.time.hour_lt
  have minutes' := e.time.minute_lt
  have moved := moved.1
  unfold DateTime.minutes at moved
  rw [Date.previous?_eq_some_iff, Date.next?_eq_some_iff]
  rcases Int.lt_trichotomy e.date.dayNumber d.date.dayNumber with earlier | same | later
  · exact .inr (.inl (by omega))
  · exact .inl (Date.eq_of_dayNumber same)
  · exact .inr (.inr (by omega))

namespace Reading

variable {cs : List Char} {d : DateTime}

theorem Digits.count_lt {least most n : Nat} {ds : List Char} (digits : Digits least most ds n) :
    n < 10 ^ most := by
  have below := natOf_lt digits.each
  rw [digits.count] at below
  exact below.trans_le (Nat.pow_le_pow_right (by decide) digits.most)

theorem Zoned.readable (written : Zoned cs d) : d.date.Readable := by
  cases written with
  | intro day _ _ offset instant =>
    cases day with
    | intro years _ _ names =>
      have few := years.count_lt
      have year := names.1
      have bounds := offset.bounds
      unfold Date.Readable
      rcases instant.date_cases bounds.1 bounds.2 with same | before | after
      · rw [same]
        exact .inl (by dsimp only; omega)
      · have cases := Date.previous?_cases before
        dsimp only at cases
        omega
      · have cases := Date.next?_cases after
        dsimp only at cases
        omega

-- Second sixty is a leap second at the end of its minute, and an offset leaves the seconds alone.
theorem Zoned.regular (written : Zoned cs d) : d.time.Regular := by
  cases written with
  | intro _ _ clock _ instant =>
    cases clock with
    | intro _ _ _ fraction written =>
      obtain ⟨-, second, nanosecond⟩ := instant
      have below := fraction.lt
      unfold Time.Written Time.Shows at written
      unfold Time.Regular
      dsimp only at second nanosecond
      split at written <;> omega

theorem Typed.regular (written : Typed cs d) : d.time.Regular := by
  cases written with
  | intro _ clock =>
    cases clock with
    | none => exact Time.regular_of_lt (show Time.midnight.nanosecond < 1000000000 by decide)
    | clock _ _ _ seconds _ shows => exact Time.regular_of_lt (shows.2.2.2.trans_lt seconds.lt)

theorem Typed.readable (written : Typed cs d) : d.date.Readable := by
  cases written with
  | intro day _ =>
    cases day with
    | intro years _ _ _ named =>
      have few := years.count_lt
      unfold Named at named
      split at named
      next =>
        have year := named.1
        exact .inl (by dsimp only; omega)
      next early => exact .inl (SolarHijri.toGregorian?_year (Nat.lt_of_not_le early) named)

end Reading

namespace DateTime

variable {d : DateTime}

theorem readable_of_read {cs : List Char} (found : read cs = some d) : d.date.Readable :=
  (read_eq_some_iff.1 found).elim (fun zoned => zoned.readable) fun typed => typed.readable

theorem regular_of_read {cs : List Char} (found : read cs = some d) : d.time.Regular :=
  (read_eq_some_iff.1 found).elim (fun zoned => zoned.regular) fun typed => typed.regular

/-- From its text, in the digits it was written in or normalized, a date operand is read as the text shows
it if its year has four digits; in all other years nothing is read, so that the stored operand is refused.
It comes back as it was if and only if, besides, it has no leap second inside a minute. The dates that text
stands for have none, and years of four digits but for the day before and the day after these. -/
theorem read_plainText (d : DateTime) :
    (read (Operand.date d).plainText.toList = if d.FourDigits then some d.shown else none) ∧
    (read (normalizeDigits (Operand.date d).plainText.toList) =
      if d.FourDigits then some d.shown else none) ∧
    (∀ nullable, (Operand.date d).stored.coerce .date nullable =
      if d.FourDigits then .ok (.date d.shown) else Operand.refused (Operand.date d).stored .date) ∧
    (read (Operand.date d).plainText.toList = some d ↔ d.FourDigits ∧ d.time.Regular) ∧
    ∀ cs, read cs = some d → d.date.Readable ∧ d.time.Regular := by
  have text : (Operand.date d).plainText.toList = d.render := String.toList_ofList
  rw [text]
  refine ⟨d.read_render_eq, d.read_normalized_eq, fun nullable => ?_, d.read_render_eq_self_iff,
    fun cs found => ⟨readable_of_read found, regular_of_read found⟩⟩
  have plain : (Operand.string d.text).plainText.toList = d.render := String.toList_ofList
  simp only [Operand.stored, Operand.coerce, Operand.isNull, Operand.isOf, Bool.or_false,
    Bool.false_eq_true, if_false, plain, d.read_normalized_eq]
  by_cases years : d.FourDigits
  next => simp only [years, if_true]
  next => simp only [years, if_false]

theorem read_plainText_early :
    let d : DateTime := ⟨⟨1600, 12, 31, by decide, by decide⟩,
      ⟨23, 59, 59, 1500000000, by decide, by decide, by decide, by decide⟩⟩
    read (Operand.date d).plainText.toList = some d ∧
      (Operand.date d).stored.coerce .date false = .ok (.date d) ∧
      read "1601-01-01 00:59:60.5+01:00".toList = some d ∧ d.date.Readable := by
  intro d
  have found : read "1601-01-01 00:59:60.5+01:00".toList = some d := by decide
  obtain ⟨back, -, kept, -, readable⟩ := d.read_plainText
  exact ⟨back, kept false, found, (readable _ found).1⟩

-- The day after the last one with a year of four digits, which only an offset reaches.
theorem read_plainText_beyond : ∃ d : DateTime,
    read "9999-12-31T23:59:59-00:01".toList = some d ∧ d.date.year = 10000 ∧
      read (Operand.date d).plainText.toList = none ∧
      read (normalizeDigits (Operand.date d).plainText.toList) = none := by
  refine ⟨⟨⟨10000, 1, 1, by decide, by decide⟩,
    ⟨0, 0, 59, 0, by decide, by decide, by decide, by decide⟩⟩, ?_, ?_, ?_, ?_⟩
  all_goals decide

end DateTime

end EntityQuery.Calendar
