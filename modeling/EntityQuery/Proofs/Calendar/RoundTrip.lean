import EntityQuery.Proofs.Calendar.Rfc3339

set_option autoImplicit false

namespace EntityQuery.Calendar

open EntityQuery.Text

namespace Time

-- No leap second, or one at the end of a minute.
def Regular (t : Time) : Prop :=
  1000000000 ≤ t.nanosecond → t.second = 59

instance (t : Time) : Decidable t.Regular :=
  inferInstanceAs (Decidable (1000000000 ≤ t.nanosecond → t.second = 59))

theorem regular_of_lt {t : Time} (below : t.nanosecond < 1000000000) : t.Regular :=
  fun leap => absurd leap below.not_ge

-- The time that a text shows. A leap second inside a minute shows as the second that follows it.
def shown (t : Time) : Time :=
  if regular : t.Regular then t
  else
    have inside := Classical.not_imp.1 regular
    ⟨t.hour, t.minute, t.second + 1, t.nanosecond - 1000000000, t.hour_lt, t.minute_lt,
      by have := t.second_lt; omega, by have := t.nanosecond_lt; omega⟩

theorem shown_cases (t : Time) : t.Regular ∧ t.shown = t ∨
    t.shown.Shows t.hour t.minute (t.second + 1) (t.nanosecond - 1000000000) ∧
      1000000000 ≤ t.nanosecond ∧ t.second ≠ 59 := by
  by_cases regular : t.Regular
  next => exact .inl ⟨regular, dif_pos regular⟩
  next =>
    rw [shown, dif_neg regular]
    exact .inr ⟨⟨rfl, rfl, rfl, rfl⟩, Classical.not_imp.1 regular⟩

theorem regular_shown (t : Time) : t.shown.Regular := by
  rcases t.shown_cases with ⟨regular, same⟩ | ⟨⟨-, -, -, nanosecond⟩, -⟩
  · rwa [same]
  · exact regular_of_lt (by have := t.nanosecond_lt; omega)

theorem shown_eq_self_iff {t : Time} : t.shown = t ↔ t.Regular := by
  refine ⟨fun same => same ▸ t.regular_shown, fun regular => dif_pos regular⟩

-- The second as it is written, which for a leap second is one that no clock shows.
theorem written_self {t : Time} (regular : t.Regular) :
    t.Written t.hour t.minute (t.second + t.nanosecond / 1000000000) (t.nanosecond % 1000000000) := by
  have bound := t.nanosecond_lt
  have clock := t.second_lt
  unfold Written Shows
  by_cases leap : 1000000000 ≤ t.nanosecond
  next =>
    have last := regular leap
    rw [if_pos (by omega)]
    exact ⟨rfl, rfl, last, by omega⟩
  next =>
    rw [if_neg (by omega)]
    exact ⟨rfl, rfl, by omega, by omega⟩

end Time

namespace DateTime

def FourDigits (d : DateTime) : Prop :=
  0 ≤ d.date.year ∧ d.date.year ≤ 9999

instance (d : DateTime) : Decidable d.FourDigits :=
  inferInstanceAs (Decidable (0 ≤ d.date.year ∧ d.date.year ≤ 9999))

def Returns (d : DateTime) : Prop :=
  d.FourDigits ∧ d.time.Regular

def shown (d : DateTime) : DateTime :=
  { d with time := d.time.shown }

theorem shown_eq_self_iff {d : DateTime} : d.shown = d ↔ d.time.Regular := by
  rw [← Time.shown_eq_self_iff]
  exact ⟨congrArg DateTime.time, fun same => by rw [shown, same]⟩

theorem render_shown (d : DateTime) : d.shown.render = d.render := by
  rcases d.time.shown_cases with ⟨-, same⟩ | ⟨⟨hour, minute, second, nanosecond⟩, leap, -⟩
  · rw [shown, same]
  · have carried : d.time.second + 1 + (d.time.nanosecond - 1000000000) / 1000000000 =
        d.time.second + d.time.nanosecond / 1000000000 := by omega
    have left : (d.time.nanosecond - 1000000000) % 1000000000 = d.time.nanosecond % 1000000000 := by
      omega
    simp only [render, shown, hour, minute, second, nanosecond, carried, left]

end DateTime

namespace Reading

theorem digits_padded {width n : Nat} (positive : 0 < width) (fits : n < 10 ^ width) :
    Digits width width (padded width n) n where
  each _ member := isDigit_of_mem_padded member
  least := (length_padded positive fits).ge
  most := (length_padded positive fits).le
  count := natOf_padded width n

theorem fraction_fractionText {n : Nat} (fits : n < 1000000000) : Fraction (fractionText n) n := by
  have shown {k m : Nat} (positive : 0 < k) (short : m < 10 ^ k) (exact : m * 10 ^ 9 / 10 ^ k = n) :
      Fraction ('.' :: padded k m) n := by
    have digits := digits_padded positive short
    have some : padded k m ≠ [] := List.ne_nil_of_length_pos (positive.trans_eq digits.full.symm)
    have fraction := Fraction.digits digits.each some
    rwa [digits.count, digits.full, exact] at fraction
  unfold fractionText
  split
  next blank => exact blank ▸ .whole
  next =>
    split
    next millis => exact shown (by decide) (by omega) (by omega)
    next =>
      split
      next micros => exact shown (by decide) (by omega) (by omega)
      next => exact shown (by decide) fits (by omega)

theorem Fraction.isClock {cs : List Char} {n : Nat} (fraction : Fraction cs n) : ∀ c ∈ cs, IsClock c := by
  cases fraction with
  | whole => simp
  | digits each => exact List.forall_mem_cons.2 ⟨.inr (by decide), fun c member => .inl (each c member)⟩

theorem zoned_render {d : DateTime} (years : d.FourDigits) (regular : d.time.Regular) :
    Zoned d.render d := by
  unfold DateTime.FourDigits at years
  have hours := d.time.hour_lt
  have minutes := d.time.minute_lt
  have seconds := d.time.second_lt
  have nanoseconds := d.time.nanosecond_lt
  have months := d.date.month_le
  have days := d.date.day_le
  have day : FullDate _ d.date :=
    .intro (digits_padded (by decide) (show d.date.year.natAbs < 10 ^ 4 by omega))
      (digits_padded (by decide) (by omega)) (digits_padded (by decide) (by omega)) ⟨by omega, rfl, rfl⟩
  have clock : FullTime _ d.time :=
    .intro (digits_padded (by decide) (by omega)) (digits_padded (by decide) (by omega))
      (digits_padded (by decide) (by omega)) (fraction_fractionText (by omega)) (Time.written_self regular)
  have instant : d.Instant 0 d := ⟨(sub_zero d.minutes).symm, rfl, rfl⟩
  have between : 'T' ∈ ['T', 't', ' '] := by decide
  have zulu : Offset ['Z'] 0 := .zulu (by decide)
  simpa [DateTime.render, yearText, years] using Zoned.intro day between clock zulu instant

end Reading

namespace DateTime

variable {d : DateTime}

def IsMark (c : Char) : Prop :=
  c.isDigit = true ∨ c ∈ ['-', 'T', ':', '.', 'Z']

theorem isMark_of_mem_render (years : d.FourDigits) : ∀ c ∈ d.render, IsMark c := by
  have digit (k n : Nat) : ∀ c ∈ padded k n, IsMark c := fun c inside =>
    .inl (isDigit_of_mem_padded inside)
  have mark : ∀ c ∈ ['-', 'T', ':', '.', 'Z'], IsMark c := fun c inside => .inr inside
  have fraction : ∀ c ∈ fractionText (d.time.nanosecond % 1000000000), IsMark c := by
    intro c inside
    rcases (Reading.fraction_fractionText (by omega)).isClock c inside with isDigit | colon
    · exact .inl isDigit
    · simp only [List.mem_cons, List.not_mem_nil, or_false] at colon
      rcases colon with rfl | rfl <;> exact mark _ (by decide)
  unfold FourDigits at years
  simp [render, yearText, years, or_imp, forall_and, mark]
  exact ⟨digit 4 _, digit 2 _, digit 2 _, digit 2 _, digit 2 _, digit 2 _, fraction⟩

theorem normalizeDigits_render (years : d.FourDigits) : normalizeDigits d.render = d.render := by
  apply normalizeDigits_eq_self
  intro c member
  rcases isMark_of_mem_render years c member with digit | mark
  · have bounds := Char.isDigit_iff_toNat.1 digit
    simp only [Char.reduceToNat] at bounds
    exact ⟨by rintro rfl; simp at bounds, by omega⟩
  · simp only [List.mem_cons, List.not_mem_nil, or_false] at mark
    rcases mark with rfl | rfl | rfl | rfl | rfl <;> decide

theorem read_render (years : d.FourDigits) : read d.render = some d.shown := by
  have shown : ∀ c ∈ d.render, isBlank c = false := by
    intro c member
    rcases isMark_of_mem_render years c member with digit | mark
    · exact isBlank_of_isDigit digit
    · simp only [List.mem_cons, List.not_mem_nil, or_false] at mark
      rcases mark with rfl | rfl | rfl | rfl | rfl <;> decide
  have trimmed : trim d.render = d.render :=
    trim_eq_self (fun c head => shown c (List.mem_of_head? head))
      fun c last => shown c (List.mem_of_getLast? last)
  have zoned := @Reading.zoned_render d.shown years d.time.regular_shown
  rw [d.render_shown] at zoned
  rw [read, trimmed, Reading.rfc3339_eq zoned]
  rfl

end DateTime

end EntityQuery.Calendar
