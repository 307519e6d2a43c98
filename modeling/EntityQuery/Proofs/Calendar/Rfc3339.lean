import EntityQuery.Calendar.Text
import EntityQuery.Proofs.Calendar.DayCount

set_option autoImplicit false

namespace EntityQuery.Calendar

open EntityQuery.Text

def Time.Shows (t : Time) (hour minute second nanosecond : Nat) : Prop :=
  t.hour = hour ∧ t.minute = minute ∧ t.second = second ∧ t.nanosecond = nanosecond

theorem Time.ofParts?_eq_some_iff {hour minute second nanosecond : Nat} {t : Time}
    (ends : 1000000000 ≤ nanosecond → second = 59) :
    ofParts? hour minute second nanosecond = some t ↔ t.Shows hour minute second nanosecond := by
  unfold ofParts? Shows
  constructor
  · split
    · rintro ⟨⟩
      exact ⟨rfl, rfl, rfl, rfl⟩
    · simp
  · rintro ⟨rfl, rfl, rfl, rfl⟩
    rw [dif_pos ⟨t.hour_lt, t.minute_lt, t.second_lt, t.nanosecond_lt, ends⟩]

-- The time of day that is written so. Second sixty is a leap second.
def Time.Written (t : Time) (hour minute second nanosecond : Nat) : Prop :=
  if second = 60 then t.Shows hour minute 59 (1000000000 + nanosecond)
  else t.Shows hour minute second nanosecond

theorem Time.atMinute_eq_iff {t u : Time} {m : Nat} (day : m < 1440) : t.atMinute m = u ↔
    m = u.hour * 60 + u.minute ∧ u.second = t.second ∧ u.nanosecond = t.nanosecond := by
  have hours := u.hour_lt
  have minutes := u.minute_lt
  rw [Time.mk.injEq]
  simp only [atMinute]
  omega

def Date.Names (d : Date) (year month day : Nat) : Prop :=
  d.year = year ∧ d.month = month ∧ d.day = day

namespace DateTime

def minutes (d : DateTime) : Int :=
  d.date.dayNumber * 1440 + d.time.hour * 60 + d.time.minute

-- The second date is the instant in UTC that the first one is at a place so many minutes east.
def Instant (d : DateTime) (east : Int) (utc : DateTime) : Prop :=
  utc.minutes = d.minutes - east ∧ utc.time.second = d.time.second ∧
    utc.time.nanosecond = d.time.nanosecond

end DateTime

namespace Reading

variable {cs rest : List Char} {d e : DateTime}

theorem toUtc_eq_some_iff {east : Int} (least : -1440 < east) (most : east < 1440) :
    toUtc d east = some e ↔ d.Instant east e := by
  have hours := d.time.hour_lt
  have minutes := d.time.minute_lt
  have hours' := e.time.hour_lt
  have minutes' := e.time.minute_lt
  have clock {day : Date} {m : Int} (first : 0 ≤ m) (last : m < 1440) :
      (⟨day, d.time.atMinute m.toNat⟩ : DateTime) = e ↔ day = e.date ∧
        m = e.time.hour * 60 + e.time.minute ∧ e.time.second = d.time.second ∧
          e.time.nanosecond = d.time.nanosecond := by
    rcases e with ⟨date, time⟩
    rw [DateTime.mk.injEq, Time.atMinute_eq_iff (by omega)]
    exact and_congr_right' (and_congr_left' (by dsimp only; omega))
  unfold DateTime.Instant DateTime.minutes
  simp only [toUtc]
  split
  next =>
    refine Option.map_eq_some_iff.trans ⟨?_, ?_⟩
    · rintro ⟨day, before, set⟩
      have number := Date.previous?_eq_some_iff.1 before
      obtain ⟨rfl, total, rest⟩ := (clock (by omega) (by omega)).1 set
      exact ⟨by omega, rest⟩
    · rintro ⟨total, rest⟩
      exact ⟨e.date, Date.previous?_eq_some_iff.2 (by omega),
        (clock (by omega) (by omega)).2 ⟨rfl, by omega, rest⟩⟩
  next =>
    split
    next =>
      refine Option.map_eq_some_iff.trans ⟨?_, ?_⟩
      · rintro ⟨day, after, set⟩
        have number := Date.next?_eq_some_iff.1 after
        obtain ⟨rfl, total, rest⟩ := (clock (by omega) (by omega)).1 set
        exact ⟨by omega, rest⟩
      · rintro ⟨total, rest⟩
        exact ⟨e.date, Date.next?_eq_some_iff.2 (by omega),
          (clock (by omega) (by omega)).2 ⟨rfl, by omega, rest⟩⟩
    next =>
      refine (Option.some_inj.trans (clock (by omega) (by omega))).trans ⟨?_, ?_⟩
      · rintro ⟨same, total, rest⟩
        rw [same]
        exact ⟨by omega, rest⟩
      · rintro ⟨total, rest⟩
        exact ⟨Date.eq_of_dayNumber (by omega), by omega, rest⟩

structure Digits (least most : Nat) (ds : List Char) (n : Nat) : Prop where
  each : ∀ c ∈ ds, c.isDigit = true
  least : least ≤ ds.length
  most : ds.length ≤ most
  count : natOf ds = n

theorem Digits.full {k n : Nat} {ds : List Char} (digits : Digits k k ds n) : ds.length = k :=
  le_antisymm digits.most digits.least

def Stops (rest : List Char) : Prop :=
  ∀ c ∈ rest.head?, c.isDigit = false

theorem stops_cons {c : Char} (other : c.isDigit = false) : Stops (c :: rest) := by
  simpa [Stops] using other

theorem bind_of_eq_some {α β : Type} {x : Option α} {a : α} {f : α → Option β} {b : Option β}
    (found : x = some a) (rest : f a = b) : x >>= f = b := by
  rw [found]
  exact rest

theorem some_of_bind {α β : Type} {x : Option α} {f : α → Option β} {b : β}
    (found : x >>= f = some b) : ∃ a, x = some a ∧ f a = some b :=
  Option.bind_eq_some_iff.1 found

variable {least most n : Nat}

theorem exists_digits_of_number (read : number least most cs = some (n, rest)) :
    ∃ ds, cs = ds ++ rest ∧ Digits least most ds n := by
  unfold number spanDigits at read
  dsimp only at read
  split at read
  next => cases read
  next some =>
    obtain ⟨rfl, rfl⟩ := Prod.mk.inj (Option.some.inj read)
    have front : (cs.take most).takeWhile Char.isDigit <+: cs :=
      (List.takeWhile_prefix _).trans (List.take_prefix _ _)
    have part := (List.takeWhile_sublist Char.isDigit (l := cs.take most)).length_le
    have taken := List.length_take_le most cs
    exact ⟨_, (List.prefix_iff_eq_append.1 front).symm,
      fun c member => List.mem_takeWhile_imp member, by omega, by omega, rfl⟩

theorem number_append {ds : List Char} (digits : Digits least most ds n)
    (ends : ds.length = most ∨ Stops rest) : number least most (ds ++ rest) = some (n, rest) := by
  have after : (rest.take (most - ds.length)).takeWhile Char.isDigit = [] := by
    rcases ends with full | stops
    · simp [full]
    · cases rest with
      | nil => simp
      | cons c cs => cases most - ds.length <;> simp [stops c rfl]
  have run : ((ds ++ rest).take most).takeWhile Char.isDigit = ds := by
    rw [List.take_append, List.take_of_length_le digits.most, List.takeWhile_append_of_pos digits.each,
      after, List.append_nil]
  simp [number, spanDigits, run, digits.least, digits.count]

theorem oneOf_cons {c : Char} {marks : List Char} (member : c ∈ marks) (rest : List Char) :
    oneOf marks (c :: rest) = some (c, rest) := by
  simp [oneOf, member]

theorem oneOf_inv {marks : List Char} {c : Char} (read : oneOf marks cs = some (c, rest)) :
    c ∈ marks ∧ cs = c :: rest := by
  cases cs with
  | nil => cases read
  | cons d ds =>
    by_cases member : d ∈ marks
    next =>
      simp only [oneOf, member, if_true, Option.some.injEq, Prod.mk.injEq] at read
      obtain ⟨rfl, rfl⟩ := read
      exact ⟨member, rfl⟩
    next => simp [oneOf, member] at read

theorem number_bind {α : Type} {after : Nat × List Char → Option α} {r : α}
    (read : number least most cs >>= after = some r) :
    ∃ ds n rest, cs = ds ++ rest ∧ Digits least most ds n ∧ after (n, rest) = some r := by
  obtain ⟨⟨n, rest⟩, first, read⟩ := some_of_bind read
  obtain ⟨ds, text, digits⟩ := exists_digits_of_number first
  exact ⟨ds, n, rest, text, digits, read⟩

theorem oneOf_bind {α : Type} {marks : List Char} {after : Char × List Char → Option α} {r : α}
    (read : oneOf marks cs >>= after = some r) :
    ∃ c rest, c ∈ marks ∧ cs = c :: rest ∧ after (c, rest) = some r := by
  obtain ⟨⟨c, rest⟩, first, read⟩ := some_of_bind read
  obtain ⟨member, text⟩ := oneOf_inv first
  exact ⟨c, rest, member, text, read⟩

-- Up to nine digits after a point are an exact part of a second.
theorem nanoseconds_short {ds : List Char} (short : ds.length ≤ 9) :
    nanoseconds ds * 10 ^ ds.length = natOf ds * 10 ^ 9 := by
  have padded : (ds ++ List.replicate 9 '0').take 9 = ds ++ List.replicate (9 - ds.length) '0' := by
    rw [List.take_append, List.take_of_length_le short, List.take_replicate, min_eq_left (by omega)]
  have zeros (k : Nat) : natOf (List.replicate k '0') = 0 := by simp [natOf]
  have scale : 10 ^ 9 = 10 ^ (9 - ds.length) * 10 ^ ds.length := by
    rw [← Nat.pow_add, Nat.sub_add_cancel short]
  rw [nanoseconds, padded, natOf_append, zeros, List.length_replicate, scale, Nat.add_zero]
  ac_rfl

theorem nanoseconds_eq {ds : List Char} (digits : ∀ c ∈ ds, c.isDigit = true) :
    nanoseconds ds = natOf ds * 10 ^ 9 / 10 ^ ds.length := by
  by_cases short : ds.length ≤ 9
  next => exact (Nat.div_eq_of_eq_mul_left (Nat.pow_pos (by decide)) (nanoseconds_short short).symm).symm
  next =>
    have kept : (ds ++ List.replicate 9 '0').take 9 = ds.take 9 := List.take_append_of_le_length (by omega)
    have parts := natOf_append (ds.take 9) (ds.drop 9)
    rw [List.take_append_drop, List.length_drop] at parts
    have below : natOf (ds.drop 9) < 10 ^ (ds.length - 9) := by
      have less : natOf (ds.drop 9) < _ := natOf_lt fun c member => digits c (List.mem_of_mem_drop member)
      rwa [List.length_drop] at less
    have scale : 10 ^ ds.length = 10 ^ (ds.length - 9) * 10 ^ 9 := by
      rw [← Nat.pow_add, Nat.sub_add_cancel (by omega)]
    rw [nanoseconds, kept, scale, Nat.mul_div_mul_right _ _ (by decide), parts,
      Nat.mul_add_div (Nat.pow_pos (by decide)), Nat.div_eq_of_lt below, Nat.add_zero]

inductive Fraction : List Char → Nat → Prop where
  | whole : Fraction [] 0
  | digits {ds : List Char} (each : ∀ c ∈ ds, c.isDigit = true) (some : ds ≠ []) :
      Fraction ('.' :: ds) (natOf ds * 10 ^ 9 / 10 ^ ds.length)

theorem Fraction.lt {n : Nat} (fraction : Fraction cs n) : n < 1000000000 := by
  cases fraction with
  | whole => decide
  | digits each => exact Nat.div_lt_of_lt_mul (Nat.mul_lt_mul_of_pos_right (natOf_lt each) (by decide))

inductive Distance : List Char → Int → Prop where
  | intro {hs ms : List Char} {hours minutes : Nat} (first : Digits 2 2 hs hours)
      (second : Digits 2 2 ms minutes) (most : minutes ≤ 59 ∧ hours ≤ 23) :
      Distance (hs ++ ':' :: ms) (hours * 60 + minutes)

inductive Offset : List Char → Int → Prop where
  | zulu {c : Char} (mark : c ∈ ['Z', 'z']) : Offset [c] 0
  | east {ds : List Char} {n : Int} (distance : Distance ds n) : Offset ('+' :: ds) n
  | west {c : Char} {ds : List Char} {n : Int} (mark : c ∈ ['-', '\u2212']) (distance : Distance ds n) :
      Offset (c :: ds) (-n)

def distance (positive : Bool) (cs : List Char) : Option Int := do
  let (hours, cs) ← number 2 2 cs
  let (_, cs) ← oneOf [':'] cs
  let (minutes, cs) ← number 2 2 cs
  if minutes ≤ 59 ∧ hours ≤ 23 ∧ cs = [] then
    let total : Int := hours * 60 + minutes
    some (if positive then total else -total)
  else
    none

theorem distance_inv {positive : Bool} {east : Int} (read : distance positive cs = some east) :
    ∃ n, Distance cs n ∧ east = if positive then n else -n := by
  obtain ⟨hs, hours, _, text, first, read⟩ := number_bind read
  obtain ⟨_, _, mark, text', read⟩ := oneOf_bind read
  obtain ⟨ms, minutes, _, text'', second, read⟩ := number_bind read
  dsimp only at read
  split at read
  next bounds =>
    obtain ⟨most, most', ends⟩ := bounds
    rw [text, text', text'', ends, List.append_nil, List.mem_singleton.1 mark]
    exact ⟨_, .intro first second ⟨most, most'⟩, (Option.some.inj read).symm⟩
  next => cases read

theorem distance_eq (positive : Bool) {n : Int} (written : Distance cs n) :
    distance positive cs = some (if positive then n else -n) := by
  cases written with
  | @intro hs ms hours minutes first second most =>
    have last : number 2 2 (ms ++ []) = some (minutes, []) := number_append second (.inl second.full)
    rw [List.append_nil] at last
    refine bind_of_eq_some (number_append first (.inl first.full)) <|
      bind_of_eq_some (oneOf_cons (List.mem_singleton_self ':') ms) <| bind_of_eq_some last ?_
    exact if_pos ⟨most.1, most.2, rfl⟩

theorem offset_inv {east : Int} (read : offset cs = some east) : Offset cs east := by
  unfold offset at read
  split at read
  next => exact Option.some.inj read ▸ .zulu (by decide)
  next => exact Option.some.inj read ▸ .zulu (by decide)
  next =>
    dsimp only at read
    split at read
    next plus =>
      obtain ⟨n, found, rfl⟩ := @distance_inv _ true _ read
      exact plus ▸ .east found
    next =>
      split at read
      next minus =>
        obtain ⟨n, found, rfl⟩ := @distance_inv _ false _ read
        exact .west (by simpa using minus) found
      next => cases read
  next => cases read

theorem offset_eq {east : Int} (written : Offset cs east) : offset cs = some east := by
  cases written with
  | zulu mark =>
    simp only [List.mem_cons, List.not_mem_nil, or_false] at mark
    rcases mark with rfl | rfl <;> rfl
  | east found => exact distance_eq true found
  | west mark found =>
    simp only [List.mem_cons, List.not_mem_nil, or_false] at mark
    rcases mark with rfl | rfl <;> exact distance_eq false found

inductive FullDate : List Char → Date → Prop where
  | intro {ys ms ds : List Char} {year month day : Nat} {date : Date} (years : Digits 4 4 ys year)
      (months : Digits 2 2 ms month) (days : Digits 2 2 ds day) (names : date.Names year month day) :
      FullDate (ys ++ '-' :: (ms ++ '-' :: ds)) date

inductive FullTime : List Char → Time → Prop where
  | intro {hs ms ss fs : List Char} {hour minute second nanosecond : Nat} {time : Time}
      (hours : Digits 2 2 hs hour) (minutes : Digits 2 2 ms minute) (seconds : Digits 2 2 ss second)
      (fraction : Fraction fs nanosecond) (written : time.Written hour minute second nanosecond) :
      FullTime (hs ++ ':' :: (ms ++ ':' :: (ss ++ fs))) time

inductive Zoned : List Char → DateTime → Prop where
  | intro {ds ts os : List Char} {mark : Char} {date : Date} {time : Time} {east : Int} {utc : DateTime}
      (day : FullDate ds date) (between : mark ∈ ['T', 't', ' ']) (clock : FullTime ts time)
      (offset : Offset os east) (instant : (DateTime.mk date time).Instant east utc) :
      Zoned (ds ++ mark :: (ts ++ os)) utc

theorem Offset.bounds {east : Int} (written : Offset cs east) : -1440 < east ∧ east < 1440 := by
  have distance {ds : List Char} {n : Int} (written : Distance ds n) : 0 ≤ n ∧ n < 1440 := by
    cases written
    omega
  cases written with
  | zulu => decide
  | east found | west _ found =>
    have bounds := distance found
    omega

-- What follows the fraction of a second: the offset, and the date from all that was read.
def conclude (year month day hour minute second nanosecond : Nat) (cs : List Char) : Option DateTime := do
  let east ← offset cs
  let date ← Date.ofParts? year month day
  let time ←
    if second = 60 then Time.ofParts? hour minute 59 (1000000000 + nanosecond)
    else Time.ofParts? hour minute second nanosecond
  toUtc ⟨date, time⟩ east

theorem conclude_eq_some_iff {year month day hour minute second nanosecond : Nat}
    (fits : nanosecond < 1000000000) :
    conclude year month day hour minute second nanosecond cs = some d ↔
      ∃ east date time, Offset cs east ∧ Date.Names date year month day ∧
        Time.Written time hour minute second nanosecond ∧ (DateTime.mk date time).Instant east d := by
  have set (date : Date) (east : Int) : (if second = 60 then
        Time.ofParts? hour minute 59 (1000000000 + nanosecond) >>= fun time => toUtc ⟨date, time⟩ east
      else Time.ofParts? hour minute second nanosecond >>= fun time => toUtc ⟨date, time⟩ east) = some d ↔
        ∃ time : Time, time.Written hour minute second nanosecond ∧ toUtc ⟨date, time⟩ east = some d := by
    unfold Time.Written
    split
    next =>
      simp only [← Time.ofParts?_eq_some_iff fun _ => rfl]
      exact Option.bind_eq_some_iff
    next =>
      simp only [← Time.ofParts?_eq_some_iff fun leap => absurd leap fits.not_ge]
      exact Option.bind_eq_some_iff
  constructor
  · intro read
    obtain ⟨east, zone, read⟩ := some_of_bind read
    obtain ⟨date, named, read⟩ := some_of_bind read
    obtain ⟨time, written, moved⟩ := (set date east).1 read
    have zone := offset_inv zone
    have bounds := zone.bounds
    exact ⟨east, date, time, zone, Date.ofParts?_eq_some_iff.1 named, written,
      (toUtc_eq_some_iff bounds.1 bounds.2).1 moved⟩
  · rintro ⟨east, date, time, zone, names, written, instant⟩
    have bounds := zone.bounds
    have moved := (toUtc_eq_some_iff bounds.1 bounds.2).2 instant
    exact bind_of_eq_some (offset_eq zone) <| bind_of_eq_some (Date.ofParts?_eq_some_iff.2 names) <|
      (set date east).2 ⟨time, written, moved⟩

theorem rfc3339_inv (read : rfc3339 cs = some d) : Zoned cs d := by
  obtain ⟨ys, year, _, text₁, years, read⟩ := number_bind read
  obtain ⟨_, _, dash, text₂, read⟩ := oneOf_bind read
  obtain ⟨ms, month, _, text₃, months, read⟩ := number_bind read
  obtain ⟨_, _, dash', text₄, read⟩ := oneOf_bind read
  obtain ⟨ds, day, _, text₅, days, read⟩ := number_bind read
  obtain ⟨mark, _, between, text₆, read⟩ := oneOf_bind read
  obtain ⟨hs, hour, _, text₇, hours, read⟩ := number_bind read
  obtain ⟨_, _, colon, text₈, read⟩ := oneOf_bind read
  obtain ⟨mins, minute, _, text₉, minutes, read⟩ := number_bind read
  obtain ⟨_, _, colon', text₁₀, read⟩ := oneOf_bind read
  obtain ⟨ss, second, afterSecond, text₁₁, seconds, read⟩ := number_bind read
  -- Whatever the fraction is, what was read up to it goes on with it.
  have rest {fs after : List Char} {nanosecond : Nat} (text₁₂ : afterSecond = fs ++ after)
      (fraction : Fraction fs nanosecond)
      (read : conclude year month day hour minute second nanosecond after = some d) : Zoned cs d := by
    obtain ⟨east, date, time, zone, names, written, instant⟩ := (conclude_eq_some_iff fraction.lt).1 read
    have full : FullDate _ date := .intro years months days names
    have clock : FullTime _ time := .intro hours minutes seconds fraction written
    rw [text₁, text₂, text₃, text₄, text₅, text₆, text₇, text₈, text₉, text₁₀, text₁₁, text₁₂,
      List.mem_singleton.1 dash, List.mem_singleton.1 dash', List.mem_singleton.1 colon,
      List.mem_singleton.1 colon']
    simpa using Zoned.intro full between clock zone instant
  dsimp only at read
  split at read
  next _ tail =>
    split at read
    next => cases read
    next shown =>
      have digits : ∀ c ∈ tail.takeWhile Char.isDigit, c.isDigit = true := fun c member =>
        List.mem_takeWhile_imp member
      have text := List.prefix_iff_eq_append.1 (List.takeWhile_prefix Char.isDigit (l := tail))
      rw [nanoseconds_eq digits] at read
      exact rest (congrArg ('.' :: ·) text.symm) (.digits digits (by simpa using shown)) read
  next => exact rest (List.nil_append _).symm .whole read

def IsClock (c : Char) : Prop :=
  c.isDigit = true ∨ c ∈ [':', '.']

instance : DecidablePred IsClock := fun c =>
  inferInstanceAs (Decidable (c.isDigit = true ∨ c ∈ [':', '.']))

-- An offset begins with none of them, so that the fraction before it ends there.
theorem Offset.exists_cons {east : Int} (written : Offset cs east) :
    ∃ c rest, cs = c :: rest ∧ ¬IsClock c := by
  cases written with
  | zulu mark =>
    simp only [List.mem_cons, List.not_mem_nil, or_false] at mark
    rcases mark with rfl | rfl <;> exact ⟨_, _, rfl, by decide⟩
  | east => exact ⟨_, _, rfl, by decide⟩
  | west mark =>
    simp only [List.mem_cons, List.not_mem_nil, or_false] at mark
    rcases mark with rfl | rfl <;> exact ⟨_, _, rfl, by decide⟩

theorem rfc3339_eq (written : Zoned cs d) : rfc3339 cs = some d := by
  cases written with
  | @intro _ _ os mark date time east _ day between clock zone instant =>
    cases day with
    | @intro ys ms ds year month day _ years months days names =>
      cases clock with
      | @intro hs mins ss fs hour minute second nanosecond _ hours minutes seconds fraction written =>
        have ends : conclude year month day hour minute second nanosecond os = some d :=
          (conclude_eq_some_iff fraction.lt).2 ⟨east, date, time, zone, names, written, instant⟩
        have dash := oneOf_cons (List.mem_singleton_self '-')
        have colon := oneOf_cons (List.mem_singleton_self ':')
        simp only [List.append_assoc, List.cons_append]
        unfold rfc3339
        refine bind_of_eq_some (number_append years (.inl years.full)) <| bind_of_eq_some (dash _) <|
          bind_of_eq_some (number_append months (.inl months.full)) <| bind_of_eq_some (dash _) <|
          bind_of_eq_some (number_append days (.inl days.full)) <|
          bind_of_eq_some (oneOf_cons between _) <|
          bind_of_eq_some (number_append hours (.inl hours.full)) <| bind_of_eq_some (colon _) <|
          bind_of_eq_some (number_append minutes (.inl minutes.full)) <| bind_of_eq_some (colon _) <|
          bind_of_eq_some (number_append seconds (.inl seconds.full)) ?_
        obtain ⟨c, tail, text, other⟩ := zone.exists_cons
        cases fraction with
        | whole =>
          rw [List.nil_append, text]
          rw [text] at ends
          dsimp only
          split
          next same => exact absurd (.inr (by simp [(List.cons.inj same).1])) other
          next => exact ends
        | @digits ds each shown =>
          have run : (ds ++ os).takeWhile Char.isDigit = ds := by
            have ends : c.isDigit = false := Bool.eq_false_iff.2 fun digit => other (.inl digit)
            rw [List.takeWhile_append_of_pos each, text]
            simp [ends]
          have fraction : some (nanoseconds ((ds ++ os).takeWhile Char.isDigit),
              (ds ++ os).drop ((ds ++ os).takeWhile Char.isDigit).length) =
                some (natOf ds * 10 ^ 9 / 10 ^ ds.length, os) := by
            simp [run, nanoseconds_eq each]
          refine (if_neg ?_).trans (bind_of_eq_some fraction ends)
          simpa [run] using shown

theorem rfc3339_eq_some_iff : rfc3339 cs = some d ↔ Zoned cs d :=
  ⟨rfc3339_inv, rfc3339_eq⟩

end Reading

end EntityQuery.Calendar
