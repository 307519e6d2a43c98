import EntityQuery.Proofs.Calendar.Rfc3339

/-!
The texts that are read as dates: those of RFC 3339, which stand for an instant, and dates typed by hand. Each
has a grammar, and a reader that reads its texts and no others; no text has both forms.
-/

set_option autoImplicit false

namespace EntityQuery.Calendar

open EntityQuery.Text

namespace Reading

variable {cs rest : List Char} {d e : DateTime} {least most n : Nat}

def Named (date : Date) (year month day : Nat) : Prop :=
  if 1700 ≤ year then date.Names year month day
  else SolarHijri.toGregorian? year month day = some date

inductive TypedDay : List Char → Date → Prop where
  | intro {ys ms ds : List Char} {p q : Char} {year month day : Nat} {date : Date}
      (years : Digits 1 4 ys year) (months : Digits 1 2 ms month) (days : Digits 1 2 ds day)
      (between : p ∈ ['-', '/', '.'] ∧ q ∈ ['-', '/', '.']) (named : Named date year month day) :
      TypedDay (ys ++ p :: (ms ++ q :: ds)) date

inductive TypedSeconds : List Char → Nat → Nat → Prop where
  | none : TypedSeconds [] 0 0
  | whole {ss : List Char} {second : Nat} (seconds : Digits 1 2 ss second) :
      TypedSeconds (':' :: ss) second 0
  | fraction {ss fs : List Char} {second n nanosecond : Nat} (seconds : Digits 1 2 ss second)
      (digits : Digits 1 9 fs n) (exact : nanosecond * 10 ^ fs.length = n * 10 ^ 9) :
      TypedSeconds (':' :: (ss ++ '.' :: fs)) second nanosecond

inductive TypedTime : List Char → Time → Prop where
  | none : TypedTime [] .midnight
  | clock {gap hs ms ss : List Char} {hour minute second nanosecond : Nat} {time : Time}
      (apart : gap ≠ [] ∧ ∀ c ∈ gap, c ∈ ['T', ' ']) (hours : Digits 1 2 hs hour)
      (minutes : Digits 1 2 ms minute) (seconds : TypedSeconds ss second nanosecond)
      (bounds : hour ≤ 23 ∧ minute ≤ 59 ∧ second ≤ 59)
      (shows : time.Shows hour minute second nanosecond) :
      TypedTime (gap ++ (hs ++ ':' :: (ms ++ ss))) time

inductive Typed : List Char → DateTime → Prop where
  | intro {ds ts : List Char} {date : Date} {time : Time} (day : TypedDay ds date)
      (clock : TypedTime ts time) : Typed (ds ++ ts) ⟨date, time⟩

theorem TypedSeconds.lt {second nanosecond : Nat} (written : TypedSeconds cs second nanosecond) :
    nanosecond < 1000000000 := by
  cases written with
  | none | whole => decide
  | fraction _ digits exact =>
    have below := digits.count ▸ natOf_lt digits.each
    refine Nat.lt_of_mul_lt_mul_right (exact.trans_lt ?_)
    rw [Nat.mul_comm]
    exact Nat.mul_lt_mul_of_pos_left below (by decide)

theorem seconds_inv {second nanosecond : Nat} (read : seconds cs = some (second, nanosecond)) :
    TypedSeconds (':' :: cs) second nanosecond := by
  obtain ⟨ss, n, rest, text, digits, read⟩ := number_bind read
  dsimp only at read
  split at read
  next =>
    obtain ⟨rfl, rfl⟩ := Prod.mk.inj (Option.some.inj read)
    rw [text, List.append_nil]
    exact .whole digits
  next fs =>
    split at read
    next => cases read
    next shown =>
      obtain ⟨rfl, rfl⟩ := Prod.mk.inj (Option.some.inj read)
      simp only [Bool.or_eq_true, List.isEmpty_iff, decide_eq_true_eq, Bool.not_eq_true', not_or, not_lt,
        Bool.not_eq_false, List.all_eq_true] at shown
      have fraction : Digits 1 9 fs (natOf fs) :=
        ⟨shown.2, List.length_pos_iff.2 shown.1.1, shown.1.2, rfl⟩
      rw [text]
      exact .fraction digits fraction (nanoseconds_short shown.1.2)
  next => cases read

theorem timeOfDay_inv {time : Time} (read : timeOfDay cs = some time) : TypedTime cs time := by
  obtain ⟨mark, afterMark, member, text₁, read⟩ := oneOf_bind read
  obtain ⟨hs, hour, _, text₂, hours, read⟩ := number_bind read
  obtain ⟨_, _, colon, text₃, read⟩ := oneOf_bind read
  obtain ⟨ms, minute, rest, text₄, minutes, read⟩ := number_bind read
  have begins := List.takeWhile_append_dropWhile (p := fun c => c = 'T' || c = ' ') (l := afterMark)
  have apart (c : Char) (inside : c ∈ mark :: afterMark.takeWhile fun c => c = 'T' || c = ' ') :
      c ∈ ['T', ' '] := by
    rcases List.mem_cons.1 inside with rfl | inside
    · exact member
    · simpa using List.mem_takeWhile_imp inside
  have typed {second nanosecond : Nat} (seconds : TypedSeconds rest second nanosecond)
      (set : Time.ofParts? hour minute second nanosecond = some time) : TypedTime cs time := by
    have ends (leap : 1000000000 ≤ nanosecond) : second = 59 := absurd leap seconds.lt.not_ge
    obtain ⟨rfl, rfl, rfl, rfl⟩ := (Time.ofParts?_eq_some_iff ends).1 set
    have last := time.hour_lt
    have last' := time.minute_lt
    have last'' := time.second_lt
    rw [text₁, ← begins, text₂, text₃, text₄, List.mem_singleton.1 colon]
    exact .clock ⟨List.cons_ne_nil _ _, apart⟩ hours minutes seconds (by omega) ⟨rfl, rfl, rfl, rfl⟩
  dsimp only at read
  split at read
  next => exact typed .none read
  next =>
    obtain ⟨⟨second, nanosecond⟩, found, read⟩ := some_of_bind read
    exact typed (seconds_inv found) read
  next => cases read

theorem seconds_eq {second nanosecond : Nat} (written : TypedSeconds (':' :: cs) second nanosecond) :
    seconds cs = some (second, nanosecond) := by
  cases written with
  | whole digits =>
    have read : number 1 2 (cs ++ []) = some (second, []) := number_append digits (.inr (by simp [Stops]))
    rw [List.append_nil] at read
    exact bind_of_eq_some read rfl
  | @fraction ss fs _ n _ digits fraction exact =>
    have shown : ¬(fs.isEmpty || 9 < fs.length || !fs.all Char.isDigit) = true := by
      have each : fs.all Char.isDigit = true := List.all_eq_true.2 fraction.each
      have nonempty : fs ≠ [] := List.ne_nil_of_length_pos fraction.least
      have short := fraction.most
      simp [each, nonempty, short]
    have same : nanoseconds fs = nanosecond := by
      apply Nat.eq_of_mul_eq_mul_right (Nat.pow_pos (n := fs.length) (show 0 < 10 by decide))
      rw [nanoseconds_short fraction.most, exact, fraction.count]
    refine bind_of_eq_some (number_append digits (.inr (by simp [Stops]))) ?_
    exact (if_neg shown).trans (by rw [same])

theorem TypedSeconds.stops {second nanosecond : Nat} (written : TypedSeconds cs second nanosecond) :
    Stops cs := by
  cases written
  all_goals simp [Stops]

theorem TypedTime.stops {time : Time} (written : TypedTime cs time) : Stops cs := by
  cases written with
  | none => simp [Stops]
  | @clock gap _ _ _ _ _ _ _ _ apart =>
    obtain ⟨c, cs, text⟩ := List.exists_cons_of_ne_nil apart.1
    have mark := apart.2 c (text ▸ .head cs)
    simp only [List.mem_cons, List.not_mem_nil, or_false] at mark
    rcases mark with rfl | rfl <;> simp [text, Stops]

-- Digits stand first where there is at least one, so that the gap before them ends there.
theorem dropWhile_gap {gap hs : List Char} {k n : Nat} (apart : ∀ c ∈ gap, c ∈ ['T', ' '])
    (digits : Digits (k + 1) most hs n) :
    (gap ++ (hs ++ rest)).dropWhile (fun c => c = 'T' || c = ' ') = hs ++ rest := by
  rw [List.dropWhile_append_of_pos fun c member => by simpa using apart c member]
  obtain ⟨c, cs, text⟩ := List.exists_cons_of_length_pos (Nat.lt_of_lt_of_le k.succ_pos digits.least)
  have digit : c.isDigit = true := digits.each c (text ▸ .head cs)
  rw [text, List.cons_append, List.dropWhile_cons_of_neg]
  simp [ne_of_isDigit digit (show 'T'.isDigit = false by decide),
    ne_of_isDigit digit (show ' '.isDigit = false by decide)]

theorem timeOfDay_eq {time : Time} (written : TypedTime cs time) :
    (if cs = [] then some Time.midnight else timeOfDay cs) = some time := by
  cases written with
  | none => rfl
  | @clock gap hs ms ss hour minute second nanosecond _ apart hours minutes seconds _ shows =>
    obtain ⟨mark, gap, text⟩ := List.exists_cons_of_ne_nil apart.1
    obtain ⟨member, apart⟩ := List.forall_mem_cons.1 (text ▸ apart.2)
    have ends (leap : 1000000000 ≤ nanosecond) : second = 59 := absurd leap seconds.lt.not_ge
    have set := (Time.ofParts?_eq_some_iff ends).2 shows
    rw [text, List.cons_append, if_neg (List.cons_ne_nil _ _)]
    refine bind_of_eq_some (oneOf_cons member _) ?_
    dsimp only
    rw [dropWhile_gap apart hours]
    refine bind_of_eq_some (number_append hours (.inr (stops_cons rfl))) <|
      bind_of_eq_some (oneOf_cons (List.mem_singleton_self ':') _) <|
      bind_of_eq_some (number_append minutes (.inr seconds.stops)) ?_
    cases seconds with
    | none => exact set
    | whole digits => exact bind_of_eq_some (seconds_eq (.whole digits)) set
    | fraction digits fraction exact =>
      exact bind_of_eq_some (seconds_eq (.fraction digits fraction exact)) set

def onDay (date : Date) (cs : List Char) : Option DateTime := do
  let time ← if cs = [] then some .midnight else timeOfDay cs
  some ⟨date, time⟩

theorem onDay_eq_some_iff {date : Date} :
    onDay date cs = some d ↔ ∃ time, TypedTime cs time ∧ ⟨date, time⟩ = d := by
  unfold onDay
  dsimp only
  constructor
  · intro read
    split at read
    next blank =>
      obtain rfl := Option.some.inj read
      exact ⟨_, blank ▸ .none, rfl⟩
    next =>
      obtain ⟨time, found, read⟩ := some_of_bind read
      exact ⟨time, timeOfDay_inv found, Option.some.inj read⟩
  · rintro ⟨time, clock, rfl⟩
    have set := timeOfDay_eq clock
    split
    next blank => exact bind_of_eq_some ((if_pos blank).symm.trans set) rfl
    next shown => exact bind_of_eq_some ((if_neg shown).symm.trans set) rfl

theorem typed_inv (read : typed cs = some d) : Typed cs d := by
  obtain ⟨ys, year, _, text₁, years, read⟩ := number_bind read
  obtain ⟨p, _, first, text₂, read⟩ := oneOf_bind read
  obtain ⟨ms, month, _, text₃, months, read⟩ := number_bind read
  obtain ⟨q, _, second, text₄, read⟩ := oneOf_bind read
  obtain ⟨ds, day, rest, text₅, days, read⟩ := number_bind read
  have clock {date : Date} (named : Named date year month day) (read : onDay date rest = some d) :
      Typed cs d := by
    have day : TypedDay _ date := .intro years months days ⟨first, second⟩ named
    obtain ⟨time, clock, rfl⟩ := onDay_eq_some_iff.1 read
    rw [text₁, text₂, text₃, text₄, text₅]
    simpa using Typed.intro day clock
  dsimp only at read
  split at read
  next late =>
    obtain ⟨date, named, read⟩ := some_of_bind read
    exact clock ((if_pos late).mpr (Date.ofParts?_eq_some_iff.1 named)) read
  next early =>
    obtain ⟨date, named, read⟩ := some_of_bind read
    exact clock ((if_neg early).mpr named) read

theorem typed_eq (written : Typed cs d) : typed cs = some d := by
  cases written with
  | @intro _ ts date time day clock =>
    cases day with
    | @intro ys ms ds p q year month day _ years months days between named =>
      have separator {c : Char} (member : c ∈ separators) : c.isDigit = false := by
        simp only [separators, List.mem_cons, List.not_mem_nil, or_false] at member
        rcases member with rfl | rfl | rfl <;> rfl
      have ends : onDay date ts = some ⟨date, time⟩ := onDay_eq_some_iff.2 ⟨time, clock, rfl⟩
      simp only [List.append_assoc, List.cons_append]
      unfold typed
      refine bind_of_eq_some (number_append years (.inr (stops_cons (separator between.1)))) <|
        bind_of_eq_some (oneOf_cons between.1 _) <|
        bind_of_eq_some (number_append months (.inr (stops_cons (separator between.2)))) <|
        bind_of_eq_some (oneOf_cons between.2 _) <|
        bind_of_eq_some (number_append days (.inr clock.stops)) ?_
      unfold Named at named
      split at named
      next late => exact (if_pos late).trans (bind_of_eq_some (Date.ofParts?_eq_some_iff.2 named) ends)
      next early => exact (if_neg early).trans (bind_of_eq_some named ends)

theorem typed_eq_some_iff : typed cs = some d ↔ Typed cs d :=
  ⟨typed_inv, typed_eq⟩

theorem Digits.not_mem {ds : List Char} (digits : Digits least most ds n) {c : Char}
    (other : c.isDigit = false) : c ∉ ds := fun member =>
  ne_of_isDigit (digits.each c member) other rfl

def fromColon (cs : List Char) : List Char :=
  cs.dropWhile (· ≠ ':')

theorem fromColon_append {before : List Char} (none : ':' ∉ before) :
    fromColon (before ++ rest) = fromColon rest :=
  List.dropWhile_append_of_pos fun c member => by
    simpa using fun same : c = ':' => none (same ▸ member)

theorem fromColon_cons (rest : List Char) : fromColon (':' :: rest) = ':' :: rest :=
  List.dropWhile_cons_of_neg (by simp)

theorem TypedDay.not_mem_colon {date : Date} (written : TypedDay cs date) : ':' ∉ cs := by
  cases written with
  | intro years months days between =>
    have apart : ':' ∉ separators := by decide
    simp only [List.mem_append, List.mem_cons, not_or]
    exact ⟨years.not_mem rfl, fun same => apart (same ▸ between.1), months.not_mem rfl,
      fun same => apart (same ▸ between.2), days.not_mem rfl⟩

theorem FullDate.not_mem_colon {date : Date} (written : FullDate cs date) : ':' ∉ cs := by
  cases written with
  | intro years months days =>
    simp only [List.mem_append, List.mem_cons, not_or]
    exact ⟨years.not_mem rfl, by decide, months.not_mem rfl, by decide, days.not_mem rfl⟩

theorem Typed.isClock_of_mem (written : Typed cs d) : ∀ c ∈ fromColon cs, IsClock c := by
  cases written with
  | intro day clock =>
    rw [fromColon_append day.not_mem_colon]
    cases clock with
    | none => simp [fromColon]
    | @clock gap hs ms ss _ _ _ _ _ apart hours minutes seconds =>
      have gap : ':' ∉ gap := fun member => by simpa using apart.2 _ member
      have colon : IsClock ':' := .inr (by decide)
      have after : ∀ c ∈ ss, IsClock c := by
        cases seconds with
        | none => simp
        | whole digits => exact List.forall_mem_cons.2 ⟨colon, fun c member => .inl (digits.each c member)⟩
        | fraction digits fraction =>
          refine List.forall_mem_cons.2 ⟨colon, List.forall_mem_append.2 ⟨?_, ?_⟩⟩
          · exact fun c member => .inl (digits.each c member)
          · exact List.forall_mem_cons.2 ⟨.inr (by decide), fun c member => .inl (fraction.each c member)⟩
      rw [fromColon_append gap, fromColon_append (hours.not_mem rfl), fromColon_cons]
      refine List.forall_mem_cons.2 ⟨colon, List.forall_mem_append.2 ⟨?_, after⟩⟩
      exact fun c member => .inl (minutes.each c member)

theorem Zoned.exists_not_isClock (written : Zoned cs d) : ∃ c ∈ fromColon cs, ¬IsClock c := by
  cases written with
  | @intro ds _ os mark _ _ _ _ day between clock offset =>
    cases clock with
    | @intro hs ms ss fs _ _ _ _ _ hours _ _ =>
      obtain ⟨c, rest, text, other⟩ := offset.exists_cons
      have before : ':' ∉ mark :: hs := by
        refine List.not_mem_cons_of_ne_of_not_mem ?_ (hours.not_mem rfl)
        rintro rfl
        simp at between
      have after : fromColon (ds ++ mark :: ((hs ++ ':' :: (ms ++ ':' :: (ss ++ fs))) ++ os)) =
          ':' :: (ms ++ ':' :: (ss ++ fs)) ++ os := by
        have parts := @fromColon_append (':' :: (ms ++ ':' :: (ss ++ fs)) ++ os) _ before
        rw [fromColon_append day.not_mem_colon]
        simpa [fromColon_cons] using parts
      exact ⟨c, after ▸ List.mem_append_right _ (text ▸ .head rest), other⟩

-- No text has both forms: a typed date does not go on with an offset.
theorem Zoned.not_typed (zoned : Zoned cs d) : ¬Typed cs e := fun typed => by
  obtain ⟨c, member, other⟩ := zoned.exists_not_isClock
  exact other (typed.isClock_of_mem c member)

def Plain (c : Char) : Prop :=
  c.toNat < 128 ∨ c = '\u2212'

instance : DecidablePred Plain := fun c =>
  inferInstanceAs (Decidable (c.toNat < 128 ∨ c = '\u2212'))

theorem plain_of_mem {marks : List Char} {c : Char} (member : c ∈ marks)
    (plain : (marks.all fun c => decide (Plain c)) = true) : Plain c :=
  of_decide_eq_true (List.all_eq_true.1 plain c member)

theorem Digits.plain {ds : List Char} (digits : Digits least most ds n) : ∀ c ∈ ds, Plain c := by
  intro c member
  have last := (Char.isDigit_iff_toNat.1 (digits.each c member)).2
  simp only [Char.reduceToNat] at last
  exact .inl (by omega)

theorem Distance.plain {east : Int} (written : Distance cs east) : ∀ c ∈ cs, Plain c := by
  cases written with
  | intro hours minutes =>
    rw [List.forall_mem_append, List.forall_mem_cons]
    exact ⟨hours.plain, by decide, minutes.plain⟩

theorem Offset.plain {east : Int} (written : Offset cs east) : ∀ c ∈ cs, Plain c := by
  cases written with
  | zulu mark => exact List.forall_mem_singleton.2 (plain_of_mem mark rfl)
  | east distance => exact List.forall_mem_cons.2 ⟨by decide, distance.plain⟩
  | west mark distance => exact List.forall_mem_cons.2 ⟨plain_of_mem mark rfl, distance.plain⟩

theorem Zoned.plain (written : Zoned cs d) : ∀ c ∈ cs, Plain c := by
  have dash : Plain '-' := by decide
  have colon : Plain ':' := by decide
  cases written with
  | intro day between clock offset =>
    cases day with
    | intro years months days =>
      cases clock with
      | @intro _ _ _ fs _ _ _ nanosecond _ hours minutes seconds fraction =>
        have fraction : ∀ c ∈ fs, Plain c := by
          cases fraction with
          | whole => simp
          | digits each =>
            have digits : Digits 0 _ _ _ := ⟨each, Nat.zero_le _, le_refl _, rfl⟩
            exact List.forall_mem_cons.2 ⟨by decide, digits.plain⟩
        simp only [List.forall_mem_append, List.forall_mem_cons]
        exact ⟨⟨years.plain, dash, months.plain, dash, days.plain⟩, plain_of_mem between rfl,
          ⟨hours.plain, colon, minutes.plain, colon, seconds.plain, fraction⟩, offset.plain⟩

theorem TypedSeconds.plain {second nanosecond : Nat} (written : TypedSeconds cs second nanosecond) :
    ∀ c ∈ cs, Plain c := by
  cases written with
  | none => simp
  | whole digits => exact List.forall_mem_cons.2 ⟨by decide, digits.plain⟩
  | fraction digits fraction =>
    simp only [List.forall_mem_append, List.forall_mem_cons]
    exact ⟨by decide, digits.plain, by decide, fraction.plain⟩

theorem Typed.plain (written : Typed cs d) : ∀ c ∈ cs, Plain c := by
  cases written with
  | intro day clock =>
    cases day with
    | intro years months days between =>
      simp only [List.forall_mem_append, List.forall_mem_cons]
      refine ⟨⟨years.plain, plain_of_mem between.1 rfl, months.plain, plain_of_mem between.2 rfl,
        days.plain⟩, ?_⟩
      cases clock with
      | none => simp
      | clock apart hours minutes seconds =>
        simp only [List.forall_mem_append, List.forall_mem_cons]
        exact ⟨fun c member => plain_of_mem (apart.2 c member) rfl, hours.plain, by decide, minutes.plain,
          seconds.plain⟩

end Reading

namespace DateTime

open Reading (Zoned Typed)

variable {cs : List Char} {d : DateTime}

theorem read_eq_some_iff : read cs = some d ↔ Zoned (trim cs) d ∨ Typed (trim cs) d := by
  rw [← Reading.rfc3339_eq_some_iff, ← Reading.typed_eq_some_iff, read]
  cases full : Reading.rfc3339 (trim cs) with
  | none => simp
  | some e =>
    have other : Reading.typed (trim cs) ≠ some d := fun typed =>
      (Reading.rfc3339_inv full).not_typed (Reading.typed_inv typed)
    simp [other]

/-- A text is read as a date if, without the blanks around it, it is one of RFC 3339 or one of a date typed
by hand, and it is read as the date that its grammar says. No text has both forms, so that it is the same
which of them is tried first. What is read has no characters outside of ASCII but blanks and the minus sign
of an offset; the digits of other scripts, which are neither, are refused. -/
theorem read_grammar (cs : List Char) :
    (∀ d, read cs = some d ↔ Zoned (trim cs) d ∨ Typed (trim cs) d) ∧
    (∀ d e, Zoned cs d → ¬Typed cs e) ∧
    read cs = (Reading.typed (trim cs) <|> Reading.rfc3339 (trim cs)) ∧
    ∀ c ∈ cs, 128 ≤ c.toNat → isBlank c = false → c ≠ '\u2212' → read cs = none := by
  refine ⟨fun d => read_eq_some_iff, fun d e zoned => zoned.not_typed, ?_, ?_⟩
  · cases full : Reading.rfc3339 (trim cs) with
    | none => simp [read, full]
    | some d =>
      have none : Reading.typed (trim cs) = none := Option.eq_none_iff_forall_ne_some.2 fun e typed =>
        (Reading.rfc3339_inv full).not_typed (Reading.typed_inv typed)
      simp [read, full, none]
  · intro c member beyond shown other
    refine Option.eq_none_iff_forall_ne_some.2 fun d found => ?_
    have kept := mem_trim member shown
    have plain : Reading.Plain c :=
      (read_eq_some_iff.1 found).elim (fun zoned => zoned.plain c kept) fun typed => typed.plain c kept
    exact plain.elim (fun ascii => absurd beyond (not_le.2 ascii)) other

theorem read_grammar_both :
    let d : DateTime := ⟨⟨2023, 8, 3, by decide, by decide⟩,
      ⟨9, 7, 5, 250000000, by decide, by decide, by decide, by decide⟩⟩
    let e : DateTime := ⟨⟨2024, 1, 15, by decide, by decide⟩,
      ⟨8, 30, 0, 0, by decide, by decide, by decide, by decide⟩⟩
    read " 1402/5-12 T9:7:5.25 ".toList = some d ∧ read "2024-01-15T10:30:00+02:00".toList = some e ∧
      (∀ e, ¬Typed "2024-01-15T10:30:00+02:00".toList e) ∧ read "\u06f1402/5-12".toList = none := by
  intro d e
  obtain ⟨accepts, -⟩ := read_grammar " 1402/5-12 T9:7:5.25 ".toList
  obtain ⟨accepts', apart, -⟩ := read_grammar "2024-01-15T10:30:00+02:00".toList
  obtain ⟨-, -, -, others⟩ := read_grammar "\u06f1402/5-12".toList
  have digits {least most n : Nat} {ds : List Char} (each : ds.all Char.isDigit = true)
      (bounds : least ≤ ds.length ∧ ds.length ≤ most) (count : natOf ds = n) :
      Reading.Digits least most ds n :=
    ⟨List.all_eq_true.1 each, bounds.1, bounds.2, count⟩
  have day : Reading.TypedDay ("1402".toList ++ '/' :: ("5".toList ++ '-' :: "12".toList)) d.date :=
    @Reading.TypedDay.intro _ _ _ '/' '-' 1402 5 12 _ (digits (by decide) (by decide) (by decide))
      (digits (by decide) (by decide) (by decide)) (digits (by decide) (by decide) (by decide)) (by decide)
      ((if_neg (by decide)).mpr (by decide))
  have seconds : Reading.TypedSeconds (':' :: ("5".toList ++ '.' :: "25".toList)) 5 250000000 :=
    .fraction (digits (by decide) (by decide) (by decide)) (digits (by decide) (by decide) rfl) (by decide)
  have clock : Reading.TypedTime ([' ', 'T'] ++ ("9".toList ++ ':' :: ("7".toList ++
      (':' :: ("5".toList ++ '.' :: "25".toList))))) d.time :=
    .clock ⟨by decide, by simp⟩ (digits (by decide) (by decide) (by decide))
      (digits (by decide) (by decide) (by decide)) seconds (by decide) ⟨rfl, rfl, rfl, rfl⟩
  have typed : Typed (trim " 1402/5-12 T9:7:5.25 ".toList) d := by
    have trimmed : trim " 1402/5-12 T9:7:5.25 ".toList = "1402/5-12 T9:7:5.25".toList := by decide
    rw [trimmed]
    exact .intro day clock
  have zoned : Zoned "2024-01-15T10:30:00+02:00".toList e := Reading.rfc3339_inv (by decide)
  have same : trim "2024-01-15T10:30:00+02:00".toList = "2024-01-15T10:30:00+02:00".toList := by decide
  exact ⟨(accepts d).2 (.inr typed), (accepts' e).2 (.inl (same.symm ▸ zoned)), fun e => apart _ e zoned,
    others '\u06f1' (by decide) (by decide) (by decide) (by decide)⟩

end DateTime

end EntityQuery.Calendar
