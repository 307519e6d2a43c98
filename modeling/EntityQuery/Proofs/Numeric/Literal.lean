import EntityQuery.Json.Reading
import EntityQuery.Proofs.Numeric.Kind
import EntityQuery.Proofs.Numeric.Rounding

set_option autoImplicit false

namespace EntityQuery

open Text

namespace Number

def canonical : Number → Number
  | uint n => (NumberKind.ofInt? .int64 n.toNat).getD (uint n)
  | n => n

def IsFinite : Number → Prop
  | float x => x.isFinite = true
  | _ => True

theorem ofInt?_of_signed (n : Int64) : NumberKind.ofInt? .int64 n.toInt = some (int n) := by
  have held : NumberKind.Admits .int64 (int n) := ⟨rfl, n.le_toInt, Int.le_sub_one_of_lt n.toInt_lt⟩
  exact (NumberKind.ofInt?_of_admits held rfl).2

theorem ofInt?_of_unsigned (n : UInt64) : NumberKind.ofInt? .uint64 n.toNat = some (uint n) := by
  have most : (n.toNat : Int) < 2 ^ 64 := by exact_mod_cast n.toNat_lt
  have held : NumberKind.Admits .uint64 (uint n) := ⟨rfl, Int.le_sub_one_of_lt most⟩
  exact (NumberKind.ofInt?_of_admits held rfl).2

theorem toInt_of_ofInt? {n : Int} {m : Number} (held : NumberKind.ofInt? .int64 n = some m) :
    ∃ i, m = int i ∧ i.toInt = n := by
  have whole := NumberKind.whole?_of_ofInt? held
  unfold NumberKind.ofInt? at held
  split at held
  next =>
    cases held
    exact ⟨_, rfl, Option.some.inj whole⟩
  next => cases held

theorem canonical_cases (n : Number) :
    n.canonical = n ∨ ∃ m i, n = uint m ∧ n.canonical = int i ∧ i.toInt = m.toNat := by
  cases n with
  | int | float => exact .inl rfl
  | uint m =>
    cases held : NumberKind.ofInt? .int64 m.toNat with
    | none => exact .inl (by simp [canonical, held])
    | some n =>
      obtain ⟨i, rfl, equal⟩ := toInt_of_ofInt? held
      exact .inr ⟨m, i, rfl, by simp [canonical, held], equal⟩

@[simp] theorem whole?_canonical (n : Number) : n.canonical.whole? = n.whole? := by
  rcases n.canonical_cases with same | ⟨m, i, rfl, signed, equal⟩
  · rw [same]
  · simp [signed, whole?, equal]

@[simp] theorem toBinary64_canonical (n : Number) : n.canonical.toBinary64 = n.toBinary64 := by
  rcases n.canonical_cases with same | ⟨m, i, rfl, signed, equal⟩
  · rw [same]
  · simp [signed, toBinary64, equal]

@[simp] theorem compare_canonical (n m : Number) : n.canonical.compare m = n.compare m := by
  simp [compare]

@[simp] theorem compare_canonical_right (n m : Number) : n.compare m.canonical = n.compare m := by
  simp [compare]

@[simp] theorem render_canonical (n : Number) : n.canonical.render = n.render := by
  rcases n.canonical_cases with same | ⟨m, i, rfl, signed, equal⟩
  · rw [same]
  · simp [signed, render, equal]

@[simp] theorem text_canonical (n : Number) : n.canonical.text = n.text := by
  simp [text]

@[simp] theorem canonical_canonical (n : Number) : n.canonical.canonical = n.canonical := by
  rcases n.canonical_cases with same | ⟨m, i, rfl, signed, equal⟩
  · rw [same, same]
  · rw [signed]
    rfl

end Number

namespace Json

@[simp] theorem numberText_canonical (n : Number) : numberText n.canonical = numberText n := by
  rcases n.canonical_cases with same | ⟨m, i, rfl, signed, equal⟩
  · rw [same]
  · simp [signed, numberText, Number.render, equal]

def Ends (rest : List Char) : Prop :=
  ∀ c ∈ rest.head?, c.isDigit = false ∧ c ≠ '.' ∧ c ≠ 'e' ∧ c ≠ 'E'

def IsWhole (ds : List Char) : Prop :=
  (∀ c ∈ ds, c.isDigit = true) ∧ (ds = ['0'] ∨ ds ≠ [] ∧ ds.head? ≠ some '0')

theorem IsWhole.exists_cons {ds : List Char} (whole : IsWhole ds) : ∃ c cs, ds = c :: cs := by
  obtain ⟨_, single | ⟨nonempty, _⟩⟩ := whole
  · exact ⟨_, _, single⟩
  · exact List.exists_cons_of_ne_nil nonempty

theorem isWhole_digitsOf (n : Nat) : IsWhole (digitsOf n) := by
  refine ⟨fun c member => isDigit_of_mem_digitsOf member, ?_⟩
  by_cases zero : n = 0
  next => exact .inl (by rw [zero]; rfl)
  next => exact .inr ⟨digitsOf_ne_nil n, head?_digitsOf zero⟩

structure Written where
  negative : Bool
  whole : List Char
  fraction : List Char
  -- The sign and the digits after `e`.
  exponent : Option (Bool × List Char)

namespace Written

def pointed (ds : List Char) : List Char :=
  if ds.isEmpty then [] else '.' :: ds

def scaling : Option (Bool × List Char) → List Char
  | some (negative, ds) => 'e' :: (if negative then '-' else '+') :: ds
  | none => []

def text (w : Written) : List Char :=
  Binary64.sign w.negative ++ (w.whole ++ (pointed w.fraction ++ scaling w.exponent))

def power (w : Written) : Option Int :=
  w.exponent.map fun (negative, ds) => if negative then -(natOf ds : Int) else natOf ds

def literal (w : Written) : Decimal.Literal :=
  ⟨w.negative, w.fraction.isEmpty && w.power.isNone,
    .ofParts w.whole w.fraction (w.power.getD 0)⟩

structure Proper (w : Written) : Prop where
  whole : IsWhole w.whole
  fraction : ∀ c ∈ w.fraction, c.isDigit = true
  exponent : ∀ e ∈ w.exponent, e.2 ≠ [] ∧ ∀ c ∈ e.2, c.isDigit = true

theorem spanWhole_append {ds rest : List Char} (whole : IsWhole ds)
    (ends : ∀ c ∈ rest.head?, c.isDigit = false) : spanWhole (ds ++ rest) = some (ds, rest) := by
  obtain ⟨digits, rfl | ⟨nonempty, nonzero⟩⟩ := whole
  next => rfl
  next =>
    have run := digitRun?_append nonempty digits ends
    unfold spanWhole
    split
    next cs begins =>
      obtain ⟨c, ds, rfl⟩ := List.exists_cons_of_ne_nil nonempty
      simp only [List.cons_append, List.cons.injEq] at begins
      simp [begins.1] at nonzero
    next => exact run

theorem spanFraction_append {ds rest : List Char} (digits : ∀ c ∈ ds, c.isDigit = true)
    (ends : ∀ c ∈ rest.head?, c.isDigit = false ∧ c ≠ '.') :
    spanFraction (pointed ds ++ rest) = some (ds, rest) := by
  by_cases empty : ds = []
  next =>
    subst empty
    cases rest with
    | nil => rfl
    | cons c rest =>
      have point := (ends c (by simp)).2
      simp only [pointed, List.isEmpty_nil, if_true, List.nil_append]
      unfold spanFraction
      split
      next begins => exact absurd (List.cons.inj begins).1 point
      next => rfl
  next =>
    have run := digitRun?_append empty digits fun c head => (ends c head).1
    simpa [pointed, empty, spanFraction] using run

theorem spanExponent_append (w : Written) (proper : w.Proper) {rest : List Char}
    (ends : Ends rest) : spanExponent (scaling w.exponent ++ rest) = some (w.power, rest) := by
  cases exponent : w.exponent with
  | none =>
    cases rest with
    | nil => simp [scaling, spanExponent, power, exponent]
    | cons c rest =>
      have head := ends c (by simp)
      simp [scaling, spanExponent, power, exponent, head]
  | some e =>
    obtain ⟨nonempty, digits⟩ := proper.exponent e (by simp [exponent])
    have run := digitRun?_append nonempty digits fun c head => (ends c head).1
    obtain ⟨negative, ds⟩ := e
    cases negative <;> simp [scaling, spanExponent, power, exponent, spanSign, run]

theorem spanLiteral_append (w : Written) (proper : w.Proper) {rest : List Char}
    (ends : Ends rest) : spanLiteral (w.text ++ rest) = some (w.literal, rest) := by
  have afterFraction : ∀ c ∈ (scaling w.exponent ++ rest).head?, c.isDigit = false ∧ c ≠ '.' := by
    intro c head
    cases exponent : w.exponent with
    | none =>
      rw [exponent] at head
      exact ⟨(ends c head).1, (ends c head).2.1⟩
    | some e =>
      obtain rfl : 'e' = c := by simpa [exponent, scaling] using head
      decide
  have afterWhole : ∀ c ∈ (pointed w.fraction ++ (scaling w.exponent ++ rest)).head?,
      c.isDigit = false := by
    intro c head
    by_cases empty : w.fraction.isEmpty
    next => exact (afterFraction c (by simpa [pointed, empty] using head)).1
    next =>
      obtain rfl : '.' = c := by simpa [pointed, empty] using head
      decide
  have whole := spanWhole_append proper.whole afterWhole
  have fraction := spanFraction_append proper.fraction afterFraction
  have exponent := w.spanExponent_append proper ends
  cases negative : w.negative with
  | true => simp [spanLiteral, text, negative, Binary64.sign, whole, fraction, exponent, literal]
  | false =>
    obtain ⟨c, cs, first⟩ := proper.whole.exists_cons
    have digit : c ≠ '-' := by
      rintro rfl
      exact absurd (proper.whole.1 '-' (by simp [first])) (by decide)
    rw [first, List.cons_append] at whole
    simp [spanLiteral, text, negative, Binary64.sign, first, digit, whole, fraction, exponent,
      literal]

def ofInt (n : Int) : Written := ⟨n < 0, digitsOf n.natAbs, [], none⟩

theorem text_ofInt (n : Int) : (ofInt n).text = Number.intText n := by
  simp [text, ofInt, pointed, scaling, Number.intText]

theorem proper_ofInt (n : Int) : (ofInt n).Proper :=
  ⟨isWhole_digitsOf _, by simp [ofInt], by simp [ofInt]⟩

theorem literal_ofInt (n : Int) : (ofInt n).literal = ⟨n < 0, true, ⟨n.natAbs, 0⟩⟩ := by
  simp [literal, ofInt, power, Decimal.ofParts]

theorem text_head (w : Written) (proper : w.Proper) :
    ∃ c cs, w.text = c :: cs ∧ (c = '-' ∨ c.isDigit = true) := by
  cases negative : w.negative with
  | true => exact ⟨'-', _, by simp [text, negative, Binary64.sign]; rfl, .inl rfl⟩
  | false =>
    obtain ⟨c, cs, first⟩ := proper.whole.exists_cons
    refine ⟨c, _, by simp [text, negative, Binary64.sign, first]; rfl, .inr ?_⟩
    exact proper.whole.1 c (by simp [first])

structure Holds (w : Written) (d : Decimal) : Prop where
  proper : w.Proper
  marked : w.literal.isWhole = false
  value : w.literal.magnitude.value = d.value

theorem isWhole_zeros {n k : Nat} (zero : n = 0 → k = 0) :
    IsWhole (digitsOf n ++ List.replicate k '0') := by
  constructor
  next =>
    intro c member
    rcases List.mem_append.1 member with digit | digit
    · exact isDigit_of_mem_digitsOf digit
    · rw [(List.mem_replicate.1 digit).2]
      decide
  next =>
    by_cases first : n = 0
    next =>
      rw [first, zero first]
      exact .inl rfl
    next =>
      have head := head?_digitsOf first
      obtain ⟨c, cs, digits⟩ := List.exists_cons_of_ne_nil (digitsOf_ne_nil n)
      rw [digits] at head ⊢
      exact .inr ⟨by simp, head⟩

theorem holds_integral (negative : Bool) {d : Decimal} (zero : d.digits = 0 → d.exponent = 0)
    {k : Nat} (integral : d.exponent = k) :
    Holds ⟨negative, digitsOf d.digits ++ List.replicate k '0', ['0'], none⟩ d := by
  have all : natOf (digitsOf d.digits ++ List.replicate k '0' ++ ['0']) = d.digits * 10 ^ k * 10 := by
    have zeros : natOf (List.replicate k '0') = 0 := by simp [natOf]
    rw [natOf_append, natOf_append, natOf_digitsOf, zeros]
    simp [natOf, Nat.ofDigitChars_cons, Nat.mul_comm]
  refine ⟨⟨isWhole_zeros fun first => ?_, by simp, by simp⟩, rfl, ?_⟩
  · have := zero first
    omega
  · simp only [literal, Decimal.ofParts, all, power, Decimal.value, integral]
    simp

theorem isWhole_take {n j : Nat} (positive : 0 < j) (zero : n = 0 → j = 1) :
    IsWhole ((digitsOf n).take j) := by
  refine ⟨fun c member => isDigit_of_mem_digitsOf (List.mem_of_mem_take member), ?_⟩
  by_cases first : n = 0
  next =>
    rw [first, zero first]
    exact .inl rfl
  next =>
    have head := head?_digitsOf first
    obtain ⟨c, cs, digits⟩ := List.exists_cons_of_ne_nil (digitsOf_ne_nil n)
    obtain ⟨k, rfl⟩ := Nat.exists_eq_succ_of_ne_zero positive.ne'
    rw [digits] at head ⊢
    exact .inr ⟨by simp, head⟩

-- The point stands between the digits, or in front of them all with zeros between it and them.
theorem exists_pointed {d : Decimal} (broken : d.exponent < 0) :
    ∃ whole fraction, (∀ marksWhole, d.positional marksWhole = whole ++ '.' :: fraction) ∧
      IsWhole whole ∧ (∀ c ∈ fraction, c.isDigit = true) ∧ fraction ≠ [] ∧
      Decimal.ofParts whole fraction 0 = d := by
  have below : ¬d.exponent ≥ 0 := not_le.2 broken
  by_cases inside : (-d.exponent).toNat < (digitsOf d.digits).length
  next =>
    let before := (digitsOf d.digits).length - (-d.exponent).toNat
    refine ⟨(digitsOf d.digits).take before, (digitsOf d.digits).drop before, fun marksWhole => ?_,
      isWhole_take (by omega) fun zero => ?_, fun c member => ?_, by simp [before]; omega, ?_⟩
    · simp only [Decimal.positional, below, inside, if_true, if_false]
      rfl
    · have single : (digitsOf 0).length = 1 := rfl
      rw [zero, single] at inside
      omega
    · exact isDigit_of_mem_digitsOf (List.mem_of_mem_drop member)
    · have places : (0 : Int) - ((digitsOf d.digits).drop before).length = d.exponent := by
        simp only [before, List.length_drop]
        omega
      rw [Decimal.ofParts, List.take_append_drop, natOf_digitsOf, places]
  next =>
    let zeros := (-d.exponent).toNat - (digitsOf d.digits).length
    refine ⟨['0'], List.replicate zeros '0' ++ digitsOf d.digits, fun marksWhole => ?_,
      ⟨by simp, .inl rfl⟩, fun c member => ?_, by simp [digitsOf_ne_nil], ?_⟩
    · simp only [Decimal.positional, below, inside, if_false]
      rfl
    · rcases List.mem_append.1 member with digit | digit
      · rw [(List.mem_replicate.1 digit).2]
        decide
      · exact isDigit_of_mem_digitsOf digit
    · have places : (0 : Int) - (List.replicate zeros '0' ++ digitsOf d.digits).length = d.exponent := by
        simp only [zeros, List.length_append, List.length_replicate]
        omega
      have counted : natOf (['0'] ++ (List.replicate zeros '0' ++ digitsOf d.digits)) = d.digits := by
        have padded := natOf_zeros_append (zeros + 1) (digitsOf d.digits)
        rwa [List.replicate_succ, natOf_digitsOf, List.cons_append] at padded
      rw [Decimal.ofParts, places, counted]

theorem exists_positional (negative : Bool) {d : Decimal} (zero : d.digits = 0 → d.exponent = 0) :
    ∃ w : Written, w.negative = negative ∧
      w.text = Binary64.sign negative ++ d.positional true ∧ w.Holds d := by
  by_cases integral : d.exponent ≥ 0
  next =>
    obtain ⟨k, exponent⟩ := Int.eq_ofNat_of_zero_le integral
    refine ⟨_, rfl, ?_, holds_integral negative zero exponent⟩
    simp [text, pointed, scaling, Decimal.positional, exponent]
  next =>
    obtain ⟨whole, fraction, written, proper, digits, shown, magnitude⟩ :=
      exists_pointed (not_le.1 integral)
    refine ⟨⟨negative, whole, fraction, none⟩, rfl, ?_, ⟨proper, digits, by simp⟩, ?_, ?_⟩
    · simp [text, pointed, scaling, shown, written]
    · simp [literal, shown]
    · exact congrArg Decimal.value magnitude

theorem exists_scientific (negative : Bool) (d : Decimal) :
    ∃ w : Written, w.negative = negative ∧
      w.text = Binary64.sign negative ++ d.scientific ∧ w.Holds d := by
  let e := d.leading
  let fraction := (digitsOf d.digits).drop 1
  have digits (c : Char) (member : c ∈ fraction) : c.isDigit = true :=
    isDigit_of_mem_digitsOf (List.mem_of_mem_drop member)
  refine ⟨⟨negative, (digitsOf d.digits).take 1, fraction, some (decide (e < 0), digitsOf e.natAbs)⟩,
    rfl, ?_, ⟨isWhole_take (by decide) fun _ => rfl, digits, ?_⟩, ?_, ?_⟩
  · simp [text, pointed, scaling, Decimal.scientific, fraction, e]
  · rintro _ ⟨⟩
    exact ⟨digitsOf_ne_nil _, fun c member => isDigit_of_mem_digitsOf member⟩
  · simp [literal, power]
  · have places : e - fraction.length = d.exponent := by
      have some : 0 < (digitsOf d.digits).length := Nat.length_toDigits_pos
      simp only [e, fraction, Decimal.leading, List.length_drop]
      omega
    have magnitude : Decimal.ofParts ((digitsOf d.digits).take 1) fraction e = d := by
      rw [Decimal.ofParts, List.take_append_drop, natOf_digitsOf, places]
    simp only [literal, power, Option.map_some, Option.getD_some, signed_natOf, magnitude]

end Written

open BinaryFormat

theorem exponent_of_shortest {tie : Tie} {rank : Nat} (finite : rank < double.infinity)
    (zero : (double.shortest tie rank).digits = 0) : (double.shortest tie rank).exponent = 0 := by
  have rounded := ofDecimal_shortest tie finite
  simp only [ofDecimal, zero, true_or, if_true] at rounded
  simp [← rounded, shortest]

theorem exists_written (negative : Bool) {rank : Nat} (finite : rank < double.infinity) :
    ∃ w : Written, w.negative = negative ∧
      w.text = Binary64.sign negative ++ (double.shortest style.tie rank).layOut style.layout ∧
      w.Holds (double.shortest style.tie rank) := by
  let d := double.shortest style.tie rank
  by_cases near : -5 ≤ d.leading ∧ d.leading ≤ 15
  next =>
    have laidOut : d.layOut style.layout = d.positional true := if_pos near
    rw [laidOut]
    exact Written.exists_positional negative (exponent_of_shortest finite)
  next =>
    have laidOut : d.layOut style.layout = d.scientific := if_neg near
    rw [laidOut]
    exact Written.exists_scientific negative d

theorem numberOf?_marked {l : Decimal.Literal} (marked : l.isWhole = false) {rank : Nat}
    (finite : rank < double.infinity) (rounded : double.ofDecimal l.magnitude = rank) :
    numberOf? l = some (.float (.signed l.negative rank finite.le)) := by
  subst rounded
  simp [numberOf?, marked, Binary64.ofDecimal, Binary64.isFinite, finite]

theorem numberOf?_negative {k : Nat} (nonzero : k ≠ 0) {m : Number}
    (held : NumberKind.ofInt? .int64 (-k) = some m) :
    numberOf? ⟨true, true, ⟨k, 0⟩⟩ = some m := by
  simp [numberOf?, nonzero, held]

theorem numberOf?_nonnegative {k : Nat} {m : Number}
    (held : (NumberKind.ofInt? .int64 k <|> NumberKind.ofInt? .uint64 k) = some m) :
    numberOf? ⟨false, true, ⟨k, 0⟩⟩ = some m := by
  cases signed : NumberKind.ofInt? .int64 k <;> simp_all [numberOf?]

theorem exists_written_number {n : Number} (finite : n.IsFinite) :
    ∃ w : Written, numberText n = w.text ∧ w.Proper ∧ numberOf? w.literal = some n.canonical := by
  cases n with
  | int n =>
    refine ⟨.ofInt n.toInt, (Written.text_ofInt _).symm, Written.proper_ofInt _, ?_⟩
    have held := Number.ofInt?_of_signed n
    rw [Written.literal_ofInt]
    by_cases negative : n.toInt < 0
    next =>
      have magnitude : -(n.toInt.natAbs : Int) = n.toInt := by omega
      rw [decide_eq_true negative]
      exact numberOf?_negative (by omega) (by rw [magnitude, held]; rfl)
    next =>
      have magnitude : (n.toInt.natAbs : Int) = n.toInt := by omega
      rw [decide_eq_false negative]
      exact numberOf?_nonnegative (by rw [magnitude, held]; rfl)
  | uint n =>
    refine ⟨.ofInt n.toNat, (Written.text_ofInt _).symm, Written.proper_ofInt _, ?_⟩
    rw [Written.literal_ofInt, decide_eq_false (by omega), Int.natAbs_natCast]
    apply numberOf?_nonnegative
    rw [Number.ofInt?_of_unsigned, Number.canonical]
    cases NumberKind.ofInt? .int64 n.toNat <;> rfl
  | float x =>
    cases x with
    | nan => cases finite
    | signed negative rank bound =>
      have below : rank < double.infinity := by simpa [Number.IsFinite, Binary64.isFinite] using finite
      obtain ⟨w, rfl, text, holds⟩ := exists_written negative below
      refine ⟨w, ?_, holds.proper, ?_⟩
      · simp only [numberText, Binary64.render, below, if_true, ← text]
      · have rounded := (ofDecimal_congr double holds.value).trans (ofDecimal_shortest _ below)
        exact numberOf?_marked holds.marked below rounded

end Json

end EntityQuery
