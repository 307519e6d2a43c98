import EntityQuery.Coercion
import EntityQuery.Proofs.Numeric.Literal
import EntityQuery.Proofs.Numeric.Widening

set_option autoImplicit false

namespace EntityQuery

open Text BinaryFormat

theorem Decimal.positional_digits {d : Decimal} (integral : d.exponent ≥ 0) :
    ∀ c ∈ d.positional false, c.isDigit = true := by
  intro c member
  simp only [positional, integral, if_true, Bool.false_eq_true, if_false, List.append_nil] at member
  rcases List.mem_append.1 member with digit | zero
  · exact isDigit_of_mem_digitsOf digit
  · rw [(List.mem_replicate.1 zero).2]
    decide

theorem Decimal.positional_chars (d : Decimal) :
    ∀ c ∈ d.positional false, c.isDigit = true ∨ c = '.' := by
  by_cases integral : d.exponent ≥ 0
  next => exact fun c member => .inl (positional_digits integral c member)
  next =>
    obtain ⟨whole, fraction, written, proper, digits, -⟩ := Json.Written.exists_pointed (not_le.1 integral)
    rw [written]
    exact List.forall_mem_append.2 ⟨fun c member => .inl (proper.1 c member),
      List.forall_mem_cons.2 ⟨.inr rfl, fun c member => .inl (digits c member)⟩⟩

namespace Number

theorem render_ne_nil (n : Number) : n.render ≠ [] := by
  have int (i : Int) : intText i ≠ [] := by simp [intText, digitsOf_ne_nil]
  have positional (d : Decimal) : d.positional false ≠ [] := by
    simp only [Decimal.positional]
    split
    next => simp [digitsOf_ne_nil]
    next => split <;> simp
  cases n with
  | int i => exact int i.toInt
  | uint i => exact int i.toNat
  | float x =>
    cases x with
    | nan => exact List.cons_ne_nil _ _
    | signed negative rank bound =>
      refine List.append_ne_nil_of_right_ne_nil _ ?_
      split
      next => exact positional _
      next => exact List.cons_ne_nil _ _

theorem render_chars {holds : Char → Bool} (digit : ∀ c, c.isDigit = true → holds c = true)
    (marks : ['-', '.', 'N', 'a', 'i', 'n', 'f'].all holds = true) (x : Number) :
    ∀ c ∈ x.render, holds c = true := by
  simp only [List.all_cons, List.all_nil, Bool.and_eq_true] at marks
  obtain ⟨minus, point, capital, letter, i, n, f, -⟩ := marks
  have words : ['N', 'a', 'N'].all holds = true ∧ ['i', 'n', 'f'].all holds = true := by
    simp [capital, letter, i, n, f]
  have digits (k : Nat) : ∀ c ∈ digitsOf k, holds c = true :=
    fun c member => digit c (isDigit_of_mem_digitsOf member)
  have sign (negative : Bool) : ∀ c ∈ Binary64.sign negative, holds c = true := by
    cases negative with
    | false => exact List.forall_mem_nil _
    | true => exact List.forall_mem_singleton.2 minus
  have positional (d : Decimal) : ∀ c ∈ d.positional false, holds c = true := by
    intro c member
    rcases d.positional_chars c member with isDigit | rfl
    · exact digit c isDigit
    · exact point
  cases x with
  | int | uint => exact List.forall_mem_append.2 ⟨sign _, digits _⟩
  | float y =>
    cases y with
    | nan => exact List.all_eq_true.1 words.1
    | signed negative rank bound =>
      refine List.forall_mem_append.2 ⟨sign _, ?_⟩
      split
      next => exact positional _
      next => exact List.all_eq_true.1 words.2

end Number

namespace NumberKind

variable {k : NumberKind} {ds : List Char}

theorem coerce_numeral (k : NumberKind) {text : String} {negative : Bool} {body : List Char}
    (written : text.toList = Binary64.sign negative ++ body)
    (chars : ∀ c ∈ body, c.isDigit = true ∨ c = '.') :
    k.coerce text = (k.read text.toList).getD k.minValue := by
  have each : ∀ c ∈ text.toList, c.isDigit = true ∨ c = '.' ∨ c = '-' := by
    intro c member
    rw [written, List.mem_append] at member
    rcases member with sign | inside
    · cases negative with
      | true => exact .inr (.inr (List.mem_singleton.1 sign))
      | false => cases sign
    · exact (chars c inside).imp_right .inl
  have plain : normalizeDigits text.toList = text.toList := by
    refine normalizeDigits_eq_self fun c member => ?_
    rcases each c member with digit | rfl | rfl
    · have most := (Char.isDigit_iff_toNat.1 digit).2
      simp only [Char.reduceToNat] at most
      exact ⟨ne_of_isDigit digit (by decide), by omega⟩
    · decide
    · decide
  have shown (c : Char) (member : c ∈ text.toList) : isBlank c = false := by
    rcases each c member with digit | rfl | rfl
    · exact isBlank_of_isDigit digit
    · decide
    · decide
  have whole : trim text.toList = text.toList :=
    trim_eq_self (fun c first => shown c (List.mem_of_mem_head? first)) fun c last =>
      shown c (List.mem_of_mem_getLast? last)
  have kept : body.filter (fun c => c.isDigit || c = '.') = body :=
    List.filter_eq_self.2 fun c member => by simpa using chars c member
  have same : (if text.toList.head? = some '-'
      then '-' :: text.toList.filter (fun c => c.isDigit || c = '.')
      else text.toList.filter (fun c => c.isDigit || c = '.')) = text.toList := by
    rw [written]
    cases negative with
    | true => simp [Binary64.sign, kept]
    | false =>
      have unsigned : body.head? ≠ some '-' := fun first => by
        have minus := chars '-' (List.mem_of_mem_head? first)
        revert minus
        decide
      simp only [Binary64.sign, Bool.false_eq_true, if_false, List.nil_append, unsigned, kept]
  simp only [coerce, plain, whole, same]

theorem coerce_digits (k : NumberKind) {text : String}
    (digits : ∀ c ∈ text.toList, c.isDigit = true) :
    k.coerce text = (k.read text.toList).getD k.minValue :=
  @coerce_numeral k text false text.toList rfl fun c member => .inl (digits c member)

theorem read_whole (whole : k.isFloat = false) (nonempty : ds ≠ [])
    (digits : ∀ c ∈ ds, c.isDigit = true) : k.read ds = k.ofInt? (natOf ds) := by
  have all : ds.all Char.isDigit = true := List.all_eq_true.2 digits
  simp [read, readInt, whole, spanSign_digits digits, nonempty, all]

theorem readMagnitude_digits (nonempty : ds ≠ []) (digits : ∀ c ∈ ds, c.isDigit = true) :
    readMagnitude ds = some ⟨natOf ds, 0⟩ := by
  have run : ds.takeWhile Char.isDigit = ds := List.takeWhile_eq_self_iff.2 digits
  have rest : ds.dropWhile Char.isDigit = [] := List.dropWhile_eq_nil_iff.2 digits
  simp [readMagnitude, run, rest, nonempty, Decimal.ofParts]

theorem render_coerce_whole (whole : k.isFloat = false) {text : String} (nonempty : text.toList ≠ [])
    (digits : ∀ c ∈ text.toList, c.isDigit = true) : (k.coerce text).render =
      if natOf text.toList ≤ k.range.2 then digitsOf (natOf text.toList) else k.minValue.render := by
  have below : k.range.1 ≤ 0 := by cases k <;> decide
  rw [k.coerce_digits digits, read_whole whole nonempty digits]
  split
  next held =>
    have inside : k.range.1 ≤ natOf text.toList ∧ natOf text.toList ≤ k.range.2 := by omega
    obtain ⟨x, some⟩ := exists_ofInt? whole inside
    rw [some, Option.getD_some, Number.render_of_whole? (whole?_of_ofInt? some)]
    rfl
  next beyond =>
    rw [ofInt?, if_neg (by omega), Option.getD_none]

def rounded (k : NumberKind) (n : Nat) : Binary64 :=
  if k = .float32 then .ofDecimalSingle false ⟨n, 0⟩ else .ofDecimal false ⟨n, 0⟩

theorem read_rounded (floating : k.isFloat = true) (nonempty : ds ≠ [])
    (digits : ∀ c ∈ ds, c.isDigit = true) :
    k.read ds = if (k.rounded (natOf ds)).isFinite then some (.float (k.rounded (natOf ds))) else none := by
  rw [read, if_pos floating, readFloat, spanSign_digits digits, readMagnitude_digits nonempty digits]
  rfl

end NumberKind

-- A decimal whose text has no point is the whole number that its digits count.
theorem Decimal.value_of_positional {d : Decimal} (integral : d.exponent ≥ 0) :
    (Decimal.mk (natOf (d.positional false)) 0).value = d.value := by
  obtain ⟨k, exponent⟩ := Int.eq_ofNat_of_zero_le integral
  have zeros : natOf (List.replicate k '0') = 0 := by simp [natOf]
  have counted : natOf (d.positional false) = 10 ^ k * d.digits := by
    simp [positional, exponent, natOf_append, natOf_digitsOf, zeros]
  rw [counted, value, value, exponent]
  push_cast
  simp [mul_comm]

theorem BinaryFormat.ofDecimal_whole (f : BinaryFormat) {n : Nat} (small : n < 10 ^ 20) :
    f.ofDecimal ⟨n, 0⟩ = f.nearest n 1 := by
  have some : 0 < (digitsOf n).length := Nat.length_toDigits_pos
  have short : (digitsOf n).length ≤ 20 := (Nat.length_toDigits_le_iff (by decide) (by decide)).2 small
  have leading : (Decimal.mk n 0).leading = (digitsOf n).length - 1 := by simp [Decimal.leading]
  by_cases zero : n = 0
  next => simp [ofDecimal, nearest, zero]
  next =>
    have low : ¬(n = 0 ∨ (Decimal.mk n 0).leading < -325) := by omega
    rw [ofDecimal, if_neg low, if_neg (by omega)]
    simp [Decimal.ratio]

theorem Decimal.exists_magnitude (d : Decimal) :
    ∃ e, NumberKind.readMagnitude (d.positional false) = some e ∧ e.value = d.value := by
  by_cases integral : d.exponent ≥ 0
  next =>
    have nonempty : d.positional false ≠ [] := by simp [positional, integral, digitsOf_ne_nil]
    exact ⟨_, NumberKind.readMagnitude_digits nonempty (positional_digits integral),
      value_of_positional integral⟩
  next =>
    obtain ⟨whole, fraction, written, proper, digits, -, magnitude⟩ :=
      Json.Written.exists_pointed (not_le.1 integral)
    obtain ⟨c, cs, first⟩ := proper.exists_cons
    have before : (whole ++ '.' :: fraction).takeWhile Char.isDigit = whole := by
      rw [List.takeWhile_append_of_pos proper.1]
      simp
    have after : (whole ++ '.' :: fraction).dropWhile Char.isDigit = '.' :: fraction := by
      rw [List.dropWhile_append_of_pos proper.1]
      simp
    have run : fraction.takeWhile Char.isDigit = fraction := List.takeWhile_eq_self_iff.2 digits
    have rest : fraction.dropWhile Char.isDigit = [] := List.dropWhile_eq_nil_iff.2 digits
    refine ⟨d, ?_, rfl⟩
    simp only [written, NumberKind.readMagnitude, before, after, run, rest, magnitude]
    simp [first]

namespace Number

structure Spelled (n : Number) (negative : Bool) (body : List Char) (d : Decimal) : Prop where
  text : n.render = Binary64.sign negative ++ body
  chars : ∀ c ∈ body, c.isDigit = true ∨ c = '.'
  magnitude : NumberKind.readMagnitude body = some d
  rounded : n.toBinary64 = .ofDecimal negative d

theorem isFinite_of_digits {x : Number} (digits : ∀ c ∈ x.render, c.isDigit = true) : x.IsFinite := by
  cases x with
  | int | uint => trivial
  | float y =>
    cases y with
    | nan => exact absurd (digits 'N' (.head _)) (by decide)
    | signed negative rank bound =>
      by_contra infinite
      have letter : 'i' ∈ (float (.signed negative rank bound)).render := by
        have top : ¬rank < double.infinity := by simpa [IsFinite, Binary64.isFinite] using infinite
        simp [render, Binary64.render, top]
      exact absurd (digits 'i' letter) (by decide)

theorem natAbs_lt_of_whole? {n : Number} {i : Int} (whole : n.whole? = some i) :
    i.natAbs < 10 ^ 20 := by
  cases n with
  | int n =>
    obtain rfl := Option.some.inj whole
    have least := n.le_toInt
    have most := n.toInt_lt
    omega
  | uint n =>
    obtain rfl := Option.some.inj whole
    have most := n.toNat_lt
    omega
  | float => cases whole

theorem spelled_of_whole? {n : Number} {i : Int} (whole : n.whole? = some i) :
    n.Spelled (i < 0) (digitsOf i.natAbs) ⟨i.natAbs, 0⟩ where
  text := render_of_whole? whole
  chars c member := .inl (isDigit_of_mem_digitsOf member)
  magnitude := by
    have read := NumberKind.readMagnitude_digits (digitsOf_ne_nil i.natAbs) fun c member =>
      isDigit_of_mem_digitsOf member
    rwa [natOf_digitsOf] at read
  rounded := by
    simp only [toBinary64_of_whole? whole, Binary64.ofInt, Binary64.ofDecimal,
      double.ofDecimal_whole (natAbs_lt_of_whole? whole)]

theorem exists_spelled {n : Number} (finite : n.IsFinite) :
    ∃ negative body d, n.Spelled negative body d := by
  cases n with
  | int | uint => exact ⟨_, _, _, spelled_of_whole? rfl⟩
  | float x =>
    cases x with
    | nan => cases finite
    | signed negative rank bound =>
      have below : rank < double.infinity := by simpa [IsFinite, Binary64.isFinite] using finite
      let d := double.shortest style.tie rank
      obtain ⟨e, magnitude, value⟩ := d.exists_magnitude
      refine ⟨negative, _, e, ?_, d.positional_chars, magnitude, ?_⟩
      · simp only [render, Binary64.render, below, if_true]
        rfl
      · have rounded := (ofDecimal_congr double value).trans (ofDecimal_shortest _ below)
        simp only [toBinary64, Binary64.ofDecimal, rounded]

end Number

namespace NumberKind

variable {k : NumberKind} {n : Number} {negative : Bool} {body : List Char} {d : Decimal}

theorem coerce_spelled (k : NumberKind) (spelled : n.Spelled negative body d) :
    k.coerce n.text = (k.read n.render).getD k.minValue := by
  have written : n.text.toList = n.render := String.toList_ofList
  rw [← written]
  exact k.coerce_numeral (written.trans spelled.text) spelled.chars

theorem spanSign_spelled (spelled : n.Spelled negative body d) : spanSign n.render = (negative, body) := by
  rw [spelled.text]
  cases negative with
  | true => rfl
  | false =>
    have apart {c : Char} (sign : c.isDigit = false ∧ c ≠ '.') : c ∉ body := fun member => by
      simpa [sign] using spelled.chars c member
    exact spanSign_unsigned (apart (by decide)) (apart (by decide))

theorem read_spelled (floating : k.isFloat = true) (spelled : n.Spelled negative body d) :
    let x := if k = .float32 then Binary64.ofDecimalSingle negative d else .ofDecimal negative d
    k.read n.render = if x.isFinite then some (.float x) else none := by
  rw [read, if_pos floating, readFloat, spanSign_spelled spelled]
  simp only [spelled.magnitude]
  rfl

theorem read_spelled_inv {m : Number} (whole : k.isFloat = false) (spelled : n.Spelled negative body d)
    (read : k.read n.render = some m) :
    k.ofInt? (if negative then -(natOf body : Int) else natOf body) = some m ∧ d = ⟨natOf body, 0⟩ := by
  simp only [NumberKind.read, whole, Bool.false_eq_true, if_false, readInt, spanSign_spelled spelled] at read
  split at read
  next => cases read
  next digits =>
    simp only [Bool.or_eq_true, not_or, Bool.not_eq_true, Bool.not_eq_false',
      List.all_eq_true, List.isEmpty_eq_false_iff] at digits
    have magnitude := readMagnitude_digits digits.1.1 digits.1.2
    rw [spelled.magnitude] at magnitude
    exact ⟨read, Option.some.inj magnitude⟩

-- Single precision rounds to its own numbers what double precision rounds to them.
theorem ofDecimalSingle_of_admits {x : Binary64} (admitted : Admits .float32 (.float x))
    (finite : x.isFinite = true) (rounded : x = .ofDecimal negative d) :
    Binary64.ofDecimalSingle negative d = x := by
  rcases admitted with other | ⟨-, rfl | ⟨negative', r, rfl⟩⟩
  next => cases other
  next => cases finite
  next =>
    simp only [Binary64.ofSingle] at finite rounded ⊢
    split at finite
    next top => simp [Binary64.infinite, Binary64.isFinite] at finite
    next below =>
      rw [if_neg below] at rounded ⊢
      obtain ⟨rfl, rank⟩ := Binary64.signed.inj rounded
      rw [Binary64.ofDecimalSingle, ofDecimal_single (not_le.1 below) rank.symm, Binary64.ofSingle,
        if_neg below]

theorem read_intText {i : Int} {x : Number} (whole : k.isFloat = false) (held : k.ofInt? i = some x) :
    k.read (Number.intText i) = some x := by
  have word := whole?_of_ofInt? held
  have digits : (digitsOf i.natAbs).all Char.isDigit = true :=
    List.all_eq_true.2 fun c member => isDigit_of_mem_digitsOf member
  have refused : (decide (i < 0) && !k.isSigned) = false := by
    by_contra signed
    simp only [Bool.not_eq_false, Bool.and_eq_true, decide_eq_true_eq, Bool.not_eq_true'] at signed
    have least := (range_unsigned (storage_eq_unsigned whole signed.2)).1
    rw [ofInt?, if_neg (by omega)] at held
    cases held
  rw [← Number.render_of_whole? word, read, if_neg (by simp [whole]), readInt,
    spanSign_spelled (Number.spelled_of_whole? word)]
  simp only [digits, refused, List.isEmpty_eq_false_iff.2 (digitsOf_ne_nil i.natAbs), Bool.not_true,
    Bool.or_false, Bool.false_eq_true, if_false, signed_natOf, held]

theorem read_render {x : Number} (admitted : k.Admits x) (finite : x.IsFinite) :
    k.read x.render = some x := by
  cases word : x.whole? with
  | some i =>
    obtain ⟨whole, held⟩ := ofInt?_of_admits admitted word
    rw [Number.render_of_whole? word, read_intText whole held]
  | none =>
    obtain ⟨y, rfl⟩ : ∃ y, x = .float y := by
      cases x with
      | int | uint => cases word
      | float y => exact ⟨y, rfl⟩
    obtain ⟨negative, body, d, spelled⟩ := Number.exists_spelled finite
    have rounded : y = .ofDecimal negative d := spelled.rounded
    have floating : k.isFloat = true := by rcases admitted with rfl | ⟨rfl, -⟩ <;> rfl
    have held : (if k = .float32 then Binary64.ofDecimalSingle negative d
        else .ofDecimal negative d) = y := by
      split
      next single =>
        subst single
        exact ofDecimalSingle_of_admits admitted finite rounded
      next => exact rounded.symm
    have read := read_spelled floating spelled
    simp only [held] at read
    rw [read]
    exact if_pos finite

end NumberKind

end EntityQuery
