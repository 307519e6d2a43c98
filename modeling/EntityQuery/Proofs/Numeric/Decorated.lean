import EntityQuery.Proofs.Numeric.Numeral

set_option autoImplicit false

namespace EntityQuery

namespace Text

def Form (digit c : Char) : Prop :=
  digit.isDigit = true ∧ ∃ start ∈ [0x30, 0x06F0, 0x0660], c.toNat + 0x30 = digit.toNat + start

-- Texts that differ in the scripts of their digits, and in commas that the second one has besides.
inductive Recast : List Char → List Char → Prop where
  | nil : Recast [] []
  | same {c : Char} {cs ds : List Char} (rest : Recast cs ds) : Recast (c :: cs) (c :: ds)
  | digit {digit c d : Char} {cs ds : List Char} (form : Form digit c) (form' : Form digit d)
      (rest : Recast cs ds) : Recast (c :: cs) (d :: ds)
  | comma {cs ds : List Char} (rest : Recast cs ds) : Recast cs (',' :: ds)

-- Digits in a text, each in any of the scripts, among other characters that are neither digits nor
-- points.
inductive Decorated : List Char → List Char → Prop where
  | nil : Decorated [] []
  | digit {digit c : Char} {ds cs : List Char} (form : Form digit c) (rest : Decorated ds cs) :
      Decorated (digit :: ds) (c :: cs)
  | mark {c : Char} {ds cs : List Char} (other : ∀ digit, ¬Form digit c) (point : c ≠ '.')
      (rest : Decorated ds cs) : Decorated ds (c :: cs)

def Minus (cs : List Char) : Prop :=
  cs.find? (fun c => !isBlank c && c != ',') = some '-'

instance : DecidablePred Minus := fun cs =>
  inferInstanceAs (Decidable (cs.find? (fun c => !isBlank c && c != ',') = some '-'))

def Counts (c : Char) : Bool :=
  c.isDigit || c = '.'

variable {digit c d : Char} {cs ds : List Char}

theorem toAsciiDigit_of_form (form : Form digit c) : toAsciiDigit c = digit := by
  obtain ⟨isDigit, start, script, value⟩ := form
  have bounds := Char.isDigit_iff_toNat.1 isDigit
  simp only [Char.reduceToNat] at bounds
  have localized (start : Nat) (value : c.toNat + 0x30 = digit.toNat + start)
      (found : (localZeros.find? fun z => z ≤ c.toNat && c.toNat ≤ z + 9) = some start) :
      toAsciiDigit c = digit := by
    have same : '0'.toNat + (c.toNat - start) = digit.toNat := by
      simp only [Char.reduceToNat]
      omega
    simp only [toAsciiDigit, found, same, Char.ofNat_toNat]
  simp only [List.mem_cons, List.not_mem_nil, or_false] at script
  rcases script with rfl | rfl | rfl
  next =>
    have same : c = digit := Char.toNat_inj.1 (by omega)
    rw [same]
    exact toAsciiDigit_eq_self (by omega)
  next =>
    apply localized 0x06F0 value
    simp [localZeros]
    omega
  next =>
    apply localized 0x0660 value
    simp [localZeros]
    omega

theorem toAsciiDigit_cases (c : Char) : toAsciiDigit c = c ∨ Form (toAsciiDigit c) c := by
  unfold toAsciiDigit
  split
  next start found =>
    right
    have script := List.mem_of_find?_eq_some found
    have bounds := List.find?_some found
    simp only [Bool.and_eq_true, decide_eq_true_eq] at bounds
    have digits : ∀ k < 10, (Char.ofNat (0x30 + k)).isDigit = true ∧
        (Char.ofNat (0x30 + k)).toNat = 0x30 + k := by
      decide
    obtain ⟨digit, value⟩ := digits (c.toNat - start) (by omega)
    exact ⟨digit, start, List.mem_cons_of_mem _ script, by simp only [Char.reduceToNat, value]; omega⟩
  next => exact .inl rfl

theorem Form.bounds (form : Form digit c) : 0x30 ≤ c.toNat ∧ c.toNat ≤ 0x39 ∨
    0x660 ≤ c.toNat ∧ c.toNat ≤ 0x669 ∨ 0x6F0 ≤ c.toNat ∧ c.toNat ≤ 0x6F9 := by
  obtain ⟨isDigit, start, script, value⟩ := form
  have bounds := Char.isDigit_iff_toNat.1 isDigit
  simp only [Char.reduceToNat] at bounds
  simp only [List.mem_cons, List.not_mem_nil, or_false] at script
  omega

theorem Form.ne {mark : Char} (form : Form digit c) (low : mark.toNat < 0x30) : c ≠ mark := by
  have bounds := form.bounds
  rintro rfl
  omega

theorem Form.isBlank_eq (form : Form digit c) : isBlank c = false := by
  have bounds := form.bounds
  simp [isBlank, blankRanges]
  omega

theorem isBlank_toAsciiDigit (c : Char) : isBlank (toAsciiDigit c) = isBlank c := by
  rcases toAsciiDigit_cases c with same | form
  · rw [same]
  · rw [form.isBlank_eq, isBlank_of_isDigit form.1]

theorem toAsciiDigit_eq_minus : toAsciiDigit c = '-' ↔ c = '-' := by
  constructor
  · intro minus
    rcases toAsciiDigit_cases c with same | form
    · exact same.symm.trans minus
    · rw [minus] at form
      exact absurd form.1 (by decide)
  · rintro rfl
    rfl

theorem counts_toAsciiDigit (other : ∀ digit, ¬Form digit c) (point : c ≠ '.') :
    Counts (toAsciiDigit c) = false := by
  have same : toAsciiDigit c = c := (toAsciiDigit_cases c).resolve_right (other _)
  have plain : c.isDigit = false := Bool.eq_false_iff.2 fun digit => other c ⟨digit, 0x30, by decide, rfl⟩
  rw [same]
  simp [Counts, plain, point]

theorem normalizeDigits_comma (cs : List Char) : normalizeDigits (',' :: cs) = normalizeDigits cs := rfl

theorem normalizeDigits_cons (other : c ≠ ',') (cs : List Char) :
    normalizeDigits (c :: cs) = toAsciiDigit c :: normalizeDigits cs := by
  simp [normalizeDigits, other]

theorem Recast.normalizeDigits_eq (recast : Recast cs ds) : normalizeDigits ds = normalizeDigits cs := by
  induction recast with
  | nil => rfl
  | @same c cs ds _ ih =>
    by_cases comma : c = ','
    · rw [comma, normalizeDigits_comma, normalizeDigits_comma, ih]
    · rw [normalizeDigits_cons comma, normalizeDigits_cons comma, ih]
  | digit form form' _ ih =>
    rw [normalizeDigits_cons (form.ne (by decide)), normalizeDigits_cons (form'.ne (by decide)), ih,
      toAsciiDigit_of_form form, toAsciiDigit_of_form form']
  | comma _ ih => rw [normalizeDigits_comma, ih]

theorem Decorated.filter_counts (decorated : Decorated ds cs) : (normalizeDigits cs).filter Counts = ds := by
  induction decorated with
  | nil => rfl
  | digit form _ ih =>
    rw [normalizeDigits_cons (form.ne (by decide)), toAsciiDigit_of_form form,
      List.filter_cons_of_pos (by simp [Counts, form.1]), ih]
  | @mark c _ _ other point _ ih =>
    by_cases comma : c = ','
    · rw [comma, normalizeDigits_comma, ih]
    · rw [normalizeDigits_cons comma,
        List.filter_cons_of_neg (by simp [counts_toAsciiDigit other point]), ih]

theorem head?_trim_normalizeDigits : (trim (normalizeDigits cs)).head? = some '-' ↔ Minus cs := by
  have passed : (fun c => decide ((c != ',') = true ∧ ((fun c => !isBlank c) ∘ toAsciiDigit) c = true)) =
      fun c => !isBlank c && c != ',' := by
    funext c
    rw [Bool.decide_and, Bool.decide_eq_true, Bool.decide_eq_true, Function.comp_apply,
      isBlank_toAsciiDigit, Bool.and_comm]
  rw [head?_trim, normalizeDigits, List.find?_map, List.find?_filter, passed, Option.map_eq_some_iff]
  simp only [toAsciiDigit_eq_minus, exists_eq_right, Minus]

end Text

namespace NumberKind

open Text

def counted (text : String) : List Char :=
  (trim (normalizeDigits text.toList)).filter Counts

def negated (text : String) : Bool :=
  (trim (normalizeDigits text.toList)).head? = some '-'

structure ReadsAs (k : NumberKind) (text : String) (n : Int) : Prop where
  nonempty : counted text ≠ []
  digits : ∀ c ∈ counted text, c.isDigit = true
  value : n = if negated text then -(natOf (counted text) : Int) else natOf (counted text)
  range : k.range.1 ≤ n ∧ n ≤ k.range.2
  signed : negated text = true → k.isSigned = true

structure Renders (text : String) (n : Int) : Prop where
  digits : ∃ zeros, Decorated (List.replicate zeros '0' ++ digitsOf n.natAbs) text.toList
  negative : n < 0 → Minus text.toList
  positive : 0 < n → ¬Minus text.toList

variable {k : NumberKind} {text text' : String} {n : Int} {x : Number}

theorem coerce_eq (k : NumberKind) (text : String) : k.coerce text =
    (k.read (if negated text then '-' :: counted text else counted text)).getD k.minValue := by
  simp only [coerce, negated, counted, decide_eq_true_eq]
  rfl

theorem negated_iff : negated text = true ↔ Minus text.toList := by
  rw [negated, decide_eq_true_eq, head?_trim_normalizeDigits]

theorem readInt_eq_some_iff {negative : Bool} {ds : List Char} (counts : ∀ c ∈ ds, Counts c = true) :
    k.readInt (if negative then '-' :: ds else ds) = some x ↔
      ds ≠ [] ∧ (∀ c ∈ ds, c.isDigit = true) ∧ (negative = true → k.isSigned = true) ∧
        k.ofInt? (if negative then -(natOf ds : Int) else natOf ds) = some x := by
  have spanned : spanSign (if negative then '-' :: ds else ds) = (negative, ds) := by
    cases negative with
    | true => rfl
    | false =>
      have apart {c : Char} (other : Counts c = false) : c ∉ ds := fun member => by
        rw [counts c member] at other
        cases other
      exact spanSign_unsigned (apart (by decide)) (apart (by decide))
  have refused : (ds.isEmpty || !ds.all Char.isDigit || negative && !k.isSigned) = true ↔
      ¬(ds ≠ [] ∧ (∀ c ∈ ds, c.isDigit = true) ∧ (negative = true → k.isSigned = true)) := by
    rw [← List.all_eq_true, ne_eq, ← List.isEmpty_iff]
    cases ds.isEmpty <;> cases ds.all Char.isDigit <;> cases negative <;> cases k.isSigned <;> decide
  rw [readInt, spanned]
  dsimp only
  split
  next bad =>
    refine ⟨fun found => ?_, fun held => absurd ⟨held.1, held.2.1, held.2.2.1⟩ (refused.1 bad)⟩
    cases found
  next good =>
    obtain ⟨nonempty, digits, signed⟩ := Classical.not_not.1 (mt refused.2 good)
    exact ⟨fun held => ⟨nonempty, digits, signed, held⟩, fun held => held.2.2.2⟩

theorem read_counted_iff (whole : k.isFloat = false) :
    k.read (if negated text then '-' :: counted text else counted text) = some x ↔
      ∃ n, k.ReadsAs text n ∧ k.ofInt? n = some x := by
  have counts : ∀ c ∈ counted text, Counts c = true := fun c member => (List.mem_filter.1 member).2
  rw [read, whole, if_neg Bool.false_ne_true, readInt_eq_some_iff counts]
  constructor
  · rintro ⟨nonempty, digits, signed, held⟩
    exact ⟨_, ⟨nonempty, digits, rfl, range_of_ofInt? held, signed⟩, held⟩
  · rintro ⟨n, ⟨nonempty, digits, value, -, signed⟩, held⟩
    exact ⟨nonempty, digits, signed, value ▸ held⟩

theorem counted_eq (text : String) : counted text = (normalizeDigits text.toList).filter Counts := by
  refine filter_trim (fun c blank => ?_) _
  have other : c.isDigit = false := Bool.eq_false_iff.2 fun digit => by
    rw [isBlank_of_isDigit digit] at blank
    cases blank
  have point : c ≠ '.' := by
    rintro rfl
    revert blank
    decide
  simp [Counts, other, point]

theorem Renders.value_eq (renders : Renders text n) :
    (if negated text then -(natOf (counted text) : Int) else natOf (counted text)) = n := by
  obtain ⟨zeros, decorated⟩ := renders.digits
  have negative := renders.negative
  have positive := renders.positive
  rw [counted_eq, decorated.filter_counts, natOf_zeros_append, natOf_digitsOf]
  rw [← negated_iff] at negative positive
  split
  next minus =>
    have most : ¬0 < n := fun less => positive less minus
    omega
  next plain =>
    have least : ¬n < 0 := fun less => plain (negative less)
    omega

theorem Renders.readsAs (renders : Renders text n) (inside : k.range.1 ≤ n ∧ n ≤ k.range.2)
    (signed : negated text = true → k.isSigned = true) : k.ReadsAs text n := by
  obtain ⟨zeros, decorated⟩ := renders.digits
  have counted : counted text = List.replicate zeros '0' ++ digitsOf n.natAbs := by
    rw [counted_eq, decorated.filter_counts]
  refine ⟨?_, ?_, renders.value_eq.symm, inside, signed⟩
  · rw [counted]
    exact List.append_ne_nil_of_right_ne_nil _ (digitsOf_ne_nil _)
  · rw [counted, List.forall_mem_append]
    refine ⟨fun c zero => ?_, fun c member => isDigit_of_mem_digitsOf member⟩
    rw [(List.mem_replicate.1 zero).2]
    rfl

theorem ReadsAs.whole?_coerce (whole : k.isFloat = false) (holds : k.ReadsAs text n) :
    (k.coerce text).whole? = some n := by
  obtain ⟨x, held⟩ := exists_ofInt? whole holds.range
  rw [coerce_eq, (read_counted_iff whole).2 ⟨n, holds, held⟩]
  exact whole?_of_ofInt? held

theorem coerce_of_not_readsAs (whole : k.isFloat = false) (none : ∀ n, ¬k.ReadsAs text n) :
    k.coerce text = k.minValue := by
  have unread : k.read (if negated text then '-' :: counted text else counted text) = .none :=
    Option.eq_none_iff_forall_ne_some.2 fun x found => by
      obtain ⟨n, holds, -⟩ := (read_counted_iff whole).1 found
      exact none n holds
  rw [coerce_eq, unread, Option.getD_none]

theorem admits_coerce (whole : k.isFloat = false) (text : String) : k.Admits (k.coerce text) := by
  rw [coerce_eq]
  cases found : k.read (if negated text then '-' :: counted text else counted text) with
  | none => exact admits_of_ofInt? (ofInt?_least whole)
  | some x =>
    obtain ⟨n, -, held⟩ := (read_counted_iff whole).1 found
    exact admits_of_ofInt? held

-- An unsigned kind refuses a minus sign even before zero, which is what it takes the text for nonetheless.
theorem Renders.whole?_coerce (whole : k.isFloat = false) (renders : Renders text n)
    (inside : k.range.1 ≤ n ∧ n ≤ k.range.2) : (k.coerce text).whole? = some n := by
  by_cases signed : negated text = true → k.isSigned = true
  next => exact (renders.readsAs inside signed).whole?_coerce whole
  next =>
    obtain ⟨minus, unsigned⟩ := Classical.not_imp.1 signed
    have least := (range_unsigned (storage_eq_unsigned whole (Bool.eq_false_iff.2 unsigned))).1
    have zero : n = k.range.1 := by
      have negative : ¬0 < n := fun positive => renders.positive positive (negated_iff.1 minus)
      omega
    rw [coerce_of_not_readsAs whole fun m holds => unsigned (holds.signed minus), zero]
    exact whole?_of_ofInt? (ofInt?_least whole)

/-- A kind of words takes a text for the integer that the text stands for, where the kind holds it, and for
its least number otherwise. So it holds all that it takes texts for, renderings of its integers are taken for
them, and neither the scripts of digits nor commas make a difference. -/
theorem coerce_decorated (whole : k.isFloat = false) (text : String) :
    (∀ n, k.ReadsAs text n → (k.coerce text).whole? = some n) ∧
    ((∀ n, ¬k.ReadsAs text n) → k.coerce text = k.minValue) ∧
    k.Admits (k.coerce text) ∧
    (∀ n, Renders text n → k.range.1 ≤ n ∧ n ≤ k.range.2 → (k.coerce text).whole? = some n) ∧
    ∀ text' : String, Recast text.toList text'.toList → k.coerce text' = k.coerce text := by
  refine ⟨fun n holds => holds.whole?_coerce whole, coerce_of_not_readsAs whole, admits_coerce whole text,
    fun n renders inside => renders.whole?_coerce whole inside, fun text' recast => ?_⟩
  simp only [coerce, recast.normalizeDigits_eq]

theorem coerce_decorated_weight :
    let plain := "-$104 kg"
    let text := "-$\u06f1,\u06604 kg"
    Recast plain.toList text.toList ∧ Renders plain (-104) ∧ int8.ReadsAs plain (-104) ∧
      (int8.coerce text).whole? = some (-104) ∧ (∀ n, ¬uint8.ReadsAs plain n) ∧
      uint8.coerce plain = uint8.minValue := by
  intro plain text
  have one : Form '1' '1' ∧ Form '1' '\u06f1' := ⟨⟨rfl, 0x30, by decide, rfl⟩, rfl, 0x06F0, by decide, rfl⟩
  have none : Form '0' '0' ∧ Form '0' '\u0660' := ⟨⟨rfl, 0x30, by decide, rfl⟩, rfl, 0x0660, by decide, rfl⟩
  have four : Form '4' '4' := ⟨rfl, 0x30, by decide, rfl⟩
  have recast : Recast ['-', '$', '1', '0', '4', ' ', 'k', 'g']
      ['-', '$', '\u06f1', ',', '\u0660', '4', ' ', 'k', 'g'] :=
    .same <| .same <| .digit one.1 one.2 <| .comma <| .digit none.1 none.2 <| .same <| .same <| .same <|
      .same .nil
  have mark {c : Char} {ds cs : List Char} (other : c.toNat < 0x30 ∨ 0x39 < c.toNat ∧ c.toNat < 0x660)
      (point : c ≠ '.') (rest : Decorated ds cs) : Decorated ds (c :: cs) :=
    .mark (fun digit form => by have bounds := form.bounds; omega) point rest
  have decorated : Decorated ['1', '0', '4'] ['-', '$', '1', '0', '4', ' ', 'k', 'g'] :=
    mark (by decide) (by decide) <| mark (by decide) (by decide) <| .digit one.1 <| .digit none.1 <|
      .digit four <| mark (by decide) (by decide) <| mark (by decide) (by decide) <|
      mark (by decide) (by decide) .nil
  have chars : plain.toList = ['-', '$', '1', '0', '4', ' ', 'k', 'g'] := by decide
  have chars' : text.toList = ['-', '$', '\u06f1', ',', '\u0660', '4', ' ', 'k', 'g'] := by decide
  rw [← chars] at decorated
  rw [← chars, ← chars'] at recast
  have renders : Renders plain (-104) := ⟨⟨0, decorated⟩, fun _ => by decide, fun positive => by omega⟩
  have holds : int8.ReadsAs plain (-104) := renders.readsAs (by decide) fun _ => rfl
  have minus : negated plain = true := by decide
  have refused : ∀ n, ¬uint8.ReadsAs plain n := fun n held =>
    absurd (held.signed minus) (by decide)
  obtain ⟨stands, -, -, -, same⟩ := @coerce_decorated int8 rfl plain
  obtain ⟨-, otherwise, -⟩ := @coerce_decorated uint8 rfl plain
  refine ⟨recast, renders, holds, ?_, refused, otherwise refused⟩
  rw [same text recast]
  exact stands (-104) holds

end NumberKind

end EntityQuery
