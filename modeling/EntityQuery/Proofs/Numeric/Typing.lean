import EntityQuery.Proofs.Numeric.Numeral
import EntityQuery.Proofs.Numeric.Order

set_option autoImplicit false

namespace EntityQuery

open BinaryFormat
open Text

namespace Binary64

theorem position_ofDecimal_whole (negative : Bool) {n : Nat} (small : n < 10 ^ 20) :
    (ofDecimal negative ⟨n, 0⟩).position = (ofInt (if negative then -(n : Int) else n)).position := by
  have rounded := double.ofDecimal_whole small
  cases negative with
  | false => simp [position, ofDecimal, ofInt, rounded]
  | true =>
    by_cases zero : n = 0
    next =>
      subst zero
      decide
    next => simp [position, ofDecimal, ofInt, rounded, zero]

theorem eq_of_position {negative : Bool} {r s : Nat} {hr : r ≤ double.infinity} {hs : s ≤ double.infinity}
    (same : (signed negative r hr).position = (signed negative s hs).position) :
    signed negative r hr = signed negative s hs := by
  cases negative <;> simp [position] at same <;> simp [same]

theorem exists_ofSingle (negative : Bool) (rank : Nat) :
    ∃ r bound, ofSingle negative rank = signed negative r bound := by
  unfold ofSingle
  split
  next => exact ⟨_, Nat.le_refl _, rfl⟩
  next => exact ⟨_, double.nearest_le _ _, rfl⟩

end Binary64

namespace Number

theorem isFinite_toBinary64 {n : Number} (finite : n.IsFinite) : n.toBinary64.isFinite = true := by
  cases word : n.whole? with
  | some i =>
    have small := nearest_whole_mono (natAbs_lt_of_whole? word).le
    have most : double.nearest (10 ^ 20) 1 < double.infinity := by decide
    rw [toBinary64_of_whole? word]
    exact decide_eq_true (small.trans_lt most)
  | none =>
    cases n with
    | int | uint => cases word
    | float x => exact finite

end Number

namespace NumberKind

-- A number that the kind keeps when it reads its text: its own numbers are less than, equal to and
-- greater than what is read just as they are of the number itself. Words are kept by the kinds of
-- words, and other numbers where no two words of the kind are rounded to them. Floating-point kinds
-- keep what they hold.
inductive Keeps (k : NumberKind) : Number → Prop where
  | word {n : Number} {i : Int} (whole : k.isFloat = false) (word : n.whole? = some i) : Keeps k n
  | apart {x : Binary64} (whole : k.isFloat = false)
      (apart : ∀ a b, k.Admits a → k.Admits b → ¬Number.Conflates (.float x) a b) : Keeps k (.float x)
  | held {n : Number} (floating : k.isFloat = true) (held : k.Admits (.float n.toBinary64)) : Keeps k n

variable {k : NumberKind} {n m x : Number}

-- What a kind of words reads has the place of the number, and is the number if that is a word.
theorem read_whole_inv (whole : k.isFloat = false) (finite : n.IsFinite) (read : k.read n.render = some m) :
    ∃ i, m.whole? = some i ∧ k.Admits m ∧ n.toBinary64.position = some (Binary64.wordPosition i) ∧
      ∀ j, n.whole? = some j → i = j := by
  cases word : n.whole? with
  | some j =>
    obtain ⟨held, -⟩ := read_spelled_inv whole (Number.spelled_of_whole? word) read
    rw [signed_natOf] at held
    exact ⟨j, whole?_of_ofInt? held, admits_of_ofInt? held, Number.position_of_whole? word,
      fun _ same => Option.some.inj same⟩
  | none =>
    obtain ⟨negative, body, d, spelled⟩ := Number.exists_spelled finite
    obtain ⟨held, rfl⟩ := read_spelled_inv whole spelled read
    have word' := whole?_of_ofInt? held
    have small := Number.natAbs_lt_of_whole? word'
    refine ⟨_, word', admits_of_ofInt? held, ?_, nofun⟩
    rw [spelled.rounded, Binary64.position_ofDecimal_whole, Binary64.position_ofInt]
    cases negative <;> simpa using small

-- What a floating-point kind reads has the sign of the number, so that it is the number if it has its place.
theorem read_float_inv (floating : k.isFloat = true) (finite : n.IsFinite) (read : k.read n.render = some m) :
    ∃ y : Binary64, m = .float y ∧ y.isNaN = false ∧ k.Admits m ∧
      (k.Admits (.float n.toBinary64) → y = n.toBinary64) ∧
      (y.position = n.toBinary64.position → y = n.toBinary64) := by
  obtain ⟨negative, body, d, spelled⟩ := Number.exists_spelled finite
  have finite := Number.isFinite_toBinary64 finite
  have rounded := spelled.rounded
  rw [read_spelled floating spelled] at read
  by_cases single : k = .float32
  next =>
    subst single
    rw [if_pos rfl] at read
    split at read
    next =>
      obtain rfl := Option.some.inj read
      obtain ⟨rank, bound, signed⟩ := Binary64.exists_ofSingle negative (single.ofDecimal d)
      refine ⟨_, rfl, ?_, .inr ⟨rfl, .inr ⟨negative, _, rfl⟩⟩, fun held => ?_, fun same => ?_⟩
      · rw [Binary64.ofDecimalSingle, signed]
        rfl
      · exact ofDecimalSingle_of_admits held finite rounded
      · rw [Binary64.ofDecimalSingle, signed, rounded] at same ⊢
        exact Binary64.eq_of_position same
    next => cases read
  next =>
    rw [if_neg single, ← rounded] at read
    have double : k = .float64 := by cases k <;> first | rfl | contradiction
    obtain rfl := Option.some.inj ((if_pos finite).symm.trans read)
    exact ⟨_, rfl, by rw [rounded]; rfl, .inl double, fun _ => rfl, fun _ => rfl⟩

theorem Keeps.compare_eq (keeps : k.Keeps n) (finite : n.IsFinite) (read : k.read n.render = some m)
    (admitted : k.Admits x) : x.compare n = x.compare m := by
  cases keeps with
  | word whole word =>
    obtain ⟨j, word', -, -, same⟩ := read_whole_inv whole finite read
    obtain rfl := same _ word
    obtain ⟨l, held⟩ := admitted.exists_word whole
    rw [Number.compare_of_whole? held word, Number.compare_of_whole? held word']
  | @apart t whole apart =>
    obtain ⟨j, word, admitted', place, -⟩ := read_whole_inv whole finite read
    obtain ⟨l, held⟩ := admitted.exists_word whole
    have place : t.position = some (Binary64.wordPosition j) := place
    have places : x.compare (.float t) =
        some (Ord.compare (Binary64.wordPosition l) (Binary64.wordPosition j)) :=
      (Number.compare_float x t).trans
        (@Number.compare_of_position x (.float t) _ _ (Number.position_of_whole? held) place)
    rw [places, Number.compare_of_whole? held word, Binary64.compare_wordPosition]
    intro same
    by_contra differ
    refine apart x m admitted admitted' (.intro held word ⟨differ, ?_, ?_⟩)
    · rw [Binary64.position_ofInt, same, place]
    · rw [Binary64.position_ofInt, place]
  | held floating held =>
    obtain ⟨y, rfl, -, -, same, -⟩ := read_float_inv floating finite read
    obtain ⟨z, rfl⟩ := admitted.exists_float floating
    rw [same held, Number.float_compare, Number.float_compare]
    rfl

theorem keeps_of_ties (finite : n.IsFinite) (read : k.read n.render = some m)
    (ties : ∀ x, k.Admits x → (x.compare n = some .eq ↔ x.compare m = some .eq)) : k.Keeps n := by
  by_cases whole : k.isFloat = false
  next =>
    obtain ⟨i, word, -, -, -⟩ := read_whole_inv whole finite read
    cases n with
    | int | uint => exact .word whole rfl
    | float t =>
      refine .apart whole fun a b ha hb conflated => ?_
      have first := (ties a ha).1 conflated.ties.1
      have second := (ties b hb).1 conflated.symm.ties.1
      cases conflated with
      | @intro _ _ _ l j hl hj same =>
        rw [Number.compare_of_whole? hl word, Option.some.injEq, compare_eq_iff_eq] at first
        rw [Number.compare_of_whole? hj word, Option.some.injEq, compare_eq_iff_eq] at second
        exact same.1 (first.trans second.symm)
  next =>
    rw [Bool.not_eq_false] at whole
    obtain ⟨y, rfl, ordered, admitted, -, same⟩ := read_float_inv whole finite read
    have tie := (ties _ admitted).2 (Number.compare_self ordered)
    exact .held whole (same (Binary64.position_eq_of_compare tie) ▸ admitted)

theorem keeps_of_small {i : Int} (finite : n.IsFinite) (read : k.read n.render = some m)
    (word : m.whole? = some i) (small : i.natAbs < 2 ^ 53) : k.Keeps n := by
  by_cases whole : k.isFloat = false
  next =>
    obtain ⟨j, word', -, place, -⟩ := read_whole_inv whole finite read
    obtain rfl := Option.some.inj (word.symm.trans word')
    cases n with
    | int | uint => exact .word whole rfl
    | float t =>
      refine .apart whole fun a b ha hb conflated => ?_
      cases conflated with
      | @intro _ _ _ l r hl hr same =>
        have place : (Binary64.ofInt i).position = t.position := by
          rw [Binary64.position_ofInt]
          exact place.symm
        have alone (l : Int) (held : (Binary64.ofInt l).position = t.position) : l = i := by
          by_contra differ
          have large := Binary64.Conflates.large ⟨differ, held, place⟩
          omega
        exact same.1 ((alone l same.2.1).trans (alone r same.2.2).symm)
  next =>
    obtain ⟨y, rfl, -⟩ := read_float_inv (Bool.not_eq_false _ ▸ whole) finite read
    cases word

end NumberKind

end EntityQuery
