import EntityQuery.Numeric.Number
import EntityQuery.Proofs.Numeric.Kind
import EntityQuery.Proofs.Numeric.Widening

set_option autoImplicit false

namespace EntityQuery

open BinaryFormat

namespace BinaryFormat

-- What is rounded keeps its order. Within one unit both are at most half of it away; beyond it, the
-- significand of the greater is full, and the smaller reaches no further than to its least.
theorem nearest_mono (f : BinaryFormat) {a b c d : Nat} (hb : b ≠ 0) (hd : d ≠ 0)
    (most : (a : ℚ) / b ≤ c / d) : f.nearest a b ≤ f.nearest c d := by
  by_cases zero : a = 0
  next => simp [nearest, zero]
  next =>
    have some : (0 : ℚ) < a / b :=
      div_pos (by exact_mod_cast Nat.pos_of_ne_zero zero) (by exact_mod_cast Nat.pos_of_ne_zero hb)
    have nonzero : c ≠ 0 := by
      rintro rfl
      rw [Nat.cast_zero, zero_div] at most
      exact absurd some (not_lt.2 most)
    have bits : leadingBit a b ≤ leadingBit c d := by
      rw [leadingBit_eq_log zero hb, leadingBit_eq_log nonzero hd]
      exact Int.log_mono_right some most
    rcases most.eq_or_lt with same | less
    next => exact (f.nearest_congr hb hd same).le
    next =>
      obtain ⟨rank, q, parts, rounded, -, carried, value, near⟩ := f.exists_nearest zero hb _ rfl
      obtain ⟨rank', q', parts', rounded', full, -, value', near'⟩ :=
        f.exists_nearest nonzero hd _ rfl
      generalize unit : max (leadingBit a b - f.fractionBits) f.minExponent = u at *
      generalize unit' : max (leadingBit c d - f.fractionBits) f.minExponent = v at *
      rw [rounded, rounded', parts, parts']
      apply min_le_min_right
      rcases (show u ≤ v by omega).eq_or_lt with equal | further
      next =>
        subst equal
        have apart : (q : ℚ) * 2 ^ u < (q' + 1 : Nat) * 2 ^ u := by
          rw [value] at near
          rw [value'] at near'
          push_cast
          linarith [abs_le.1 near, abs_le.1 near']
        have significands : q < q' + 1 := by
          exact_mod_cast lt_of_mul_lt_mul_right apart (two_zpow_pos u).le
        omega
      next =>
        have reached := full (by omega)
        have exponents : (u - f.minExponent).toNat + 1 ≤ (v - f.minExponent).toNat := by omega
        calc (u - f.minExponent).toNat * 2 ^ f.fractionBits + q
          _ ≤ (u - f.minExponent).toNat * 2 ^ f.fractionBits + 2 ^ (f.fractionBits + 1) :=
            Nat.add_le_add_left carried _
          _ = ((u - f.minExponent).toNat + 1) * 2 ^ f.fractionBits + 2 ^ f.fractionBits := by ring
          _ ≤ (v - f.minExponent).toNat * 2 ^ f.fractionBits + q' :=
            Nat.add_le_add (Nat.mul_le_mul_right _ exponents) reached

theorem nearest_whole_mono {m n : Nat} (most : m ≤ n) : double.nearest m 1 ≤ double.nearest n 1 := by
  apply double.nearest_mono one_ne_zero one_ne_zero
  rw [Nat.cast_one, div_one, div_one]
  exact_mod_cast most

theorem value_nearest_whole {n : Nat} (small : n < 2 ^ 53) :
    double.value (double.nearest n 1) = n := by
  by_cases zero : n = 0
  next => simp [zero, nearest, value, scaled]
  next =>
    have counts : (n : ℚ) / (1 : Nat) = n * (2 : ℚ) ^ (0 : ℤ) := by simp
    have low := leadingBit_lt zero one_ne_zero counts small
    have high : 0 ≤ leadingBit n 1 := by
      have one : (1 : ℚ) ≤ (n : ℚ) / (1 : Nat) := by
        rw [Nat.cast_one, div_one]
        exact_mod_cast Nat.one_le_iff_ne_zero.2 zero
      rw [leadingBit_eq_log zero one_ne_zero, ← Int.zpow_le_iff_le_log (by decide) (by linarith)]
      simpa using one
    obtain ⟨i, places⟩ := Int.eq_ofNat_of_zero_le (show 0 ≤ 52 - leadingBit n 1 by omega)
    obtain ⟨rank, q, parts, rounded, -, carried, value, near⟩ :=
      double.exists_nearest zero one_ne_zero (-i) (by simp only [double]; omega)
    have units : (n : ℚ) / (1 : Nat) = (n * 2 ^ i : Nat) * (2 : ℚ) ^ (-i : ℤ) := by
      push_cast
      rw [div_one, mul_assoc, zpow_neg, zpow_natCast, mul_inv_cancel₀ (by positivity), mul_one]
    have finite : rank ≤ double.infinity := by
      simp only [double, Nat.pow_eq] at parts carried ⊢
      omega
    rw [units, value] at near
    have same := eq_of_near (near.trans_lt (half_lt_self (two_zpow_pos _)))
    rw [rounded, min_eq_left finite, value, ← same, ← units, Nat.cast_one, div_one]

theorem nearest_whole_lt {m n : Nat} (small : m < 2 ^ 53) (less : m < n) :
    double.nearest m 1 < double.nearest n 1 := by
  have next : double.nearest m 1 < double.nearest (m + 1) 1 := by
    apply (nearest_whole_mono (Nat.le_succ m)).lt_of_ne
    intro same
    by_cases last : m + 1 < 2 ^ 53
    next =>
      have equal : (m : ℚ) = (m + 1 : Nat) := by
        rw [← value_nearest_whole small, same, value_nearest_whole last]
      exact absurd (by exact_mod_cast equal) (Nat.succ_ne_self m).symm
    next =>
      obtain rfl : m = 2 ^ 53 - 1 := by omega
      revert same
      decide
  exact next.trans_le (nearest_whole_mono less)

end BinaryFormat

namespace Binary64

def wordPosition (i : Int) : Int :=
  if i < 0 then -double.nearest i.natAbs 1 else double.nearest i.natAbs 1

theorem position_ofInt (i : Int) : (ofInt i).position = some (wordPosition i) := by
  by_cases negative : i < 0 <;> simp [ofInt, position, wordPosition, negative]

theorem wordPosition_mono {i j : Int} (most : i ≤ j) : wordPosition i ≤ wordPosition j := by
  simp only [wordPosition]
  by_cases negative : i < 0 <;> by_cases negative' : j < 0
  · have magnitudes := nearest_whole_mono (show j.natAbs ≤ i.natAbs by omega)
    simp only [negative, negative', if_true]
    omega
  · simp only [negative, negative', if_true, if_false]
    omega
  · omega
  · have magnitudes := nearest_whole_mono (show i.natAbs ≤ j.natAbs by omega)
    simp only [negative, negative', if_false]
    omega

theorem wordPosition_lt {i j : Int} (less : i < j) (small : i.natAbs < 2 ^ 53 ∨ j.natAbs < 2 ^ 53) :
    wordPosition i < wordPosition j := by
  simp only [wordPosition]
  by_cases negative : i < 0 <;> by_cases negative' : j < 0
  · have magnitudes := nearest_whole_lt (m := j.natAbs) (n := i.natAbs) (by omega) (by omega)
    simp only [negative, negative', if_true]
    omega
  · have some : double.nearest 0 1 < double.nearest i.natAbs 1 :=
      nearest_whole_lt (by decide) (by omega)
    simp only [negative, negative', if_true, if_false]
    omega
  · omega
  · have magnitudes := nearest_whole_lt (m := i.natAbs) (n := j.natAbs) (by omega) (by omega)
    simp only [negative, negative', if_false]
    omega

theorem compare_wordPosition {i j : Int} (apart : wordPosition i = wordPosition j → i = j) :
    Ord.compare (wordPosition i) (wordPosition j) = Ord.compare i j := by
  rcases lt_trichotomy i j with less | rfl | greater
  next =>
    have below := (wordPosition_mono less.le).lt_of_ne fun same => less.ne (apart same)
    rw [compare_lt_iff_lt.2 less, compare_lt_iff_lt.2 below]
  next => simp
  next =>
    have above := (wordPosition_mono greater.le).lt_of_ne fun same => greater.ne' (apart same.symm)
    rw [compare_gt_iff_gt.2 greater, compare_gt_iff_gt.2 above]

theorem position_eq_of_compare {x y : Binary64} (ties : x.compare y = some .eq) :
    x.position = y.position := by
  cases hx : x.position <;> cases hy : y.position <;> simp_all [compare]

def Conflates (x : Binary64) (i j : Int) : Prop :=
  i ≠ j ∧ (ofInt i).position = x.position ∧ (ofInt j).position = x.position

variable {x : Binary64} {i j : Int}

theorem Conflates.symm (conflated : x.Conflates i j) : x.Conflates j i :=
  ⟨conflated.1.symm, conflated.2.2, conflated.2.1⟩

theorem Conflates.same (conflated : x.Conflates i j) : wordPosition i = wordPosition j := by
  have same := conflated.2.1.trans conflated.2.2.symm
  rwa [position_ofInt, position_ofInt, Option.some.injEq] at same

theorem Conflates.large (conflated : x.Conflates i j) : 2 ^ 53 ≤ i.natAbs ∧ 2 ^ 53 ≤ j.natAbs := by
  have same := conflated.same
  by_contra small
  have small : i.natAbs < 2 ^ 53 ∨ j.natAbs < 2 ^ 53 := by omega
  rcases conflated.1.lt_or_gt with less | less
  · exact absurd same (wordPosition_lt less small).ne
  · exact absurd same.symm (wordPosition_lt less small.symm).ne

theorem Conflates.isNaN (conflated : x.Conflates i j) : x.isNaN = false := by
  cases x with
  | nan => cases (position_ofInt i).symm.trans conflated.2.1
  | signed => rfl

end Binary64

namespace Number

variable {m n y : Number} {i j : Int}

theorem position_of_whole? (whole : n.whole? = some i) :
    n.toBinary64.position = some (Binary64.wordPosition i) := by
  rw [toBinary64_of_whole? whole, Binary64.position_ofInt]

theorem isNaN_of_whole? (whole : n.whole? = some i) : n.isNaN = false := by
  cases n with
  | int | uint => rfl
  | float => cases whole

theorem exists_position (ordered : n.isNaN = false) : ∃ p, n.toBinary64.position = some p := by
  cases n with
  | int | uint => exact ⟨_, Binary64.position_ofInt _⟩
  | float x =>
    cases x with
    | nan => cases ordered
    | signed => exact ⟨_, rfl⟩

theorem compare_of_whole? (hm : m.whole? = some i) (hn : n.whole? = some j) :
    m.compare n = some (Ord.compare i j) := by
  simp [compare, hm, hn]

theorem compare_float (m : Number) (x : Binary64) : m.compare (float x) = m.toBinary64.compare x := by
  cases m <;> rfl

theorem float_compare (x : Binary64) (n : Number) : (float x).compare n = x.compare n.toBinary64 :=
  rfl

theorem compare_cases (m n : Number) : (∃ i j, m.whole? = some i ∧ n.whole? = some j) ∨
    m.compare n = m.toBinary64.compare n.toBinary64 := by
  cases hm : m.whole? with
  | none => exact .inr (by simp [compare, hm])
  | some i =>
    cases hn : n.whole? with
    | none => exact .inr (by simp [compare, hn])
    | some j => exact .inl ⟨i, j, rfl, rfl⟩

theorem compare_of_position {p q : Int} (hm : m.toBinary64.position = some p)
    (hn : n.toBinary64.position = some q) :
    m.toBinary64.compare n.toBinary64 = some (Ord.compare p q) := by
  simp [Binary64.compare, hm, hn]

theorem position_le {p q : Int} (hm : m.toBinary64.position = some p)
    (hn : n.toBinary64.position = some q) (most : m.compare n ≠ some .gt) : p ≤ q := by
  rcases compare_cases m n with ⟨i, j, word, word'⟩ | places
  next =>
    rw [compare_of_whole? word word', Ne, Option.some.injEq, compare_gt_iff_gt, not_lt] at most
    rw [position_of_whole? word, Option.some.injEq] at hm
    rw [position_of_whole? word', Option.some.injEq] at hn
    exact hm ▸ hn ▸ Binary64.wordPosition_mono most
  next =>
    rw [places, compare_of_position hm hn, Ne, Option.some.injEq, compare_gt_iff_gt, not_lt] at most
    exact most

inductive Conflates : Number → Number → Number → Prop where
  | intro {x : Binary64} {m n : Number} {i j : Int} (hm : m.whole? = some i) (hn : n.whole? = some j)
      (same : x.Conflates i j) : Conflates (.float x) m n

theorem Conflates.symm (conflated : y.Conflates m n) : y.Conflates n m := by
  cases conflated with
  | intro hm hn same => exact .intro hn hm same.symm

theorem Conflates.isNaN (conflated : y.Conflates m n) :
    m.isNaN = false ∧ y.isNaN = false ∧ n.isNaN = false := by
  cases conflated with
  | intro hm hn same => exact ⟨isNaN_of_whole? hm, same.isNaN, isNaN_of_whole? hn⟩

theorem Conflates.ties (conflated : y.Conflates m n) :
    m.compare y = some .eq ∧ y.compare n = some .eq := by
  cases conflated with
  | @intro x m n i j hm hn same =>
    have place : x.position = some (Binary64.wordPosition i) := by rw [← same.2.1, Binary64.position_ofInt]
    have place' : x.position = some (Binary64.wordPosition j) := by rw [← same.2.2, Binary64.position_ofInt]
    rw [compare_float, float_compare]
    constructor
    · simp [Binary64.compare, position_of_whole? hm, place]
    · simp [Binary64.compare, position_of_whole? hn, place']

theorem between_iff (hm : m.isNaN = false) (hy : y.isNaN = false) (hn : n.isNaN = false)
    (greater : m.compare n = some .gt) :
    m.compare y ≠ some .gt ∧ y.compare n ≠ some .gt ↔ y.Conflates m n := by
  constructor
  · rintro ⟨first, second⟩
    obtain ⟨p, hp⟩ := exists_position hm
    obtain ⟨q, hq⟩ := exists_position hy
    obtain ⟨r, hr⟩ := exists_position hn
    have below := position_le hp hq first
    have above := position_le hq hr second
    rcases compare_cases m n with ⟨i, j, word, word'⟩ | places
    next =>
      rw [compare_of_whole? word word', Option.some.injEq, compare_gt_iff_gt] at greater
      have mono := Binary64.wordPosition_mono greater.le
      rw [position_of_whole? word, Option.some.injEq] at hp
      rw [position_of_whole? word', Option.some.injEq] at hr
      cases y with
      | float x =>
        refine .intro word word' ⟨greater.ne', ?_, ?_⟩
        · rw [Binary64.position_ofInt, hp]
          exact hq.symm ▸ congrArg some (by omega)
        · rw [Binary64.position_ofInt, hr]
          exact hq.symm ▸ congrArg some (by omega)
      | int l | uint l =>
        rw [compare_of_whole? word rfl, Ne, Option.some.injEq, compare_gt_iff_gt, not_lt] at first
        rw [compare_of_whole? rfl word', Ne, Option.some.injEq, compare_gt_iff_gt, not_lt] at second
        omega
    next =>
      rw [places, compare_of_position hp hr, Option.some.injEq, compare_gt_iff_gt] at greater
      omega
  · intro conflated
    simp [conflated.ties]

end Number

end EntityQuery
