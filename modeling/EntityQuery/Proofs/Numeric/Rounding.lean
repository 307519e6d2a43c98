import Mathlib.Algebra.Order.Field.Power
import Mathlib.Data.Int.Log
import Mathlib.Data.Rat.Floor
import Mathlib.Tactic.FieldSimp
import Mathlib.Tactic.NormNum
import Mathlib.Tactic.Positivity
import Mathlib.Tactic.Ring
import EntityQuery.Numeric.Shortest
import EntityQuery.Proofs.Text

set_option autoImplicit false

namespace EntityQuery

-- The leading place is settled by the two powers that enclose a fraction.
theorem log_eq_of_bounds {b : Nat} (base : 1 < b) {x : ℚ} {k : ℤ} (least : (b : ℚ) ^ k ≤ x)
    (most : x < (b : ℚ) ^ (k + 1)) : Int.log b x = k := by
  have positive : 0 < x := lt_of_lt_of_le (zpow_pos (by norm_num; omega) k) least
  have lower := (Int.zpow_le_iff_le_log base positive).1 least
  have upper := (Int.lt_zpow_iff_log_lt base positive).1 most
  omega

theorem pow_div_pow {b : Nat} (base : 0 < b) (e : ℤ) :
    ((Nat.pow b e.toNat : Nat) : ℚ) / (Nat.pow b (-e).toNat : Nat) = (b : ℚ) ^ e := by
  have nonzero : (b : ℚ) ≠ 0 := by positivity
  rw [Nat.pow_eq, Nat.pow_eq, Nat.cast_pow, Nat.cast_pow, ← zpow_natCast, ← zpow_natCast,
    ← zpow_sub₀ nonzero]
  congr 1
  omega

namespace Decimal

def value (d : Decimal) : ℚ := d.digits * (10 : ℚ) ^ d.exponent

theorem value_eq_zero_iff (d : Decimal) : d.value = 0 ↔ d.digits = 0 := by
  have power : (10 : ℚ) ^ d.exponent ≠ 0 := by positivity
  simp [value, power]

theorem ratio_value (d : Decimal) : (d.ratio.1 : ℚ) / d.ratio.2 = d.value := by
  have power := pow_div_pow (b := 10) (by decide) d.exponent
  rw [ratio, value, Nat.cast_mul, mul_div_assoc, power, Nat.cast_ofNat]

theorem ratio_den_ne_zero (d : Decimal) : d.ratio.2 ≠ 0 :=
  (Nat.pow_pos (by decide)).ne'

theorem leading_eq_log {d : Decimal} (nonzero : d.digits ≠ 0) : d.leading = Int.log 10 d.value := by
  obtain ⟨least, most⟩ := Text.digitsOf_bounds nonzero
  have some : 0 < (Text.digitsOf d.digits).length := Nat.length_toDigits_pos
  have power : (0 : ℚ) < 10 ^ d.exponent := by positivity
  have place : d.leading = ((Text.digitsOf d.digits).length - 1 : Nat) + d.exponent := by
    unfold leading
    omega
  symm
  rw [place]
  apply log_eq_of_bounds (by decide)
  next =>
    rw [Nat.cast_ofNat, zpow_add₀ (by norm_num), zpow_natCast, value]
    exact mul_le_mul_of_nonneg_right (by exact_mod_cast least) power.le
  next =>
    have next : (((Text.digitsOf d.digits).length - 1 : Nat) : ℤ) + d.exponent + 1 =
        (Text.digitsOf d.digits).length + d.exponent := by omega
    rw [next, Nat.cast_ofNat, zpow_add₀ (by norm_num), zpow_natCast, value]
    exact mul_lt_mul_of_pos_right (by exact_mod_cast most) power

theorem value_stripped (d : Decimal) : d.stripped.value = d.value := by
  fun_induction stripped d with
  | case1 d strips ih =>
    have tens : d.digits = d.digits / 10 * 10 := by omega
    rw [ih, value, value, zpow_add_one₀ (by norm_num)]
    conv_rhs => rw [tens]
    push_cast
    ring
  | case2 => rfl

end Decimal

namespace BinaryFormat

theorem roundHalfEven_mul_right {k : Nat} (positive : 0 < k) (num den : Nat) :
    roundHalfEven (num * k) (den * k) = roundHalfEven num den := by
  have less : 2 * (num % den * k) < den * k ↔ 2 * (num % den) < den := by
    rw [← Nat.mul_assoc]
    exact Nat.mul_lt_mul_right positive
  have equal : 2 * (num % den * k) = den * k ↔ 2 * (num % den) = den := by
    rw [← Nat.mul_assoc]
    exact Nat.mul_left_inj (by omega)
  simp only [roundHalfEven, Nat.mul_div_mul_right _ _ positive, Nat.mul_mod_mul_right, less, equal]

theorem roundHalfEven_congr {a b c d : Nat} (hb : 0 < b) (hd : 0 < d) (same : a * d = c * b) :
    roundHalfEven a b = roundHalfEven c d := by
  rw [← roundHalfEven_mul_right hd a b, ← roundHalfEven_mul_right hb c d, same, Nat.mul_comm b d]

theorem roundHalfEven_mul {den : Nat} (positive : 0 < den) (m : Nat) :
    roundHalfEven (m * den) den = m := by
  simp [roundHalfEven, positive]

theorem mul_pow_le_iff {b : Nat} (base : 0 < b) {num den : Nat} (positive : 0 < den) (k : ℤ) :
    den * Nat.pow b k.toNat ≤ num * Nat.pow b (-k).toNat ↔ (b : ℚ) ^ k ≤ (num : ℚ) / den := by
  have below : (0 : ℚ) < (Nat.pow b (-k).toNat : Nat) := by exact_mod_cast Nat.pow_pos base
  have unit : (0 : ℚ) < den := by exact_mod_cast positive
  rw [← pow_div_pow base, div_le_div_iff₀ below unit, mul_comm]
  exact_mod_cast Iff.rfl

theorem leadingBit_eq_log {num den : Nat} (hnum : num ≠ 0) (hden : den ≠ 0) :
    leadingBit num den = Int.log 2 ((num : ℚ) / den) := by
  have unit : (0 : ℚ) < den := by exact_mod_cast Nat.pos_of_ne_zero hden
  have numLeast : (2 : ℚ) ^ num.log2 ≤ num := by exact_mod_cast Nat.log2_self_le hnum
  have numMost : (num : ℚ) < 2 ^ (num.log2 + 1) := by exact_mod_cast Nat.lt_log2_self
  have denLeast : (2 : ℚ) ^ den.log2 ≤ den := by exact_mod_cast Nat.log2_self_le hden
  have denMost : (den : ℚ) < 2 ^ (den.log2 + 1) := by exact_mod_cast Nat.lt_log2_self
  let guess : ℤ := num.log2 - den.log2
  have most : (num : ℚ) / den < 2 ^ (guess + 1) := by
    have shift : (2 : ℚ) ^ (guess + 1) * 2 ^ den.log2 = 2 ^ (num.log2 + 1) := by
      rw [← zpow_natCast, ← zpow_natCast, ← zpow_add₀ (by norm_num)]
      congr 1
      push_cast
      omega
    rw [div_lt_iff₀ unit]
    calc (num : ℚ) < 2 ^ (guess + 1) * 2 ^ den.log2 := shift ▸ numMost
      _ ≤ 2 ^ (guess + 1) * den := by gcongr
  have least : (2 : ℚ) ^ (guess - 1) ≤ (num : ℚ) / den := by
    have shift : (2 : ℚ) ^ (guess - 1) * 2 ^ (den.log2 + 1) = 2 ^ num.log2 := by
      rw [← zpow_natCast, ← zpow_natCast, ← zpow_add₀ (by norm_num)]
      congr 1
      push_cast
      omega
    rw [le_div_iff₀ unit]
    calc (2 : ℚ) ^ (guess - 1) * den ≤ 2 ^ (guess - 1) * 2 ^ (den.log2 + 1) := by gcongr
      _ ≤ num := shift ▸ numLeast
  have reached := @mul_pow_le_iff 2 (by decide) num den (Nat.pos_of_ne_zero hden) guess
  symm
  by_cases big : (2 : ℚ) ^ guess ≤ (num : ℚ) / den
  next =>
    have bit : leadingBit num den = guess := if_pos (reached.2 big)
    rw [bit]
    exact log_eq_of_bounds (by decide) big most
  next =>
    have bit : leadingBit num den = guess - 1 := if_neg (mt reached.1 big)
    rw [bit]
    exact log_eq_of_bounds (by decide) least (by simpa using big)

theorem nearest_congr (f : BinaryFormat) {a b c d : Nat} (hb : b ≠ 0) (hd : d ≠ 0)
    (same : (a : ℚ) / b = c / d) : f.nearest a b = f.nearest c d := by
  have cross : a * d = c * b := by
    have unit : (b : ℚ) ≠ 0 := by exact_mod_cast hb
    have unit' : (d : ℚ) ≠ 0 := by exact_mod_cast hd
    exact_mod_cast (div_eq_div_iff unit unit').1 same
  by_cases zero : a = 0
  next =>
    have zero' : c = 0 := by simpa [zero, hb, eq_comm] using cross
    simp [nearest, zero, zero']
  next =>
    have nonzero : c ≠ 0 := by
      rintro rfl
      simp [zero, hd] at cross
    have bit : leadingBit a b = leadingBit c d := by
      rw [leadingBit_eq_log zero hb, leadingBit_eq_log nonzero hd, same]
    have rounded (k l : Nat) : roundHalfEven (a * Nat.pow 2 k) (b * Nat.pow 2 l) =
        roundHalfEven (c * Nat.pow 2 k) (d * Nat.pow 2 l) := by
      apply roundHalfEven_congr
      · exact Nat.mul_pos (Nat.pos_of_ne_zero hb) (Nat.two_pow_pos l)
      · exact Nat.mul_pos (Nat.pos_of_ne_zero hd) (Nat.two_pow_pos l)
      · rw [Nat.mul_mul_mul_comm, cross, Nat.mul_mul_mul_comm]
    simp only [nearest, zero, nonzero, if_false, bit, rounded]

def value (f : BinaryFormat) (rank : Nat) : ℚ :=
  (f.scaled rank).1 * (2 : ℚ) ^ (f.scaled rank).2

theorem ratio_value (f : BinaryFormat) (rank : Nat) :
    ((f.ratio rank).1 : ℚ) / (f.ratio rank).2 = f.value rank := by
  have power := pow_div_pow (b := 2) (by decide) (f.scaled rank).2
  rw [ratio, value, Nat.cast_mul, mul_div_assoc, power, Nat.cast_ofNat]

theorem ratio_den_ne_zero (f : BinaryFormat) (rank : Nat) : (f.ratio rank).2 ≠ 0 :=
  (Nat.two_pow_pos _).ne'

theorem scaled_cases (f : BinaryFormat) (rank : Nat) :
    (rank < 2 ^ f.fractionBits ∧ f.scaled rank = (rank, f.minExponent)) ∨
      ∃ m k : Nat, f.scaled rank = (m, f.minExponent + k) ∧ 2 ^ f.fractionBits ≤ m ∧
        m < 2 ^ (f.fractionBits + 1) ∧ rank = k * 2 ^ f.fractionBits + m := by
  have positive : 0 < 2 ^ f.fractionBits := Nat.two_pow_pos _
  by_cases small : rank < 2 ^ f.fractionBits
  next => exact .inl ⟨small, if_pos small⟩
  next =>
    have full : 1 ≤ rank / 2 ^ f.fractionBits := (Nat.one_le_div_iff positive).2 (not_lt.1 small)
    refine .inr ⟨_, _, if_neg small, Nat.le_add_right _ _, ?_, ?_⟩
    · have rest := Nat.mod_lt rank positive
      simp only [Nat.pow_eq, Nat.pow_succ] at rest ⊢
      omega
    · have parts := Nat.div_add_mod' rank (2 ^ f.fractionBits)
      have carried : (rank / 2 ^ f.fractionBits - 1) * 2 ^ f.fractionBits + 2 ^ f.fractionBits =
          rank / 2 ^ f.fractionBits * 2 ^ f.fractionBits := by
        rw [← Nat.succ_mul, Nat.succ_eq_add_one, Nat.sub_add_cancel full]
      simp only [Nat.pow_eq]
      omega

theorem roundHalfEven_units {num den m : Nat} (hden : den ≠ 0) {unit : ℤ}
    (counts : (num : ℚ) / den = m * (2 : ℚ) ^ unit) :
    roundHalfEven (num * Nat.pow 2 (-unit).toNat) (den * Nat.pow 2 unit.toNat) = m := by
  have below : ((Nat.pow 2 (-unit).toNat : Nat) : ℚ) ≠ 0 := by
    exact_mod_cast (Nat.two_pow_pos _).ne'
  have unit_ne : (den : ℚ) ≠ 0 := by exact_mod_cast hden
  have exact : num * Nat.pow 2 (-unit).toNat = m * (den * Nat.pow 2 unit.toNat) := by
    rw [← Nat.cast_ofNat (R := ℚ), ← pow_div_pow (by decide), ← mul_div_assoc,
      div_eq_div_iff unit_ne below, mul_right_comm, mul_assoc] at counts
    exact_mod_cast counts
  rw [exact]
  exact roundHalfEven_mul (Nat.mul_pos (Nat.pos_of_ne_zero hden) (Nat.two_pow_pos _)) m

theorem two_zpow_pos (e : ℤ) : (0 : ℚ) < 2 ^ e := by
  positivity

-- Nothing is lost where the unit of the fraction is the one of the format.
theorem nearest_units (f : BinaryFormat) {num den m : Nat} (nonzero : num ≠ 0) (hden : den ≠ 0)
    {unit : ℤ} (counts : (num : ℚ) / den = m * (2 : ℚ) ^ unit)
    (fits : max (leadingBit num den - f.fractionBits) f.minExponent = unit) :
    f.nearest num den =
      min ((unit - f.minExponent).toNat * Nat.pow 2 f.fractionBits + m) f.infinity := by
  have rounded := roundHalfEven_units hden counts
  simp only [nearest, nonzero, if_false, fits, rounded]

theorem leadingBit_lt {num den m : Nat} (nonzero : num ≠ 0) (hden : den ≠ 0) {unit : ℤ} {bits : Nat}
    (counts : (num : ℚ) / den = m * (2 : ℚ) ^ unit) (small : m < 2 ^ bits) :
    leadingBit num den < unit + bits := by
  have some : (0 : ℚ) < num / den :=
    div_pos (by exact_mod_cast Nat.pos_of_ne_zero nonzero)
      (by exact_mod_cast Nat.pos_of_ne_zero hden)
  rw [leadingBit_eq_log nonzero hden, ← Int.lt_zpow_iff_log_lt (by decide) some, Nat.cast_ofNat,
    counts, add_comm, zpow_add₀ (by norm_num), zpow_natCast]
  exact mul_lt_mul_of_pos_right (by exact_mod_cast small) (two_zpow_pos _)

theorem leadingBit_eq {num den m : Nat} (nonzero : num ≠ 0) (hden : den ≠ 0) {unit : ℤ} {bits : Nat}
    (counts : (num : ℚ) / den = m * (2 : ℚ) ^ unit) (full : 2 ^ bits ≤ m) (most : m < 2 ^ (bits + 1)) :
    leadingBit num den = bits + unit := by
  rw [leadingBit_eq_log nonzero hden, counts]
  apply log_eq_of_bounds (by decide)
  · rw [Nat.cast_ofNat, zpow_add₀ (by norm_num), zpow_natCast]
    exact mul_le_mul_of_nonneg_right (by exact_mod_cast full) (two_zpow_pos _).le
  · rw [Nat.cast_ofNat, add_right_comm, ← Nat.cast_succ, zpow_add₀ (by norm_num) (Nat.cast _),
      zpow_natCast]
    exact mul_lt_mul_of_pos_right (by exact_mod_cast most) (two_zpow_pos _)

theorem rank_eq_zero {f : BinaryFormat} {rank : Nat} (zero : f.value rank = 0) : rank = 0 := by
  have nothing : (f.scaled rank).1 = 0 := by
    simpa [value, (two_zpow_pos _).ne'] using zero
  rcases f.scaled_cases rank with ⟨_, scaled⟩ | ⟨m, k, scaled, full, _⟩
  · simpa [scaled] using nothing
  · have first : m = 0 := by simpa [scaled] using nothing
    have := Nat.two_pow_pos f.fractionBits
    omega

theorem nearest_ratio (f : BinaryFormat) {rank : Nat} (bound : rank ≤ f.infinity) :
    f.nearest (f.ratio rank).1 (f.ratio rank).2 = rank := by
  have hden := f.ratio_den_ne_zero rank
  have counts := f.ratio_value rank
  generalize (f.ratio rank).1 = num at counts ⊢
  generalize (f.ratio rank).2 = den at counts hden ⊢
  by_cases zero : num = 0
  next =>
    have first : rank = 0 := rank_eq_zero (by rw [← counts, zero, Nat.cast_zero, zero_div])
    simp [nearest, zero, first]
  next =>
    -- Below the least full significand the unit is the least one; above, it leads to the first bit.
    rcases f.scaled_cases rank with ⟨small, scaled⟩ | ⟨m, k, scaled, full, most, parts⟩
    next =>
      rw [value, scaled] at counts
      have low := leadingBit_lt zero hden counts small
      rw [nearest_units f zero hden counts (by omega)]
      simpa using bound
    next =>
      rw [value, scaled] at counts
      have place := leadingBit_eq zero hden counts full most
      rw [nearest_units f zero hden counts (by omega)]
      simp [← parts, bound]

theorem ofDecimal_congr (f : BinaryFormat) {a b : Decimal} (same : a.value = b.value) :
    f.ofDecimal a = f.ofDecimal b := by
  by_cases zero : a.digits = 0
  next =>
    have zero' : b.digits = 0 := by rwa [← b.value_eq_zero_iff, ← same, a.value_eq_zero_iff]
    simp [ofDecimal, zero, zero']
  next =>
    have nonzero : b.digits ≠ 0 := by rwa [Ne, ← b.value_eq_zero_iff, ← same, a.value_eq_zero_iff]
    have place : a.leading = b.leading := by
      rw [Decimal.leading_eq_log zero, Decimal.leading_eq_log nonzero, same]
    have rounded : f.nearest a.ratio.1 a.ratio.2 = f.nearest b.ratio.1 b.ratio.2 := by
      apply f.nearest_congr a.ratio_den_ne_zero b.ratio_den_ne_zero
      rw [a.ratio_value, b.ratio_value, same]
    simp only [ofDecimal, zero, nonzero, place, rounded]

theorem value_exact (f : BinaryFormat) (rank : Nat) : (f.exact rank).value = f.value rank := by
  simp only [exact, Decimal.value, value]
  generalize (f.scaled rank).1 = m
  generalize (f.scaled rank).2 = e
  rcases le_total 0 e with whole | part
  next =>
    obtain ⟨n, rfl⟩ := Int.eq_ofNat_of_zero_le whole
    simp
  next =>
    obtain ⟨n, rfl⟩ : ∃ n : Nat, e = -n := ⟨e.natAbs, by omega⟩
    have tens : (10 : ℚ) ^ n = 5 ^ n * 2 ^ n := by rw [← mul_pow]; norm_num
    simp only [Int.toNat_neg_natCast, Nat.pow_eq, pow_zero, mul_one, neg_neg, Int.toNat_natCast,
      Nat.cast_mul, Nat.cast_pow, Nat.cast_ofNat, min_eq_left part, zpow_neg, zpow_natCast, tens]
    field_simp

theorem double_scaled_bounds {rank : Nat} (positive : rank ≠ 0) (finite : rank < double.infinity) :
    1 ≤ (double.scaled rank).1 ∧ (double.scaled rank).1 ≤ 2 ^ 53 ∧
      -1074 ≤ (double.scaled rank).2 ∧ (double.scaled rank).2 ≤ 971 := by
  simp only [double, Nat.pow_eq] at finite
  rcases double.scaled_cases rank with ⟨small, scaled⟩ | ⟨m, k, scaled, full, most, parts⟩
  · rw [scaled]
    simp only [double] at small ⊢
    omega
  · rw [scaled]
    simp only [double] at full most parts ⊢
    omega

theorem double_value_bounds {rank : Nat} (positive : rank ≠ 0) (finite : rank < double.infinity) :
    (10 : ℚ) ^ (-324 : ℤ) ≤ double.value rank ∧ double.value rank < 10 ^ (309 : ℤ) := by
  obtain ⟨one, full, low, high⟩ := double_scaled_bounds positive finite
  have least : (1 : ℚ) ≤ (double.scaled rank).1 := by exact_mod_cast one
  have most : ((double.scaled rank).1 : ℚ) ≤ 2 ^ 53 := by exact_mod_cast full
  have thousands : (2 : ℚ) ^ 93 ≤ 10 ^ 28 := by norm_num
  unfold value
  constructor
  next =>
    have inverse : (2 : ℚ) ^ 1074 ≤ 10 ^ 324 := by
      calc (2 : ℚ) ^ 1074 = (2 ^ 93) ^ 11 * 2 ^ 51 := by rw [← pow_mul, ← pow_add]
        _ ≤ (10 ^ 28) ^ 11 * 10 ^ 16 := by gcongr; norm_num
        _ = 10 ^ 324 := by rw [← pow_mul, ← pow_add]
    calc (10 : ℚ) ^ (-324 : ℤ) ≤ 2 ^ (-1074 : ℤ) := by
          rw [zpow_neg, zpow_neg]
          exact inv_anti₀ (by positivity) (by exact_mod_cast inverse)
      _ ≤ 2 ^ (double.scaled rank).2 := zpow_le_zpow_right₀ (by norm_num) low
      _ ≤ (double.scaled rank).1 * 2 ^ (double.scaled rank).2 :=
          le_mul_of_one_le_left (by positivity) least
  next =>
    calc ((double.scaled rank).1 : ℚ) * 2 ^ (double.scaled rank).2
        ≤ 2 ^ 53 * 2 ^ (971 : ℤ) := by gcongr
      _ = (2 ^ 93) ^ 11 * 2 := by
          rw [← pow_mul, ← pow_succ, ← zpow_natCast, ← zpow_natCast, ← zpow_add₀ (by norm_num)]
          rfl
      _ < (10 ^ 28) ^ 11 * 10 := by gcongr <;> norm_num
      _ = 10 ^ (309 : ℤ) := by rw [← pow_mul, ← pow_succ]; rfl

theorem ofDecimal_exact {rank : Nat} (finite : rank < double.infinity) :
    double.ofDecimal (double.exact rank) = rank := by
  have rounded : double.nearest (double.exact rank).ratio.1 (double.exact rank).ratio.2 = rank := by
    have same : ((double.exact rank).ratio.1 : ℚ) / (double.exact rank).ratio.2 =
        (double.ratio rank).1 / (double.ratio rank).2 := by
      rw [Decimal.ratio_value, value_exact, ratio_value]
    exact (double.nearest_congr (Decimal.ratio_den_ne_zero _) (double.ratio_den_ne_zero rank)
      same).trans (double.nearest_ratio finite.le)
  by_cases zero : (double.exact rank).digits = 0
  next =>
    rw [ofDecimal, if_pos (.inl zero), ← rounded]
    simp [nearest, Decimal.ratio, zero]
  next =>
    have nonzero : rank ≠ 0 := by
      rintro rfl
      exact zero (by simp [exact, scaled])
    obtain ⟨least, most⟩ := double_value_bounds nonzero finite
    have place := Decimal.leading_eq_log zero
    rw [value_exact] at place
    have positive : 0 < double.value rank := lt_of_lt_of_le (by positivity) least
    have low := (Int.zpow_le_iff_le_log (b := 10) (by decide) positive).1 least
    have high := (Int.lt_zpow_iff_log_lt (b := 10) (by decide) positive).1 most
    have settled : ¬((double.exact rank).digits = 0 ∨ (double.exact rank).leading < -325) := by
      omega
    rw [ofDecimal, if_neg settled, if_neg (by omega), rounded]

theorem readsBack_of_onGrid {f : BinaryFormat} {tie : Tie} {rank : Nat} {unit : ℤ} {d : Decimal}
    (found : f.onGrid tie rank unit = some d) : f.ofDecimal d = rank := by
  simp only [onGrid] at found
  split at found <;> cases found
  · split <;> simp_all [readsBack]
  · simp_all [readsBack]
  · simp_all [readsBack]

theorem ofDecimal_shortest (tie : Tie) {rank : Nat} (finite : rank < double.infinity) :
    double.ofDecimal (double.shortest tie rank) = rank := by
  by_cases zero : rank = 0
  next => simp [shortest, zero, ofDecimal]
  next =>
    simp only [shortest, zero, if_false]
    rw [ofDecimal_congr _ (Decimal.value_stripped _)]
    generalize leadingDigit (double.ratio rank).1 (double.ratio rank).2 = leading
    cases found : (List.range 17).findSome? fun n : Nat => double.onGrid tie rank (leading - n) with
    | none => exact ofDecimal_exact finite
    | some d =>
      obtain ⟨n, _, onGrid⟩ := List.exists_of_findSome?_eq_some found
      exact readsBack_of_onGrid onGrid

end BinaryFormat

end EntityQuery
