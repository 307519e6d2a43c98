import EntityQuery.Proofs.Numeric.Rounding

/-!
Single precision inside double precision. What a fraction is rounded to is at most half a unit away,
so the numbers of single precision are the same in double precision, and a fraction that is rounded
to one of them in double precision is rounded to it in single precision.
-/

set_option autoImplicit false

namespace EntityQuery.BinaryFormat

-- Which rank stands for infinity does not matter for the values, so it may be moved beyond both.
theorem value_injective (f : BinaryFormat) {r s : Nat} (same : f.value r = f.value s) : r = s := by
  let g : BinaryFormat := { f with infinity := max r s }
  have kept (rank : Nat) : g.value rank = f.value rank := rfl
  have rounded : g.nearest (g.ratio r).1 (g.ratio r).2 = g.nearest (g.ratio s).1 (g.ratio s).2 := by
    apply g.nearest_congr (g.ratio_den_ne_zero r) (g.ratio_den_ne_zero s)
    rw [ratio_value, ratio_value, kept, kept, same]
  rwa [g.nearest_ratio (le_max_left r s), g.nearest_ratio (le_max_right r s)] at rounded

theorem scaled_full (f : BinaryFormat) (k : Nat) {s : Nat} (small : s < 2 ^ f.fractionBits) :
    f.scaled (k * 2 ^ f.fractionBits + (2 ^ f.fractionBits + s)) =
      (2 ^ f.fractionBits + s, f.minExponent + k) := by
  have positive : 0 < 2 ^ f.fractionBits := Nat.two_pow_pos _
  have above : ¬k * 2 ^ f.fractionBits + (2 ^ f.fractionBits + s) < 2 ^ f.fractionBits := by omega
  have rank : k * 2 ^ f.fractionBits + (2 ^ f.fractionBits + s) =
      s + 2 ^ f.fractionBits * (k + 1) := by ring
  rw [scaled, Nat.pow_eq]
  simp only [above, if_false]
  rw [rank, Nat.add_mul_mod_self_left, Nat.mod_eq_of_lt small, Nat.add_mul_div_left _ _ positive,
    Nat.div_eq_of_lt small, Nat.zero_add, Nat.add_sub_cancel]

-- A significand that reaches the next power of two is the least one of the next exponent.
theorem value_carried (f : BinaryFormat) (k : Nat) {q : Nat} (full : 2 ^ f.fractionBits ≤ q)
    (most : q ≤ 2 ^ (f.fractionBits + 1)) :
    f.value (k * 2 ^ f.fractionBits + q) = q * (2 : ℚ) ^ (f.minExponent + k) := by
  obtain ⟨s, rfl⟩ := Nat.exists_eq_add_of_le full
  have bound : s ≤ 2 ^ f.fractionBits := by
    rw [Nat.pow_succ] at most
    omega
  rcases bound.lt_or_eq with small | carried
  next => rw [value, f.scaled_full k small]
  next =>
    have next := f.scaled_full (k + 1) (Nat.two_pow_pos f.fractionBits)
    have rank : k * 2 ^ f.fractionBits + (2 ^ f.fractionBits + s) =
        (k + 1) * 2 ^ f.fractionBits + (2 ^ f.fractionBits + 0) := by
      rw [carried]
      ring
    have exponent : f.minExponent + ((k + 1 : Nat) : ℤ) = f.minExponent + k + 1 := by
      push_cast
      ring
    rw [rank, value, next, exponent, zpow_add_one₀ (by norm_num), carried]
    push_cast
    ring

theorem roundHalfEven_near {num den : Nat} (positive : 0 < den) :
    |(num : ℚ) / den - roundHalfEven num den| ≤ 1 / 2 := by
  have parts := Nat.div_add_mod' num den
  have rest := Nat.mod_lt num positive
  have bounds : 2 * (roundHalfEven num den * den) ≤ 2 * num + den ∧
      2 * num ≤ 2 * (roundHalfEven num den * den) + den := by
    simp only [roundHalfEven]
    split
    next => constructor <;> omega
    next =>
      rw [Nat.add_mul]
      constructor <;> omega
  have unit : (0 : ℚ) < den := by exact_mod_cast positive
  have above : (2 : ℚ) * (roundHalfEven num den * den) ≤ 2 * num + den := by exact_mod_cast bounds.1
  have below : (2 : ℚ) * num ≤ 2 * (roundHalfEven num den * den) + den := by exact_mod_cast bounds.2
  rw [abs_le]
  constructor
  · rw [le_sub_iff_add_le, le_div_iff₀ unit]
    linarith
  · rw [sub_le_iff_le_add, div_le_iff₀ unit]
    linarith

theorem pow_leadingBit_le {num den : Nat} (nonzero : num ≠ 0) (hden : den ≠ 0) :
    (2 : ℚ) ^ leadingBit num den ≤ num / den := by
  have some : (0 : ℚ) < num / den :=
    div_pos (by exact_mod_cast Nat.pos_of_ne_zero nonzero)
      (by exact_mod_cast Nat.pos_of_ne_zero hden)
  rw [leadingBit_eq_log nonzero hden]
  exact Int.zpow_log_le_self (by decide) some

theorem lt_pow_leadingBit {num den : Nat} (nonzero : num ≠ 0) (hden : den ≠ 0) :
    (num : ℚ) / den < 2 ^ (leadingBit num den + 1) := by
  rw [leadingBit_eq_log nonzero hden]
  exact Int.lt_zpow_succ_log_self (by decide) _

theorem div_eq_units {num den : Nat} (hden : den ≠ 0) (unit : ℤ) :
    (num : ℚ) / den = (num * Nat.pow 2 (-unit).toNat : Nat) / (den * Nat.pow 2 unit.toNat : Nat) *
      2 ^ unit := by
  have power := pow_div_pow (b := 2) (by decide) unit
  have above : ((Nat.pow 2 unit.toNat : Nat) : ℚ) ≠ 0 := by exact_mod_cast (Nat.two_pow_pos _).ne'
  have below : ((Nat.pow 2 (-unit).toNat : Nat) : ℚ) ≠ 0 := by
    exact_mod_cast (Nat.two_pow_pos _).ne'
  have whole : (den : ℚ) ≠ 0 := by exact_mod_cast hden
  rw [Nat.cast_ofNat] at power
  rw [← power, Nat.cast_mul, Nat.cast_mul]
  field_simp

theorem exists_nearest (f : BinaryFormat) {num den : Nat} (nonzero : num ≠ 0) (hden : den ≠ 0) (unit : ℤ)
    (place : max (leadingBit num den - f.fractionBits) f.minExponent = unit) :
    ∃ rank q : Nat, rank = (unit - f.minExponent).toNat * 2 ^ f.fractionBits + q ∧
      f.nearest num den = min rank f.infinity ∧
      (f.minExponent < unit → 2 ^ f.fractionBits ≤ q) ∧ q ≤ 2 ^ (f.fractionBits + 1) ∧
      f.value rank = q * (2 : ℚ) ^ unit ∧ |(num : ℚ) / den - f.value rank| ≤ 2 ^ unit / 2 := by
  let a := num * Nat.pow 2 (-unit).toNat
  let b := den * Nat.pow 2 unit.toNat
  have positive : 0 < b := Nat.mul_pos (Nat.pos_of_ne_zero hden) (Nat.two_pow_pos _)
  have scaled : (num : ℚ) / den = a / b * 2 ^ unit := div_eq_units hden unit
  have near : |(a : ℚ) / b - roundHalfEven a b| ≤ 1 / 2 := roundHalfEven_near positive
  let q := roundHalfEven a b
  have full (normal : f.minExponent < unit) : 2 ^ f.fractionBits ≤ q := by
    have bit := pow_leadingBit_le nonzero hden
    have least : (2 : ℚ) ^ f.fractionBits ≤ a / b := by
      rw [show leadingBit num den = f.fractionBits + unit by omega, scaled,
        zpow_add₀ (by norm_num), zpow_natCast] at bit
      exact le_of_mul_le_mul_right bit (two_zpow_pos unit)
    have above : (2 : ℚ) ^ f.fractionBits < q + 1 := by linarith [abs_le.1 near]
    exact Nat.lt_succ_iff.1 (by exact_mod_cast above)
  have carried : q ≤ 2 ^ (f.fractionBits + 1) := by
    have bit := lt_pow_leadingBit nonzero hden
    have most : (a : ℚ) / b < 2 ^ (f.fractionBits + 1) := by
      have power : (2 : ℚ) ^ (leadingBit num den + 1) ≤ 2 ^ (f.fractionBits + 1) * 2 ^ unit := by
        rw [← zpow_natCast, ← zpow_add₀ (by norm_num)]
        exact zpow_le_zpow_right₀ (by norm_num) (by push_cast; omega)
      rw [scaled] at bit
      exact lt_of_mul_lt_mul_right (bit.trans_le power) (two_zpow_pos unit).le
    have below : (q : ℚ) < 2 ^ (f.fractionBits + 1) + 1 := by linarith [abs_le.1 near]
    exact Nat.lt_succ_iff.1 (by exact_mod_cast below)
  have value : f.value ((unit - f.minExponent).toNat * 2 ^ f.fractionBits + q) = q * (2 : ℚ) ^ unit := by
    have exponent : f.minExponent + (unit - f.minExponent).toNat = unit := by omega
    by_cases large : 2 ^ f.fractionBits ≤ q
    next => rw [f.value_carried _ large carried, exponent]
    next =>
      have least : unit = f.minExponent := by
        by_contra other
        exact large (full (by omega))
      simp [least, BinaryFormat.value, BinaryFormat.scaled, not_le.1 large]
  refine ⟨_, q, rfl, ?_, full, carried, value, ?_⟩
  · simp only [nearest, nonzero, if_false, place]
    rfl
  · rw [value, scaled, ← sub_mul, abs_mul, abs_of_pos (two_zpow_pos unit)]
    calc |(a : ℚ) / b - q| * 2 ^ unit
      _ ≤ 1 / 2 * 2 ^ unit := mul_le_mul_of_nonneg_right near (two_zpow_pos unit).le
      _ = 2 ^ unit / 2 := by ring

theorem exists_scaled (f : BinaryFormat) (rank : Nat) :
    ∃ m k : Nat, f.scaled rank = (m, f.minExponent + k) ∧ rank = k * 2 ^ f.fractionBits + m ∧
      m < 2 ^ (f.fractionBits + 1) := by
  rcases f.scaled_cases rank with ⟨small, scaled⟩ | ⟨m, k, scaled, -, most, parts⟩
  · exact ⟨rank, 0, by simpa using scaled, by simp, small.trans (Nat.pow_lt_pow_succ (by decide))⟩
  · exact ⟨m, k, scaled, parts, most⟩

theorem value_units (f : BinaryFormat) {rank : Nat} {unit : ℤ}
    (least : (2 : ℚ) ^ (unit + f.fractionBits) ≤ f.value rank) :
    ∃ j : Nat, f.value rank = j * (2 : ℚ) ^ unit := by
  obtain ⟨m, k, scaled, -, small⟩ := f.exists_scaled rank
  generalize f.minExponent + (k : ℤ) = e at scaled
  have high : unit ≤ e := by
    have bound : (2 : ℚ) ^ (unit + f.fractionBits) < 2 ^ ((f.fractionBits + 1 : Nat) + e) := by
      rw [zpow_add₀ (by norm_num) _ e, zpow_natCast]
      apply least.trans_lt
      rw [value, scaled]
      exact mul_lt_mul_of_pos_right (by exact_mod_cast small) (two_zpow_pos e)
    have exponents := (zpow_lt_zpow_iff_right₀ (by norm_num)).1 bound
    push_cast at exponents
    omega
  obtain ⟨i, rfl⟩ := Int.le.dest high
  refine ⟨m * 2 ^ i, ?_⟩
  rw [value, scaled, zpow_add₀ (by norm_num), zpow_natCast]
  push_cast
  ring

theorem eq_of_near {j q : Nat} {unit : ℤ} (near : |(j : ℚ) * 2 ^ unit - q * 2 ^ unit| < 2 ^ unit) :
    j = q := by
  rw [← sub_mul, abs_mul, abs_of_pos (two_zpow_pos unit)] at near
  have apart : |(j : ℚ) - q| < 1 := by
    apply lt_of_mul_lt_mul_right _ (two_zpow_pos unit).le
    rwa [one_mul]
  have whole : |(j : ℤ) - q| < 1 := by exact_mod_cast apart
  have same := Int.abs_lt_one_iff.1 whole
  omega

theorem single_place {r num den : Nat} (finite : r < single.infinity) (nonzero : num ≠ 0)
    (hden : den ≠ 0) (counts : (num : ℚ) / den = single.value r) :
    -149 ≤ leadingBit num den ∧ leadingBit num den < 129 := by
  obtain ⟨m, k, scaled, parts, small⟩ := single.exists_scaled r
  rw [value, scaled] at counts
  have high := leadingBit_lt nonzero hden counts small
  have some : (0 : ℚ) < num / den :=
    div_pos (by exact_mod_cast Nat.pos_of_ne_zero nonzero)
      (by exact_mod_cast Nat.pos_of_ne_zero hden)
  have one : (1 : ℚ) ≤ m := by
    rw [counts] at some
    exact_mod_cast Nat.pos_of_ne_zero fun zero => by simp [zero] at some
  have low : single.minExponent ≤ leadingBit num den := by
    rw [leadingBit_eq_log nonzero hden, ← Int.zpow_le_iff_le_log (by decide) some, counts,
      Nat.cast_ofNat]
    calc (2 : ℚ) ^ single.minExponent
      _ ≤ 2 ^ (single.minExponent + k) := zpow_le_zpow_right₀ (by norm_num) (by omega)
      _ ≤ m * 2 ^ (single.minExponent + k) := le_mul_of_one_le_left (two_zpow_pos _).le one
  simp only [single, Nat.pow_eq] at finite parts high low
  omega

theorem nearest_single {r : Nat} (finite : r < single.infinity) :
    double.nearest (single.ratio r).1 (single.ratio r).2 < double.infinity ∧
      double.value (double.nearest (single.ratio r).1 (single.ratio r).2) = single.value r := by
  have hden := single.ratio_den_ne_zero r
  have counts := single.ratio_value r
  generalize (single.ratio r).1 = num at counts ⊢
  generalize (single.ratio r).2 = den at counts hden ⊢
  by_cases zero : num = 0
  next =>
    have first : double.nearest num den = 0 := by simp [nearest, zero]
    rw [first, ← counts, zero]
    exact ⟨by decide, by simp [value, scaled]⟩
  next =>
    obtain ⟨low, high⟩ := single_place finite zero hden counts
    have reached := pow_leadingBit_le zero hden
    generalize place : leadingBit num den = l at low high reached
    obtain ⟨rank, q, parts, rounded, -, carried, value, near⟩ :=
      double.exists_nearest zero hden (l - 52) (by simp only [place, double]; omega)
    obtain ⟨j, units⟩ : ∃ j : Nat, single.value r = j * (2 : ℚ) ^ (l - 23) := by
      apply single.value_units
      rwa [show l - 23 + single.fractionBits = l from sub_add_cancel l 23, ← counts]
    simp only [double] at parts carried
    have below : rank < double.infinity := by
      simp only [double, Nat.pow_eq]
      omega
    have finer : (2 : ℚ) ^ (l - 23) = (2 ^ 29 : Nat) * 2 ^ (l - 52) := by
      rw [Nat.cast_pow, Nat.cast_ofNat, ← zpow_natCast, ← zpow_add₀ (by norm_num)]
      congr 1
      push_cast
      ring
    rw [finer, ← mul_assoc, ← Nat.cast_mul] at units
    rw [counts, units, value] at near
    have same := eq_of_near (near.trans_lt (half_lt_self (two_zpow_pos _)))
    rw [rounded, min_eq_left below.le, value, units, same]
    exact ⟨below, rfl⟩

-- What is rounded to a number of single precision in double precision is rounded to it in single
-- precision, for single precision only rounds further the same way.
theorem nearest_single_of_double {num den r : Nat} (nonzero : num ≠ 0) (hden : den ≠ 0)
    (finite : r < single.infinity)
    (rounded : double.nearest num den = double.nearest (single.ratio r).1 (single.ratio r).2) :
    single.nearest num den = r := by
  obtain ⟨below, held⟩ := nearest_single finite
  rw [← rounded] at below held
  let l := leadingBit num den
  obtain ⟨rank, q, -, found, full, -, value, near⟩ :=
    double.exists_nearest nonzero hden (max (l - 52) (-1074)) rfl
  obtain ⟨rank', q', -, found', -, -, value', near'⟩ :=
    single.exists_nearest nonzero hden (max (l - 23) (-149)) rfl
  have uncapped : double.nearest num den = rank := by omega
  rw [uncapped] at held
  rw [held] at value near
  obtain ⟨j, units⟩ : ∃ j : Nat, single.value r = j * (2 : ℚ) ^ max (l - 23) (-149) := by
    by_cases least : l - 23 ≤ -149
    next =>
      obtain ⟨m, k, scaled, -⟩ := single.exists_scaled r
      refine ⟨m * 2 ^ k, ?_⟩
      rw [BinaryFormat.value, scaled, max_eq_right least, zpow_add₀ (by norm_num), zpow_natCast]
      push_cast
      rw [mul_comm (2 ^ single.minExponent), mul_assoc]
      rfl
    next =>
      have normal : max (l - 52) (-1074) = l - 52 := by omega
      rw [max_eq_left (by omega)]
      apply single.value_units
      rw [normal] at full value
      have reached : (2 : ℚ) ^ 52 ≤ q := by
        exact_mod_cast full (by simp only [double]; omega)
      calc (2 : ℚ) ^ (l - 23 + single.fractionBits)
        _ = 2 ^ (52 + (l - 52)) := congrArg _ (by simp [single])
        _ = 2 ^ 52 * 2 ^ (l - 52) := zpow_add₀ (by norm_num) _ _
        _ ≤ q * 2 ^ (l - 52) := mul_le_mul_of_nonneg_right reached (two_zpow_pos _).le
        _ = single.value r := value.symm
  have finer : (2 : ℚ) ^ max (l - 52) (-1074) < 2 ^ max (l - 23) (-149) :=
    zpow_lt_zpow_right₀ (by norm_num) (by omega)
  have same : j = q' := by
    apply eq_of_near
    rw [← units, ← value']
    calc |single.value r - single.value rank'|
      _ ≤ |(num : ℚ) / den - single.value r| + |(num : ℚ) / den - single.value rank'| := by
        rw [abs_sub_comm _ (single.value r)]
        exact abs_sub_le _ _ _
      _ < 2 ^ max (l - 23) (-149) := by linarith
  have reached : rank' = r := single.value_injective (by rw [value', units, same])
  rw [found', reached, min_eq_left finite.le]

theorem ofDecimal_single {d : Decimal} {r : Nat} (finite : r < single.infinity)
    (rounded : double.ofDecimal d = double.nearest (single.ratio r).1 (single.ratio r).2) :
    single.ofDecimal d = r := by
  obtain ⟨below, held⟩ := nearest_single finite
  by_cases nothing : d.digits = 0 ∨ d.leading < -325
  next =>
    have first : single.value r = 0 := by
      rw [← held, ← rounded, ofDecimal, if_pos nothing]
      simp [value, scaled]
    rw [rank_eq_zero first, ofDecimal, if_pos nothing]
  next =>
    rw [ofDecimal, if_neg nothing] at rounded ⊢
    split at rounded
    next => omega
    next small =>
      have nonzero : d.ratio.1 ≠ 0 := by
        have counted := mt d.value_eq_zero_iff.1 (not_or.1 nothing).1
        intro zero
        simp [← d.ratio_value, zero] at counted
      rw [if_neg small]
      exact nearest_single_of_double nonzero d.ratio_den_ne_zero finite rounded

end EntityQuery.BinaryFormat
