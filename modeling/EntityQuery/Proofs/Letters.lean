import Mathlib
import EntityQuery.Proofs.Text
import EntityQuery.Text.Search

set_option autoImplicit false

namespace EntityQuery.Text

theorem toLower_eq_iff (c d : Char) : c.toLower = d.toLower ↔ c = d.toLower ∨ c = d.toUpper := by
  constructor
  · intro same
    by_cases capital : c.isUpper = true
    next =>
      have kept : c.toUpper = c := Char.toUpper_eq_of_not_isLower (Char.not_isLower_of_isUpper capital)
      right
      rw [← Char.toUpper_toLower_eq_toUpper, ← same, Char.toUpper_toLower_eq_toUpper, kept]
    next =>
      left
      rw [← same, Char.toLower_eq_of_not_isUpper capital]
  · rintro (rfl | rfl)
    · exact Char.toLower_toLower_eq_toLower d
    · exact Char.toLower_toUpper_eq_toLower d

theorem toUpper_eq_iff (c d : Char) : c.toUpper = d.toUpper ↔ c.toLower = d.toLower := by
  constructor <;> intro same
  · rw [← Char.toLower_toUpper_eq_toLower, same, Char.toLower_toUpper_eq_toLower]
  · rw [← Char.toUpper_toLower_eq_toUpper, same, Char.toUpper_toLower_eq_toUpper]

theorem toNat_of_isUpper {c : Char} (capital : c.isUpper = true) : 65 ≤ c.toNat ∧ c.toNat ≤ 90 := by
  simpa [Char.isUpper, UInt32.le_iff_toNat_le] using capital

theorem isBlank_of_isAlphanum {c : Char} (shown : c.isAlphanum = true) : isBlank c = false := by
  rw [Char.isAlphanum, Char.isAlpha, Bool.or_eq_true, Bool.or_eq_true] at shown
  rcases shown with (capital | small) | digit
  · have range := toNat_of_isUpper capital
    simp [isBlank, blankRanges]
    omega
  · have range : 97 ≤ c.toNat ∧ c.toNat ≤ 122 := by
      simpa [Char.isLower, UInt32.le_iff_toNat_le] using small
    simp [isBlank, blankRanges]
    omega
  · exact isBlank_of_isDigit digit

theorem utf8Size_toLower (c : Char) : c.toLower.utf8Size = c.utf8Size := by
  by_cases capital : c.isUpper = true
  next =>
    have range := toNat_of_isUpper capital
    have valid : (c.toNat + 32).isValidChar := by left; omega
    have size {d : Char} (small : d.toNat ≤ 127) : d.utf8Size = 1 := by
      rw [Char.utf8Size_eq_one_iff, UInt32.le_iff_toNat_le]
      exact small
    have lowered : c.toLower.toNat = c.toNat + 32 := by
      rw [Char.toLower_eq_of_isUpper capital, Char.toNat_ofNat, if_pos valid]
    rw [size (by omega), size (by omega)]
  next => rw [Char.toLower_eq_of_not_isUpper capital]

end EntityQuery.Text
