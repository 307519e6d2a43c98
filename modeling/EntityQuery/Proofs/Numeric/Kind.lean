import Mathlib.Tactic.Ring
import EntityQuery.Numeric.Number

set_option autoImplicit false

namespace EntityQuery

theorem Number.render_of_whole? {x : Number} {n : Int} (whole : x.whole? = some n) :
    x.render = intText n := by
  cases x with
  | int | uint => exact congrArg intText (Option.some.inj whole)
  | float => cases whole

theorem Number.toBinary64_of_whole? {x : Number} {n : Int} (whole : x.whole? = some n) :
    x.toBinary64 = .ofInt n := by
  cases x with
  | int | uint => exact congrArg Binary64.ofInt (Option.some.inj whole)
  | float => cases whole

namespace NumberKind

def Admits (k : NumberKind) : Number → Prop
  | .int n => k.storage = .signed ∧ k.range.1 ≤ n.toInt ∧ n.toInt ≤ k.range.2
  | .uint n => k.storage = .unsigned ∧ (n.toNat : Int) ≤ k.range.2
  | .float x => k = .float64 ∨ k = .float32 ∧ (x = .nan ∨ ∃ negative rank, x = .ofSingle negative rank)

variable {k : NumberKind}

theorem range_signed (signed : k.storage = .signed) : -2 ^ 63 ≤ k.range.1 ∧ k.range.2 < 2 ^ 63 := by
  revert signed
  cases k <;> decide

theorem range_unsigned (unsigned : k.storage = .unsigned) : k.range.1 = 0 ∧ k.range.2 < 2 ^ 64 := by
  revert unsigned
  cases k <;> decide

theorem storage_eq_unsigned (whole : k.isFloat = false) (unsigned : k.isSigned = false) :
    k.storage = .unsigned := by
  cases storage : k.storage with
  | unsigned => rfl
  | signed => simp [isSigned, storage] at unsigned
  | floating => simp [isFloat, storage] at whole

theorem exists_ofInt? (whole : k.isFloat = false) {n : Int} (inside : k.range.1 ≤ n ∧ n ≤ k.range.2) :
    ∃ x, k.ofInt? n = some x := by
  rw [ofInt?, if_pos inside]
  cases storage : k.storage with
  | signed | unsigned => exact ⟨_, rfl⟩
  | floating => simp [isFloat, storage] at whole

theorem range_of_ofInt? {n : Int} {x : Number} (held : k.ofInt? n = some x) :
    k.range.1 ≤ n ∧ n ≤ k.range.2 := by
  by_contra outside
  rw [ofInt?, if_neg outside] at held
  cases held

theorem whole?_of_ofInt? {n : Int} {x : Number} (held : k.ofInt? n = some x) : x.whole? = some n := by
  unfold ofInt? at held
  split at held
  next inside =>
    split at held
    next signed =>
      obtain ⟨least, most⟩ := range_signed signed
      obtain rfl := Option.some.inj held
      have kept : (Int64.ofInt n).toInt = n := Int64.toInt_ofInt_of_le (by omega) (by omega)
      rw [Number.whole?, kept]
    next unsigned =>
      obtain ⟨least, most⟩ := range_unsigned unsigned
      obtain rfl := Option.some.inj held
      have kept : (UInt64.ofNat n.toNat).toNat = n.toNat := by
        apply UInt64.toNat_ofNat_of_lt'
        rw [UInt64.size]
        omega
      rw [Number.whole?, kept, Int.toNat_of_nonneg (by omega)]
    next => cases held
  next => cases held

theorem ofInt?_of_admits {x : Number} {n : Int} (admitted : k.Admits x) (whole : x.whole? = some n) :
    k.isFloat = false ∧ k.ofInt? n = some x := by
  cases x with
  | int i =>
    obtain ⟨signed, inside⟩ := admitted
    obtain rfl := Option.some.inj whole
    exact ⟨by simp [isFloat, signed], by simp [ofInt?, inside, signed]⟩
  | uint i =>
    obtain ⟨unsigned, most⟩ := admitted
    obtain rfl := Option.some.inj whole
    have least := (range_unsigned unsigned).1
    exact ⟨by simp [isFloat, unsigned], by simp [ofInt?, least, most, unsigned]⟩
  | float => cases whole

theorem admits_of_ofInt? {n : Int} {x : Number} (held : k.ofInt? n = some x) : k.Admits x := by
  have whole := whole?_of_ofInt? held
  unfold ofInt? at held
  split at held
  next inside =>
    split at held
    next signed =>
      obtain rfl := Option.some.inj held
      have kept : (Int64.ofInt n).toInt = n := Option.some.inj whole
      exact ⟨signed, kept.symm ▸ inside⟩
    next unsigned =>
      obtain rfl := Option.some.inj held
      have kept : ((UInt64.ofNat n.toNat).toNat : Int) = n := Option.some.inj whole
      exact ⟨unsigned, kept.symm ▸ inside.2⟩
    next => cases held
  next => cases held

theorem ofInt?_least (whole : k.isFloat = false) : k.ofInt? k.range.1 = some k.minValue := by
  revert whole
  cases k <;> decide

theorem Admits.exists_word {x : Number} (admitted : k.Admits x) (whole : k.isFloat = false) :
    ∃ i, x.whole? = some i := by
  cases x with
  | int | uint => exact ⟨_, rfl⟩
  | float => rcases admitted with rfl | ⟨rfl, -⟩ <;> cases whole

theorem Admits.exists_float {x : Number} (admitted : k.Admits x) (floating : k.isFloat = true) :
    ∃ y, x = .float y := by
  cases x with
  | int => simp [isFloat, admitted.1] at floating
  | uint => simp [isFloat, admitted.1] at floating
  | float y => exact ⟨y, rfl⟩

end NumberKind

end EntityQuery
