import EntityQuery.Numeric.Decimal

/-!
Binary floating point without its arithmetic: the numbers of a format are named by their rank
among the magnitudes it holds, so that comparing is comparing ranks and rounding is finding one.
-/

set_option autoImplicit false

namespace EntityQuery

structure BinaryFormat where
  fractionBits : Nat
  minExponent : Int
  infinity : Nat

namespace BinaryFormat

def single : BinaryFormat := ⟨23, -149, 255 * Nat.pow 2 23⟩

def double : BinaryFormat := ⟨52, -1074, 2047 * Nat.pow 2 52⟩

def scaled (f : BinaryFormat) (rank : Nat) : Nat × Int :=
  let leading := Nat.pow 2 f.fractionBits
  if rank < leading then (rank, f.minExponent)
  else (leading + rank % leading, f.minExponent + (rank / leading - 1 : Nat))

def ratio (f : BinaryFormat) (rank : Nat) : Nat × Nat :=
  let (m, e) := f.scaled rank
  (m * Nat.pow 2 e.toNat, Nat.pow 2 (-e).toNat)

def roundHalfEven (num den : Nat) : Nat :=
  let q := num / den
  let r := num % den
  if 2 * r < den ∨ (2 * r = den ∧ q % 2 = 0) then q else q + 1

def leadingBit (num den : Nat) : Int :=
  let guess : Int := (num.log2 : Int) - den.log2
  if den * Nat.pow 2 guess.toNat ≤ num * Nat.pow 2 (-guess).toNat then guess else guess - 1

-- The rank of the magnitude nearest to `num / den`. A significand that is rounded up to the next
-- power of two carries into the next exponent, since ranks count on across exponents.
def nearest (f : BinaryFormat) (num den : Nat) : Nat :=
  if num = 0 then
    0
  else
    let unit := max (leadingBit num den - f.fractionBits) f.minExponent
    let q := roundHalfEven (num * Nat.pow 2 (-unit).toNat) (den * Nat.pow 2 unit.toNat)
    min ((unit - f.minExponent).toNat * Nat.pow 2 f.fractionBits + q) f.infinity

-- The rank nearest to a decimal. A decimal whose leading digit is beyond every magnitude, or below
-- half the smallest one, is settled by that digit's place alone.
def ofDecimal (f : BinaryFormat) (d : Decimal) : Nat :=
  if d.digits = 0 ∨ d.leading < -325 then
    0
  else if 309 < d.leading then
    f.infinity
  else
    f.nearest d.ratio.1 d.ratio.2

theorem nearest_le (f : BinaryFormat) (num den : Nat) : f.nearest num den ≤ f.infinity := by
  unfold nearest
  split
  · exact Nat.zero_le _
  · exact Nat.min_le_right _ _

theorem ofDecimal_le (f : BinaryFormat) (d : Decimal) : f.ofDecimal d ≤ f.infinity := by
  unfold ofDecimal
  split
  · exact Nat.zero_le _
  · split
    · exact Nat.le_refl _
    · exact f.nearest_le _ _

end BinaryFormat

open BinaryFormat

inductive Binary64 where
  | nan
  | signed (negative : Bool) (rank : Nat) (bound : rank ≤ double.infinity)
  deriving DecidableEq, Repr

namespace Binary64

def infinite (negative : Bool) : Binary64 :=
  signed negative double.infinity (Nat.le_refl _)

def isNaN : Binary64 → Bool
  | nan => true
  | signed .. => false

def isFinite : Binary64 → Bool
  | nan => false
  | signed _ r _ => r < double.infinity

def position : Binary64 → Option Int
  | nan => none
  | signed negative r _ => some (if negative then -r else r)

def compare (a b : Binary64) : Option Ordering :=
  match a.position, b.position with
  | some i, some j => some (Ord.compare i j)
  | _, _ => none

theorem compare_swap (a b : Binary64) : b.compare a = (a.compare b).map Ordering.swap := by
  cases ha : a.position <;> cases hb : b.position <;> simp [compare, ha, hb, Int.compare_swap]

theorem compare_self {a : Binary64} (h : a.isNaN = false) : a.compare a = some .eq := by
  cases a with
  | nan => simp [isNaN] at h
  | signed => simp [compare, position]

def ofInt (n : Int) : Binary64 :=
  signed (n < 0) (double.nearest n.natAbs 1) (double.nearest_le _ _)

def ofDecimal (negative : Bool) (d : Decimal) : Binary64 :=
  signed negative (double.ofDecimal d) (double.ofDecimal_le d)

def ofSingle (negative : Bool) (rank : Nat) : Binary64 :=
  if single.infinity ≤ rank then
    infinite negative
  else
    signed negative (double.nearest (single.ratio rank).1 (single.ratio rank).2)
      (double.nearest_le _ _)

def ofDecimalSingle (negative : Bool) (d : Decimal) : Binary64 :=
  ofSingle negative (single.ofDecimal d)

end Binary64

end EntityQuery
