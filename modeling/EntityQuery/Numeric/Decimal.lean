import EntityQuery.Text.Digits

set_option autoImplicit false

namespace EntityQuery

open Text

structure Decimal where
  digits : Nat
  exponent : Int
  deriving DecidableEq, Repr

namespace Decimal

def ratio (d : Decimal) : Nat × Nat :=
  (d.digits * Nat.pow 10 d.exponent.toNat, Nat.pow 10 (-d.exponent).toNat)

def leading (d : Decimal) : Int :=
  (digitsOf d.digits).length - 1 + d.exponent

def stripped (d : Decimal) : Decimal :=
  if h : d.digits ≠ 0 ∧ d.digits % 10 = 0 then
    stripped ⟨d.digits / 10, d.exponent + 1⟩
  else
    d
termination_by d.digits
decreasing_by omega

structure Literal where
  negative : Bool
  isWhole : Bool
  magnitude : Decimal
  deriving DecidableEq, Repr

structure Layout where
  positional : Option (Int × Int)
  marksWhole : Bool
  deriving DecidableEq, Repr

def positional (marksWhole : Bool) (d : Decimal) : List Char :=
  let ds := digitsOf d.digits
  let after := (-d.exponent).toNat
  if d.exponent ≥ 0 then
    ds ++ List.replicate d.exponent.toNat '0' ++ if marksWhole then ['.', '0'] else []
  else if after < ds.length then
    ds.take (ds.length - after) ++ '.' :: ds.drop (ds.length - after)
  else
    '0' :: '.' :: List.replicate (after - ds.length) '0' ++ ds

def scientific (d : Decimal) : List Char :=
  let e := d.leading
  let fraction := (digitsOf d.digits).drop 1
  (digitsOf d.digits).take 1 ++ (if fraction.isEmpty then [] else '.' :: fraction)
    ++ 'e' :: (if e < 0 then '-' else '+') :: digitsOf e.natAbs

def layOut (l : Layout) (d : Decimal) : List Char :=
  match l.positional with
  | none => d.positional l.marksWhole
  | some (least, greatest) =>
    if least ≤ d.leading ∧ d.leading ≤ greatest then d.positional l.marksWhole else d.scientific

def ofParts (whole fraction : List Char) (e : Int) : Decimal :=
  ⟨natOf (whole ++ fraction), e - fraction.length⟩

def readExponent (cs : List Char) : Option Int :=
  let (negative, ds) := spanSign cs
  if ds.isEmpty || !ds.all Char.isDigit then none
  else some (if negative then -(natOf ds : Int) else natOf ds)

end Decimal

end EntityQuery
