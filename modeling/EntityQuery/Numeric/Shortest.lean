import EntityQuery.Numeric.Binary

/-!
The shortest decimal that reads back as a given number. For one, two, and up to seventeen digits
the two neighbours of the number on the grid of that many digits are tried; the first grid with a
neighbour that reads back wins, and of two such neighbours the nearer one.
-/

set_option autoImplicit false

namespace EntityQuery

namespace BinaryFormat

inductive Tie where
  | upward
  | toEven
  deriving DecidableEq, Repr

def leadingDigit (num den : Nat) : Int :=
  let guess : Int := ((Text.digitsOf num).length : Int) - (Text.digitsOf den).length
  if den * Nat.pow 10 guess.toNat ≤ num * Nat.pow 10 (-guess).toNat then guess else guess - 1

def readsBack (f : BinaryFormat) (rank : Nat) (d : Decimal) : Bool :=
  f.ofDecimal d == rank

def onGrid (f : BinaryFormat) (tie : Tie) (rank : Nat) (unit : Int) : Option Decimal :=
  let num := (f.ratio rank).1 * Nat.pow 10 (-unit).toNat
  let den := (f.ratio rank).2 * Nat.pow 10 unit.toNat
  let below : Decimal := ⟨num / den, unit⟩
  let above : Decimal := ⟨num / den + 1, unit⟩
  let twice := 2 * (num % den)
  let prefersBelow := twice < den || (twice == den && tie == .toEven && num / den % 2 == 0)
  match f.readsBack rank below, f.readsBack rank above with
  | true, true => some (if prefersBelow then below else above)
  | true, false => some below
  | false, true => some above
  | false, false => none

def exact (f : BinaryFormat) (rank : Nat) : Decimal :=
  let (m, e) := f.scaled rank
  ⟨m * Nat.pow 2 e.toNat * Nat.pow 5 (-e).toNat, min e 0⟩

-- Seventeen digits always suffice in double precision, so the exact digits are never needed; they
-- are there because they read back whatever the format.
def shortest (f : BinaryFormat) (tie : Tie) (rank : Nat) : Decimal :=
  if rank = 0 then
    ⟨0, 0⟩
  else
    let leading := leadingDigit (f.ratio rank).1 (f.ratio rank).2
    (((List.range 17).findSome? fun (n : Nat) => f.onGrid tie rank (leading - n)).getD
      (f.exact rank)).stripped

end BinaryFormat

namespace Binary64

structure Style where
  layout : Decimal.Layout
  tie : BinaryFormat.Tie
  deriving DecidableEq, Repr

def sign (negative : Bool) : List Char :=
  if negative then ['-'] else []

def render (style : Style) : Binary64 → List Char
  | nan => ['N', 'a', 'N']
  | signed negative rank _ =>
    sign negative ++
      if rank < BinaryFormat.double.infinity then
        (BinaryFormat.double.shortest style.tie rank).layOut style.layout
      else
        ['i', 'n', 'f']

end Binary64

end EntityQuery
