import EntityQuery.Numeric.Shortest

set_option autoImplicit false

namespace EntityQuery

inductive Number where
  | int (n : Int64)
  | uint (n : UInt64)
  | float (x : Binary64)
  deriving DecidableEq, Repr

namespace Number

def whole? : Number → Option Int
  | int n => some n.toInt
  | uint n => some n.toNat
  | float _ => none

def toBinary64 : Number → Binary64
  | int n => .ofInt n.toInt
  | uint n => .ofInt n.toNat
  | float x => x

def isNaN : Number → Bool
  | float x => x.isNaN
  | _ => false

def compare (a b : Number) : Option Ordering :=
  match a.whole?, b.whole? with
  | some i, some j => some (Ord.compare i j)
  | _, _ => a.toBinary64.compare b.toBinary64

theorem compare_swap (a b : Number) : b.compare a = (a.compare b).map Ordering.swap := by
  have h := a.toBinary64.compare_swap b.toBinary64
  cases ha : a.whole? <;> cases hb : b.whole? <;> simp [compare, ha, hb, h, Int.compare_swap]

theorem compare_self {a : Number} (h : a.isNaN = false) : a.compare a = some .eq := by
  cases a with
  | int | uint => simp [compare, whole?]
  | float x => exact Binary64.compare_self h

def style : Binary64.Style := ⟨⟨none, false⟩, .upward⟩

def intText (n : Int) : List Char :=
  Binary64.sign (n < 0) ++ Text.digitsOf n.natAbs

def render : Number → List Char
  | int n => intText n.toInt
  | uint n => intText n.toNat
  | float x => x.render style

def text (n : Number) : String :=
  String.ofList n.render

def identical : Number → Number → Bool
  | int a, int b => a == b
  | uint a, uint b => a == b
  | float a, float b => a.compare b == some .eq
  | _, _ => false

end Number

inductive NumberKind where
  | int8 | int16 | int32 | int64
  | uint8 | uint16 | uint32 | uint64
  | float32 | float64
  deriving DecidableEq, Repr

namespace NumberKind

def bits : NumberKind → Nat
  | int8 | uint8 => 8
  | int16 | uint16 => 16
  | int32 | uint32 | float32 => 32
  | int64 | uint64 | float64 => 64

inductive Class where
  | signed
  | unsigned
  | floating
  deriving DecidableEq, Repr

def storage : NumberKind → Class
  | int8 | int16 | int32 | int64 => .signed
  | uint8 | uint16 | uint32 | uint64 => .unsigned
  | float32 | float64 => .floating

def isSigned (k : NumberKind) : Bool :=
  k.storage == .signed

def isFloat (k : NumberKind) : Bool :=
  k.storage == .floating

def range (k : NumberKind) : Int × Int :=
  match k.storage with
  | .signed => (-Int.pow 2 (k.bits - 1), Int.pow 2 (k.bits - 1) - 1)
  | _ => (0, Int.pow 2 k.bits - 1)

def ofInt? (k : NumberKind) (n : Int) : Option Number :=
  if k.range.1 ≤ n ∧ n ≤ k.range.2 then
    match k.storage with
    | .signed => some (.int (Int64.ofInt n))
    | .unsigned => some (.uint (UInt64.ofNat n.toNat))
    | .floating => none
  else
    none

def minValue (k : NumberKind) : Number :=
  match k with
  | float32 => .float (.ofSingle true (BinaryFormat.single.infinity - 1))
  | float64 => .float (.signed true (BinaryFormat.double.infinity - 1) (Nat.sub_le _ _))
  | k =>
    match k.storage with
    | .signed => .int (Int64.ofInt k.range.1)
    | _ => .uint 0

def readInt (k : NumberKind) (cs : List Char) : Option Number :=
  let (negative, ds) := Text.spanSign cs
  if ds.isEmpty || !ds.all Char.isDigit || (negative && !k.isSigned) then none
  else k.ofInt? (if negative then -(Text.natOf ds : Int) else Text.natOf ds)

def readMagnitude (cs : List Char) : Option Decimal := do
  let whole := cs.takeWhile Char.isDigit
  let rest := cs.dropWhile Char.isDigit
  let (fraction, rest) :=
    match rest with
    | '.' :: cs => (cs.takeWhile Char.isDigit, cs.dropWhile Char.isDigit)
    | _ => ([], rest)
  if whole.isEmpty && fraction.isEmpty then
    none
  match rest with
  | [] => some (.ofParts whole fraction 0)
  | c :: cs =>
    if c = 'e' ∨ c = 'E' then return .ofParts whole fraction (← Decimal.readExponent cs)
    else none

def readFloat (k : NumberKind) (cs : List Char) : Option Number := do
  let negative := (Text.spanSign cs).1
  let d ← readMagnitude (Text.spanSign cs).2
  let x := if k = .float32 then Binary64.ofDecimalSingle negative d else .ofDecimal negative d
  if x.isFinite then some (.float x) else none

def read (k : NumberKind) (cs : List Char) : Option Number :=
  if k.isFloat then k.readFloat cs else k.readInt cs

end NumberKind

end EntityQuery
