import EntityQuery.Json.Reading

set_option autoImplicit false

namespace EntityQuery

structure Uuid where
  value : BitVec 128
  deriving DecidableEq, Repr

namespace Uuid

def hexDigits : Nat → Nat → List Char
  | 0, _ => []
  | width + 1, n => hexDigits width (n / 16) ++ [Nat.digitChar (n % 16)]

def natOfHex? (cs : List Char) : Option Nat :=
  cs.foldlM (fun n c => (Json.hexValue? c).map (16 * n + ·)) 0

def hyphenated (ds : List Char) : List Char :=
  ds.take 8 ++ '-' :: (ds.drop 8).take 4 ++ '-' :: (ds.drop 12).take 4
    ++ '-' :: (ds.drop 16).take 4 ++ '-' :: ds.drop 20

def text (u : Uuid) : String :=
  String.ofList (hyphenated (hexDigits 32 u.value.toNat))

def ofDigits? (ds : List Char) : Option Uuid :=
  if ds.length = 32 then (natOfHex? ds).map fun n => ⟨BitVec.ofNat 128 n⟩ else none

def ofHyphenated? (cs : List Char) : Option Uuid :=
  let ds := cs.filter (· != '-')
  if hyphenated ds = cs then ofDigits? ds else none

def ofText? (text : String) : Option Uuid :=
  match text.toList with
  | '\x7b' :: cs => if cs.getLast? = some '\x7d' then ofHyphenated? cs.dropLast else none
  | 'u' :: 'r' :: 'n' :: ':' :: 'u' :: 'u' :: 'i' :: 'd' :: ':' :: cs => ofHyphenated? cs
  | cs => ofDigits? cs <|> ofHyphenated? cs

end Uuid

structure IdSupply where
  next : Uuid
  deriving DecidableEq, Repr

def IdSupply.draw (s : IdSupply) : Uuid × IdSupply :=
  (s.next, ⟨⟨s.next.value + 1⟩⟩)

end EntityQuery
