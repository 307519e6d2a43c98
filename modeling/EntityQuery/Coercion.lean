import EntityQuery.Operand
import EntityQuery.Schema

set_option autoImplicit false

namespace EntityQuery

open Calendar (DateTime)
open Text

-- Reads a number from text that may be grouped, localized or decorated: of the text only a leading
-- minus sign, the digits and the points count.
def NumberKind.coerce (k : NumberKind) (text : String) : Number :=
  let cs := trim (normalizeDigits text.toList)
  let digits := cs.filter fun c => c.isDigit || c = '.'
  (k.read (if cs.head? = some '-' then '-' :: digits else digits)).getD k.minValue

namespace Operand

-- Reads a boolean; blank text is null where that is allowed, and any other text is false.
def coerceBool (nullable : Bool) (text : String) : Operand :=
  let cs := trim text.toList
  if cs.isEmpty && nullable then null else bool (lower cs == "true".toList)

mutual

def isOf : Operand → Kind → Bool
  | string _, .string => true
  | number _, .number _ => true
  | bool _, .bool => true
  | date _, .date => true
  | list items, .collection element => allOf items element
  | _, _ => false

def allOf : List Operand → Kind → Bool
  | [], _ => true
  | v :: vs, k => (v.isNull || isOf v k) && allOf vs k

end

def refused (v : Operand) (k : Kind) : Except Error Operand :=
  .error (.coercion v.text k.name)

mutual

def coerce (v : Operand) (k : Kind) (nullable : Bool) : Except Error Operand :=
  if v.isNull || v.isOf k then
    .ok v
  else
    match k, v with
    | .string, .list items => refused (.list items) .string
    | .string, v => .ok (.string (String.ofList (normalizeDigits v.plainText.toList)))
    | .number n, v => .ok (.number (n.coerce v.plainText))
    | .bool, v => .ok (coerceBool nullable v.plainText)
    | .date, v =>
      match DateTime.read (normalizeDigits v.plainText.toList) with
      | some d => .ok (.date d)
      | none => refused v .date
    | .collection element, .list items => return .list (← coerceAll items element)
    | k, v => refused v k

def coerceAll : List Operand → Kind → Except Error (List Operand)
  | [], _ => .ok []
  | v :: vs, k => return (← v.coerce k true) :: (← coerceAll vs k)

end

theorem coerce_of_isOf {v : Operand} {k : Kind} (h : v.isOf k = true) (nullable : Bool) :
    v.coerce k nullable = .ok v := by
  unfold coerce
  simp [h]

def coerceMembers? (v : Operand) (k : Kind) : Option (Except Error (List Operand)) :=
  match v with
  | list items => some (coerceAll items k)
  | _ => none

end Operand

end EntityQuery
