import EntityQuery.Numeric.Number
import EntityQuery.Calendar.Text

set_option autoImplicit false

namespace EntityQuery

open Calendar (DateTime)

inductive Value where
  | null
  | string (s : String)
  | number (n : Number)
  | bool (b : Bool)
  | date (d : DateTime)
  | list (items : List Value)
  | entity (identity : Nat) (member : String → Value)
  deriving Inhabited

structure Entity where
  identity : Nat
  member : String → Value

namespace Value

def ofEntity (e : Entity) : Value :=
  entity e.identity e.member

def isNull : Value → Bool
  | null => true
  | _ => false

def string? : Value → Option String
  | string s => some s
  | _ => none

def number? : Value → Option Number
  | number n => some n
  | _ => none

def date? : Value → Option DateTime
  | date d => some d
  | _ => none

def bool? : Value → Option Bool
  | bool b => some b
  | _ => none

def entity? : Value → Option Entity
  | entity identity member => some ⟨identity, member⟩
  | _ => none

def kindName : Value → String
  | null => "null"
  | string _ => "string"
  | number _ => "number"
  | bool _ => "bool"
  | date _ => "date"
  | list _ => "collection"
  | entity .. => "entity"

mutual

def equal : Value → Value → Bool
  | null, null => true
  | string a, string b => a == b
  | number a, number b => a.compare b == some .eq
  | bool a, bool b => a == b
  | date a, date b => a == b
  | list a, list b => equalLists a b
  | entity a _, entity b _ => a == b
  | _, _ => false

def equalLists : List Value → List Value → Bool
  | [], [] => true
  | a :: as, b :: bs => equal a b && equalLists as bs
  | _, _ => false

end

def compare : Value → Value → Option Ordering
  | null, null => some .eq
  | null, _ => some .lt
  | _, null => some .gt
  | string a, string b => some (Ord.compare a b)
  | number a, number b =>
    match a.isNaN, b.isNaN with
    | true, true => some .eq
    | true, false => some .gt
    | false, true => some .lt
    | false, false => a.compare b
  | date a, date b => some (a.compare b)
  | bool a, bool b => some (Ord.compare a b)
  | _, _ => none

theorem compare_swap (a b : Value) : b.compare a = (a.compare b).map Ordering.swap := by
  cases a <;> cases b
  case number.number a b =>
    cases ha : a.isNaN <;> cases hb : b.isNaN <;> simp [compare, ha, hb, a.compare_swap b]
  case date.date a b => exact congrArg some (a.compare_swap b)
  case string.string a b => simp [compare, Std.OrientedOrd.eq_swap (a := b) (b := a)]
  case bool.bool a b => cases a <;> cases b <;> rfl
  all_goals rfl

end Value

end EntityQuery
