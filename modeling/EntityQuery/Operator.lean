import EntityQuery.Text.Blank
import EntityQuery.Text.Search

set_option autoImplicit false

namespace EntityQuery

open Text

inductive Operator where
  | equal | notEqual
  | contains | notContains
  | like | notLike
  | startsWith | notStartsWith
  | endsWith | notEndsWith
  | greaterThan | greaterThanOrEqual | lessThan | lessThanOrEqual
  | isNull | isNotNull
  | none
  deriving DecidableEq, Repr

namespace Operator

def all : List Operator :=
  [equal, notEqual, contains, notContains, like, notLike, startsWith, notStartsWith, endsWith,
   notEndsWith, greaterThan, greaterThanOrEqual, lessThan, lessThanOrEqual, isNull, isNotNull, none]

def ordinal : Operator → Nat
  | equal => 1
  | notEqual => 2
  | contains => 3
  | notContains => 4
  | like => 5
  | notLike => 6
  | startsWith => 7
  | notStartsWith => 8
  | endsWith => 9
  | notEndsWith => 10
  | greaterThan => 11
  | greaterThanOrEqual => 12
  | lessThan => 13
  | lessThanOrEqual => 14
  | isNull => 15
  | isNotNull => 16
  | none => 17

def ofOrdinal? (n : Nat) : Option Operator :=
  all.find? (·.ordinal == n)

theorem ofOrdinal?_ordinal (o : Operator) : ofOrdinal? o.ordinal = some o := by
  cases o <;> rfl

def name : Operator → String
  | equal => "Equal"
  | notEqual => "NotEqual"
  | contains => "Contains"
  | notContains => "NotContains"
  | like => "Like"
  | notLike => "NotLike"
  | startsWith => "StartsWith"
  | notStartsWith => "NotStartsWith"
  | endsWith => "EndsWith"
  | notEndsWith => "NotEndsWith"
  | greaterThan => "GreaterThan"
  | greaterThanOrEqual => "GreaterThanOrEqual"
  | lessThan => "LessThan"
  | lessThanOrEqual => "LessThanOrEqual"
  | isNull => "IsNull"
  | isNotNull => "IsNotNull"
  | none => "None"

def ofName? (text : String) : Option Operator :=
  match trimmed text with
  | "Contain" => some contains
  | "NotContain" => some notContains
  | name => all.find? fun o => sameName o.name name

theorem ofName?_name (o : Operator) : ofName? o.name = some o := by
  cases o <;> decide

def isMembership : Operator → Bool
  | contains | notContains => true
  | _ => false

def isText : Operator → Bool
  | like | notLike | startsWith | notStartsWith | endsWith | notEndsWith => true
  | _ => false

def isOrdering : Operator → Bool
  | greaterThan | greaterThanOrEqual | lessThan | lessThanOrEqual => true
  | _ => false

def isNullTest : Operator → Bool
  | isNull | isNotNull => true
  | _ => false

def isNegated : Operator → Bool
  | notEqual | notContains | notLike | notStartsWith | notEndsWith | isNotNull => true
  | _ => false

def positive : Operator → Operator
  | notEqual => equal
  | notContains => contains
  | notLike => like
  | notStartsWith => startsWith
  | notEndsWith => endsWith
  | isNotNull => isNull
  | o => o

def holdsFor : Operator → Ordering → Bool
  | equal, o => o == .eq
  | notEqual, o => o != .eq
  | greaterThan, o => o == .gt
  | greaterThanOrEqual, o => o != .lt
  | lessThan, o => o == .lt
  | lessThanOrEqual, o => o != .gt
  | _, _ => false

def symbol : Operator → String
  | equal => "="
  | notEqual => "<>"
  | contains => "IN"
  | notContains => "NOT IN"
  | like | startsWith | endsWith => "LIKE"
  | notLike | notStartsWith | notEndsWith => "NOT LIKE"
  | greaterThan => ">"
  | greaterThanOrEqual => ">="
  | lessThan => "<"
  | lessThanOrEqual => "<="
  | isNull => "IS NULL"
  | isNotNull => "IS NOT NULL"
  | none => ""

end Operator

-- How a condition is joined to those before it; with `none` it is checked but left out.
inductive Combinator where
  | and | or | none
  deriving DecidableEq, Repr

namespace Combinator

def ordinal : Combinator → Nat
  | and => 1
  | or => 2
  | none => 3

def ofOrdinal? : Nat → Option Combinator
  | 1 => some and
  | 2 => some or
  | 3 => some none
  | _ => Option.none

theorem ofOrdinal?_ordinal (c : Combinator) : ofOrdinal? c.ordinal = some c := by
  cases c <;> rfl

def name : Combinator → String
  | and => "And"
  | or => "Or"
  | none => "None"

def ofName? (text : String) : Option Combinator :=
  [and, or, none].find? fun c => sameName c.name (trimmed text)

theorem ofName?_name (c : Combinator) : ofName? c.name = some c := by
  cases c <;> decide

end Combinator

inductive Direction where
  | ascending | descending
  deriving DecidableEq, Repr

namespace Direction

def ordinal : Direction → Nat
  | ascending => 1
  | descending => 2

def ofOrdinal? : Nat → Option Direction
  | 1 => some ascending
  | 2 => some descending
  | _ => none

theorem ofOrdinal?_ordinal (d : Direction) : ofOrdinal? d.ordinal = some d := by
  cases d <;> rfl

def name : Direction → String
  | ascending => "Ascending"
  | descending => "Descending"

def symbol : Direction → String
  | ascending => "ASC"
  | descending => "DESC"

def ofName? (text : String) : Option Direction :=
  [ascending, descending].find? fun d =>
    sameName d.name (trimmed text) || sameName d.symbol (trimmed text)

theorem ofName?_name (d : Direction) : ofName? d.name = some d := by
  cases d <;> decide

def apply : Direction → Ordering → Ordering
  | ascending, o => o
  | descending, o => o.swap

theorem apply_swap (d : Direction) (o : Ordering) : d.apply o.swap = (d.apply o).swap := by
  cases d <;> rfl

end Direction

end EntityQuery
