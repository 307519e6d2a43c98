import EntityQuery.Clause.Like
import EntityQuery.Coercion
import EntityQuery.Selector

/-!
Clauses: single conditions after compilation, with a resolved selector and an operand of the kind
of the selected field. What the operators mean is said here and nowhere else.
-/

set_option autoImplicit false

namespace EntityQuery

open Text

inductive Test where
  | null (negate : Bool)
  | equal (negate : Bool)
  | member (values : List Operand) (negate : Bool)
  | text (mode : Like.Mode) (needle : String) (numeric negate : Bool)
  | order

structure Clause where
  path : Path
  op : Operator
  -- Null for the null tests.
  operand : Operand
  test : Test

namespace Clause

def textMode (op : Operator) : Like.Mode :=
  match op.positive with
  | .startsWith => .atStart
  | .endsWith => .atEnd
  | _ => .anywhere

def nonNull (v : Operand) (k : Kind) : Except Error Operand :=
  if v.isNull then .error (.coercion v.text k.name) else .ok v

-- Operand and test of an operator on a path. The operand is coerced to the kind of the path, for
-- membership each of its items; the null tests ignore it.
def prepare (p : Path) (op : Operator) (raw : Operand) : Except Error (Operand × Test) :=
  let unsupported : Except Error (Operand × Test) :=
    .error (.unsupportedOperator op p.kind.name p.selector)
  match op with
  | .isNull | .isNotNull => .ok (.null, .null op.isNegated)
  | .equal | .notEqual => do
    let v ← raw.coerce p.kind p.nullable
    if v.isNull then
      return (v, .null op.isNegated)
    match p.kind with
    | .entity _ => unsupported
    | _ => return (v, .equal op.isNegated)
  | .contains | .notContains =>
    if p.kind.isScalar then
      match raw.coerceMembers? p.kind with
      | some values => do
        let values ← values
        return (.list values, .member values op.isNegated)
      | none => .error (.expectedCollection op p.selector raw.text)
    else
      unsupported
  | .like | .notLike | .startsWith | .notStartsWith | .endsWith | .notEndsWith =>
    match p.kind with
    | .string | .number _ => do
      let v ← nonNull (← raw.coerce p.kind false) p.kind
      return (v, .text (textMode op) v.plainText p.kind.isNumeric op.isNegated)
    | _ => unsupported
  | .greaterThan | .greaterThanOrEqual | .lessThan | .lessThanOrEqual =>
    match p.kind with
    | .string | .number _ | .date => do
      let v ← nonNull (← raw.coerce p.kind false) p.kind
      return (v, .order)
    | _ => unsupported
  | .none => unsupported

def compile (p : Path) (op : Operator) (raw : Operand) : Except Error Clause := do
  let (operand, test) ← prepare p op raw
  return ⟨p, op, operand, test⟩

def searchedText (numeric : Bool) : Value → Option (List Char)
  | .string s => if numeric then none else some s.toList
  | .number n => if numeric then some n.render else none
  | _ => none

-- The white space that a text operator disregards: none of it counts at an end that the operator
-- looks at.
def disregardBlanks (mode : Like.Mode) (cs : List Char) : List Char :=
  match mode with
  | .anywhere => trim cs
  | .atStart => trimStart cs
  | .atEnd => trimEnd cs

def orderAgainst : Value → Operand → Option Ordering
  | .string a, .string b => some (Ord.compare a b)
  | .number a, .number b => a.compare b
  | .date a, .date b => some (a.compare b)
  | _, _ => none

def accepts (c : Clause) (v : Value) : Bool :=
  match c.test with
  | .null negate => v.isNull != negate
  | .equal negate => !v.isNull && (c.operand.agrees v != negate)
  | .member values negate => !v.isNull && ((values.any (·.agrees v)) != negate)
  | .text mode needle numeric negate =>
    match searchedText numeric v with
    | some cs => mode.finds needle.toList (disregardBlanks mode cs) != negate
    | none => false
  | .order => ((orderAgainst v c.operand).map c.op.holdsFor).getD false

def acceptsEntity (c : Clause) (e : Entity) : Bool :=
  c.accepts (c.path.get e)

def literal (cs : List Char) : List Char :=
  '\x27' :: double '\x27' cs ++ ['\x27']

mutual

def renderOperand : Operand → List Char
  | .null => "NULL".toList
  | .string s => literal s.toList
  | .date d => literal d.render
  | .number n => n.render
  | .bool b => (Operand.bool b).plainText.toList
  | .list items => '(' :: renderOperands items ++ [')']

def renderOperands : List Operand → List Char
  | [] => []
  | [v] => renderOperand v
  | v :: vs => renderOperand v ++ ", ".toList ++ renderOperands vs

end

def renderSearched (mode : Like.Mode) (numeric : Bool) (selector : List Char) : List Char :=
  if numeric then
    (match mode with
      | .anywhere => "TRIM(STR(".toList
      | .atStart => "LTRIM(STR(".toList
      | .atEnd => "RTRIM(STR(".toList) ++ selector ++ "))".toList
  else
    selector

def render (c : Clause) : List Char :=
  let selector := c.path.selector.toList
  match c.test with
  | .null false => selector ++ " IS NULL".toList
  | .null true => selector ++ " IS NOT NULL".toList
  | .text mode needle numeric _ =>
    renderSearched mode numeric selector ++ ' ' :: c.op.symbol.toList ++ ' ' ::
      literal (mode.pattern needle.toList)
      ++ if Like.declaresEscape needle.toList then " ESCAPE '\\'".toList else []
  | _ => selector ++ ' ' :: c.op.symbol.toList ++ ' ' :: renderOperand c.operand

end Clause

end EntityQuery
