import EntityQuery.Operand
import EntityQuery.Uuid

set_option autoImplicit false

namespace EntityQuery

structure Node where
  id : Uuid
  -- Empty for sentinels.
  selector : String
  op : Operator
  operand : Operand
  next : Combinator
  children : List Node

namespace Node

def sentinel (id : Uuid) (accept : Bool) : Node :=
  ⟨id, "", .none, .bool accept, if accept then .and else .or, []⟩

def leaf (id : Uuid) (selector : String) (op : Operator) (operand : Operand) (next : Combinator) :
    Node :=
  ⟨id, selector, op, operand, next, []⟩

def isSentinel (n : Node) : Bool :=
  n.op == .none

-- The constant that a sentinel stands for: a boolean, or the number one or zero.
def sentinelValue (n : Node) : Except Error Bool :=
  match n.operand with
  | .bool b => .ok b
  | .number x =>
    if x.compare (.int 1) = some .eq then .ok true
    else if x.compare (.int 0) = some .eq then .ok false
    else .error (.invalidSentinel n.operand.text)
  | v => .error (.invalidSentinel v.text)

mutual

def count : Node → Nat
  | ⟨_, _, _, _, _, children⟩ => 1 + countAll children

def countAll : List Node → Nat
  | [] => 0
  | n :: ns => n.count + countAll ns

end

mutual

def identical : Node → Node → Bool
  | ⟨i, s, o, v, c, ns⟩, ⟨i', s', o', v', c', ns'⟩ =>
    i == i' && s == s' && o == o' && v.identical v' && c == c' && identicalAll ns ns'

def identicalAll : List Node → List Node → Bool
  | [], [] => true
  | n :: ns, m :: ms => n.identical m && identicalAll ns ms
  | _, _ => false

end

end Node

end EntityQuery
