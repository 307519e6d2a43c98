import EntityQuery.Compile

set_option autoImplicit false

namespace EntityQuery

structure Criteria where
  id : Uuid
  entityTypeName : String
  tree : Node

namespace Criteria

def ofTree (t : EntityType) (id : Uuid) (tree : Node) : Criteria :=
  ⟨id, t.name, tree⟩

def always (t : EntityType) (id nodeId : Uuid) : Criteria :=
  ofTree t id (.sentinel nodeId true)

def never (t : EntityType) (id nodeId : Uuid) : Criteria :=
  ofTree t id (.sentinel nodeId false)

def push (c : Criteria) (next : Combinator) (child : Node) : Criteria :=
  { c with tree := { c.tree with next := next, children := c.tree.children ++ [child] } }

def leafOperand (p : Path) (op : Operator) (v : Operand) : Except Error Operand :=
  if op.isMembership || op.isNullTest then .ok v else v.coerce p.kind p.nullable

def appendLeaf (t : EntityType) (c : Criteria) (id : Uuid) (next : Combinator) (selector : String)
    (op : Operator) (v : Operand) : Resolving Criteria := do
  let selector := Text.trimmed selector
  if selector.isEmpty then
    throw .emptySelector
  let p ← Resolving.resolve t true selector
  return c.push next (.leaf id selector op (← leafOperand p op v) next)

def appendCriteria (c other : Criteria) (next : Combinator) : Except Error Criteria :=
  if other.entityTypeName = c.entityTypeName then .ok (c.push next other.tree)
  else .error (.entityMismatch c.entityTypeName other.entityTypeName)

def cast (u : EntityType) (c : Criteria) : Criteria :=
  { c with entityTypeName := u.name }

def compile (t : EntityType) (options : CompileOptions) (c : Criteria) : Resolving Filter :=
  c.tree.compile t options

end Criteria

end EntityQuery
