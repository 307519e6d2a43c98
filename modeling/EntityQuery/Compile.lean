import EntityQuery.Plan
import EntityQuery.Selector.Cache

set_option autoImplicit false

namespace EntityQuery

def Node.own (t : EntityType) (cached : Bool) (n : Node) : Resolving Filter := do
  if n.isSentinel then
    return .const (← n.sentinelValue)
  let p ← Resolving.resolve t cached n.selector
  return .clause (← Clause.compile p n.op n.operand)

def Node.compile (t : EntityType) (options : CompileOptions) (root : Node) : Resolving Filter := do
  let plan ← (Plan.ofTree options.mergeStrategy root).mapM (Node.own t options.cachePaths)
  return plan.filter

end EntityQuery
