import EntityQuery.Condition
import EntityQuery.Filter
import EntityQuery.Options

/-!
Plans: condition trees in which it is settled which nodes take part and what joins them. A node
whose id was met before, in the order in which nodes are written, is left out with its subtree.
-/

set_option autoImplicit false

namespace EntityQuery

inductive Plan (α : Type) where
  | node (own : α) (parts : List (Combinator × Plan α))

namespace Plan

def combinator (strategy : MergeStrategy) (root : Combinator) (child : Node) : Combinator :=
  match strategy with
  | .rootForSubtrees => if child.children.isEmpty then child.next else root
  | .childOperator => child.next

mutual

def ofNode (join : Node → Combinator) (seen : List Uuid) : Node → Plan Node × List Uuid
  | ⟨id, selector, op, operand, next, children⟩ =>
    let (parts, seen) := ofChildren join seen children
    (node ⟨id, selector, op, operand, next, children⟩ parts, seen)

def ofChildren (join : Node → Combinator) (seen : List Uuid) :
    List Node → List (Combinator × Plan Node) × List Uuid
  | [] => ([], seen)
  | n :: ns =>
    if n.id ∈ seen then
      ofChildren join seen ns
    else
      let (part, seen) := ofNode join (n.id :: seen) n
      let (parts, seen) := ofChildren join seen ns
      ((join n, part) :: parts, seen)

end

def ofTree (strategy : MergeStrategy) (root : Node) : Plan Node :=
  (ofNode (combinator strategy root.next) [root.id] root).1

mutual

def mapM {α β : Type} {m : Type → Type} [Monad m] (f : α → m β) : Plan α → m (Plan β)
  | node own parts => return node (← f own) (← mapParts f parts)

def mapParts {α β : Type} {m : Type → Type} [Monad m] (f : α → m β) :
    List (Combinator × Plan α) → m (List (Combinator × Plan β))
  | [] => return []
  | (c, p) :: parts => return (c, ← p.mapM f) :: (← mapParts f parts)

end

-- Joins a filter to the one before it; with no combinator it is left out.
def join (c : Combinator) (before part : Filter) : Filter :=
  match c with
  | .and => before.and part
  | .or => before.or part
  | .none => before

mutual

def filter : Plan Filter → Filter
  | node own parts => joinParts own parts

def joinParts (before : Filter) : List (Combinator × Plan Filter) → Filter
  | [] => before
  | (c, p) :: parts => joinParts (join c before p.filter) parts

end

end Plan

end EntityQuery
