import EntityQuery.Proofs.Identity

set_option autoImplicit false

namespace EntityQuery

namespace Node

mutual

def visit (seen : List Uuid) : Node → List Node × List Uuid
  | ⟨id, selector, op, operand, next, children⟩ =>
    let (below, seen) := visitAll seen children
    (⟨id, selector, op, operand, next, children⟩ :: below, seen)

def visitAll (seen : List Uuid) : List Node → List Node × List Uuid
  | [] => ([], seen)
  | n :: ns =>
    if n.id ∈ seen then
      visitAll seen ns
    else
      let (first, seen) := visit (n.id :: seen) n
      let (rest, seen) := visitAll seen ns
      (first ++ rest, seen)

end

def visited (root : Node) : List Node :=
  (root.visit [root.id]).1

mutual

theorem visit_sublist (seen : List Uuid) (n : Node) : (n.visit seen).1.Sublist n.nodes := by
  match n with
  | ⟨id, selector, op, operand, next, children⟩ =>
    exact (visitAll_sublist seen children).cons_cons _

theorem visitAll_sublist (seen : List Uuid) (ns : List Node) :
    (visitAll seen ns).1.Sublist (nodesOf ns) := by
  match ns with
  | [] => exact .slnil
  | n :: ns =>
    by_cases repeated : n.id ∈ seen
    · simp only [visitAll, repeated, if_true, nodesOf]
      exact (visitAll_sublist seen ns).trans (List.sublist_append_right _ _)
    · simp only [visitAll, repeated, if_false, nodesOf]
      exact (visit_sublist _ n).append (visitAll_sublist _ ns)

end

theorem mem_nodes_of_visited {root n : Node} (met : n ∈ root.visited) : n ∈ root.nodes :=
  (visit_sublist _ root).subset met

end Node

namespace Plan

variable {α β : Type}

mutual

theorem members_ofNode (join : Node → Combinator) (seen : List Uuid) (n : Node) :
    ((ofNode join seen n).1.members, (ofNode join seen n).2) = n.visit seen := by
  match n with
  | ⟨id, selector, op, operand, next, children⟩ =>
    have below := members_ofChildren join seen children
    simp only [ofNode_eq, members, Node.visit, ← below]

theorem members_ofChildren (join : Node → Combinator) (seen : List Uuid) (ns : List Node) :
    (membersOf (ofChildren join seen ns).1, (ofChildren join seen ns).2) =
      Node.visitAll seen ns := by
  match ns with
  | [] => rfl
  | n :: ns =>
    by_cases repeated : n.id ∈ seen
    · simpa only [ofChildren, Node.visitAll, repeated, if_true] using
        members_ofChildren join seen ns
    · have first := members_ofNode join (n.id :: seen) n
      have rest := members_ofChildren join (ofNode join (n.id :: seen) n).2 ns
      simp only [ofChildren, Node.visitAll, repeated, if_false, membersOf, ← first, ← rest]

end

theorem members_ofTree (strategy : MergeStrategy) (root : Node) :
    (ofTree strategy root).members = root.visited :=
  congrArg Prod.fst (members_ofNode _ _ root)

section Monad

variable {m : Type → Type} [Monad m]

mutual

theorem members_mapM [LawfulMonad m] (f : α → m β) (p : Plan α) :
    members <$> p.mapM f = p.members.mapM f := by
  match p with
  | node own parts =>
    simp only [mapM, members, List.mapM_cons, map_bind, map_pure, ← membersOf_mapParts f parts,
      bind_map_left]

theorem membersOf_mapParts [LawfulMonad m] (f : α → m β) (parts : List (Combinator × Plan α)) :
    membersOf <$> mapParts f parts = (membersOf parts).mapM f := by
  match parts with
  | [] => simp [mapParts, membersOf]
  | (c, p) :: parts =>
    simp only [mapParts, membersOf, List.mapM_append, map_bind, map_pure, ← members_mapM f p,
      ← membersOf_mapParts f parts, bind_map_left]

end

mutual

theorem mapM_congr {f g : α → m β} {p : Plan α} (same : ∀ a ∈ p.members, f a = g a) :
    p.mapM f = p.mapM g := by
  match p with
  | node own parts =>
    simp only [mapM, same own (.head _), mapParts_congr fun a below => same a (.tail _ below)]

theorem mapParts_congr {f g : α → m β} {parts : List (Combinator × Plan α)}
    (same : ∀ a ∈ membersOf parts, f a = g a) : mapParts f parts = mapParts g parts := by
  match parts with
  | [] => rfl
  | (c, p) :: parts =>
    simp only [mapParts, mapM_congr fun a inside => same a (List.mem_append_left _ inside),
      mapParts_congr fun a later => same a (List.mem_append_right _ later)]

end

end Monad

end Plan

theorem Node.compiled_eq_error_iff {t : EntityType} {strategy : MergeStrategy} {root : Node}
    {e : Error} : root.compiled t strategy = .error e ↔
      root.visited.mapM (condition t) = .error e := by
  rw [compiled, Resolving.map_eq_error_iff, ← Plan.members_ofTree strategy, ← Plan.members_mapM,
    Resolving.map_eq_error_iff]

theorem Node.exists_compiled_iff {t : EntityType} {strategy : MergeStrategy} {root : Node} :
    (∃ f, root.compiled t strategy = .ok f) ↔ ∀ n ∈ root.visited, ∃ f, n.condition t = .ok f := by
  rw [← exists_mapM_ok_iff]
  cases mapped : root.visited.mapM (condition t) with
  | error e => simp [compiled_eq_error_iff.2 mapped]
  | ok fs =>
    cases compiled : root.compiled t strategy with
    | error e => simp [compiled_eq_error_iff.1 compiled] at mapped
    | ok f => simp

end EntityQuery
