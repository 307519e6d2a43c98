import EntityQuery.Proofs.Meaning
import EntityQuery.Proofs.Selector.Segments
import EntityQuery.Proofs.Walk

/-!
The clauses of a compiled tree. They are those of the visited nodes that compare something, one clause
for each and in the order of the nodes, save for the subtrees that no combinator joins. What is inside
of those is compiled and left out, but its ids count as met.
-/

set_option autoImplicit false

namespace EntityQuery

open Resolving (ok_of_bind ok_of_map)

namespace Node

mutual

def retain (join : Node → Combinator) (seen : List Uuid) : Node → List Node × List Uuid
  | ⟨id, selector, op, operand, next, children⟩ =>
    let (below, seen) := retainAll join seen children
    (⟨id, selector, op, operand, next, children⟩ :: below, seen)

def retainAll (join : Node → Combinator) (seen : List Uuid) : List Node → List Node × List Uuid
  | [] => ([], seen)
  | n :: ns =>
    if n.id ∈ seen then
      retainAll join seen ns
    else
      let (first, seen) := retain join (n.id :: seen) n
      let (rest, seen) := retainAll join seen ns
      (if join n = .none then rest else first ++ rest, seen)

end

def retained (strategy : MergeStrategy) (root : Node) : List Node :=
  (root.retain (joinBelow strategy root) [root.id]).1

structure Yields (t : EntityType) (n : Node) (c : Clause) : Prop where
  resolved : Selector.resolve t n.selector = .ok c.path
  compiled : Clause.compile c.path n.op n.operand = .ok c
  op_eq : c.op = n.op
  selector_eq : c.path.selector = Selector.normalized n.selector

end Node

namespace Plan

variable {α β : Type}

mutual

def kept : Plan α → List α
  | node a parts => a :: keptOf parts

def keptOf : List (Combinator × Plan α) → List α
  | [] => []
  | (c, p) :: parts => if c = .none then keptOf parts else p.kept ++ keptOf parts

end

mutual

theorem kept_sublist (p : Plan α) : p.kept.Sublist p.members := by
  match p with
  | node a parts => exact (keptOf_sublist parts).cons_cons a

theorem keptOf_sublist (parts : List (Combinator × Plan α)) :
    (keptOf parts).Sublist (membersOf parts) := by
  match parts with
  | [] => exact .slnil
  | (c, p) :: parts =>
    simp only [keptOf, membersOf]
    split
    next => exact (keptOf_sublist parts).trans (List.sublist_append_right _ _)
    next => exact (kept_sublist p).append (keptOf_sublist parts)

end

mutual

theorem kept_ofNode (join : Node → Combinator) (seen : List Uuid) (n : Node) :
    ((ofNode join seen n).1.kept, (ofNode join seen n).2) = n.retain join seen := by
  match n with
  | ⟨id, selector, op, operand, next, children⟩ =>
    have below := kept_ofChildren join seen children
    simp only [ofNode_eq, kept, Node.retain, ← below]

theorem kept_ofChildren (join : Node → Combinator) (seen : List Uuid) (ns : List Node) :
    (keptOf (ofChildren join seen ns).1, (ofChildren join seen ns).2) =
      Node.retainAll join seen ns := by
  match ns with
  | [] => rfl
  | n :: ns =>
    by_cases repeated : n.id ∈ seen
    · simpa only [ofChildren, Node.retainAll, repeated, if_true] using kept_ofChildren join seen ns
    · have first := kept_ofNode join (n.id :: seen) n
      have rest := kept_ofChildren join (ofNode join (n.id :: seen) n).2 ns
      simp only [ofChildren, Node.retainAll, repeated, if_false, keptOf, ← first, ← rest]

end

mutual

theorem kept_mapM {f : α → Except Error β} {p : Plan α} {q : Plan β} (mapped : p.mapM f = .ok q) :
    List.Forall₂ (fun a b => f a = .ok b) p.kept q.kept := by
  match p with
  | node a parts =>
    obtain ⟨b, first, rest⟩ := ok_of_bind mapped
    obtain ⟨qs, others, rest⟩ := ok_of_bind rest
    cases rest
    exact .cons first (kept_mapParts others)

theorem kept_mapParts {f : α → Except Error β} {parts : List (Combinator × Plan α)}
    {qs : List (Combinator × Plan β)} (mapped : mapParts f parts = .ok qs) :
    List.Forall₂ (fun a b => f a = .ok b) (keptOf parts) (keptOf qs) := by
  match parts with
  | [] =>
    cases mapped
    exact .nil
  | (c, p) :: parts =>
    obtain ⟨q, first, rest⟩ := ok_of_bind mapped
    obtain ⟨qs, others, rest⟩ := ok_of_bind rest
    cases rest
    simp only [keptOf]
    split
    next => exact kept_mapParts others
    next => exact List.rel_append (kept_mapM first) (kept_mapParts others)

end

mutual

theorem clauses_filter (p : Plan Filter) : p.filter.clauses = p.kept.flatMap Filter.clauses := by
  match p with
  | node f parts => exact clauses_joinParts f parts

-- However the filters before are nested, a part that is joined puts its clauses behind theirs.
theorem clauses_joinParts (before : Filter) (parts : List (Combinator × Plan Filter)) :
    (joinParts before parts).clauses = before.clauses ++ (keptOf parts).flatMap Filter.clauses := by
  match parts with
  | [] => simp [joinParts, keptOf]
  | (c, p) :: parts =>
    rw [joinParts, clauses_joinParts (join c before p.filter) parts]
    cases c with
    | none => simp [join, keptOf]
    | and | or =>
      rw [clauses_join (by decide), clauses_filter p]
      simp [keptOf]

end

end Plan

namespace Node

variable {t : EntityType}

theorem clauses_of_condition {n : Node} {f : Filter} (condition : n.condition t = .ok f) :
    (n.isSentinel = true ∧ f.clauses = []) ∨
      (n.isSentinel = false ∧ ∃ c, f.clauses = [c] ∧ n.Yields t c) := by
  cases sentinel : n.isSentinel with
  | true =>
    rw [condition_of_sentinel sentinel] at condition
    obtain ⟨b, -, rfl⟩ := ok_of_map condition
    exact .inl ⟨rfl, by simp [Filter.clauses]⟩
  | false =>
    rw [condition_of_leaf sentinel] at condition
    obtain ⟨p, resolved, condition⟩ := ok_of_bind condition
    obtain ⟨c, compiled, rfl⟩ := ok_of_map condition
    obtain ⟨x, -, rfl⟩ := ok_of_map ((Clause.compile_eq ..).symm.trans compiled)
    exact .inr ⟨rfl, ⟨p, n.op, x.1, x.2⟩, by simp [Filter.clauses],
      ⟨resolved, compiled, rfl, (Selector.resolve_inv resolved).1⟩⟩

theorem yields_of_conditions {ns : List Node} {fs : List Filter}
    (conditions : List.Forall₂ (fun n f => n.condition t = .ok f) ns fs) :
    List.Forall₂ (Yields t) (ns.filter fun n => !n.isSentinel) (fs.flatMap Filter.clauses) := by
  induction conditions with
  | nil => exact .nil
  | cons condition _ ih =>
    rw [List.flatMap_cons]
    rcases clauses_of_condition condition with ⟨sentinel, none⟩ | ⟨leaf, c, single, yields⟩
    · rw [List.filter_cons_of_neg (by simp [sentinel]), none]
      exact ih
    · rw [List.filter_cons_of_pos (by simp [leaf]), single]
      exact .cons yields ih

/-- The clauses of a compiled tree are, in order and one for each, those of the retained nodes that are
no constants; each has the operator and the normalized selector of its node. The retained nodes are
among the visited ones and stand in their order. -/
theorem clauses_of_retained {k : PathCache} (reached : k.Reachable t.catalog)
    {options : CompileOptions} {root : Node} {f : Filter}
    (compiled : (root.compile t options).answer k = .ok f) :
    List.Forall₂ (Yields t)
      ((root.retained options.mergeStrategy).filter fun n => !n.isSentinel) f.clauses ∧
    (root.retained options.mergeStrategy).Sublist root.visited := by
  have result : root.compiled t options.mergeStrategy = .ok f :=
    ((root.answers_compile t options).answer_eq reached).symm.trans compiled
  have kept : (Plan.ofTree options.mergeStrategy root).kept = root.retained options.mergeStrategy := by
    rw [retained, ← Plan.kept_ofNode, ← Plan.combinator_eq_joinBelow, Plan.ofTree]
  constructor
  · obtain ⟨q, mapped, rfl⟩ := ok_of_map result
    rw [Plan.clauses_filter, ← kept]
    exact yields_of_conditions (Plan.kept_mapM mapped)
  · rw [← kept, ← Plan.members_ofTree options.mergeStrategy]
    exact Plan.kept_sublist _

-- Nothing joins the leaves 1 and 3, but their ids are met, so that the leaves of the same ids that come
-- later are skipped. Node 2 has children: the root joins it, or nothing does.
def pruned : Node :=
  ⟨⟨0⟩, "name", .startsWith, .string "A", .or,
    [.leaf ⟨1⟩ "age" .equal (.number (.uint 1)) .none,
      ⟨⟨2⟩, "", .none, .bool true, .none, [.leaf ⟨1⟩ " home . city" .isNull .null .and,
        .leaf ⟨3⟩ "born" .isNotNull .null .none]⟩,
      .leaf ⟨3⟩ "name" .equal (.string "Ada") .and, .leaf ⟨4⟩ "boss . name " .like (.string "a") .and]⟩

theorem clauses_of_retained_pruned : ∃ f g,
    (pruned.compile .person {}).answer .empty = .ok f ∧
    (pruned.compile .person ⟨.childOperator, true⟩).answer .empty = .ok g ∧
    List.Forall₂ (Yields .person)
      ((pruned.retained .rootForSubtrees).filter fun n => !n.isSentinel) f.clauses ∧
    (pruned.retained .rootForSubtrees).map id = [⟨0⟩, ⟨2⟩, ⟨4⟩] ∧
    List.Forall₂ (Yields .person)
      ((pruned.retained .childOperator).filter fun n => !n.isSentinel) g.clauses ∧
    g.clauses.map (·.path.selector) = ["name", "boss.name"] := by
  obtain ⟨f, compiled⟩ : ∃ f, (pruned.compile .person {}).answer .empty = .ok f := ⟨_, rfl⟩
  obtain ⟨g, compiled'⟩ : ∃ g,
    (pruned.compile .person ⟨.childOperator, true⟩).answer .empty = .ok g := ⟨_, rfl⟩
  refine ⟨f, g, compiled, compiled', (clauses_of_retained .empty compiled).1, by decide,
    (clauses_of_retained .empty compiled').1, ?_⟩
  cases compiled'
  rfl

end Node

end EntityQuery
