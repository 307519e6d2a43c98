import EntityQuery.Proofs.Compile

/-!
What condition trees mean, said without filters: one walk over a tree decides on one entity. A
compiled tree accepts what the walk accepts, and fails where the walk fails.
-/

set_option autoImplicit false

namespace EntityQuery

def Combinator.value (c : Combinator) (before part : Bool) : Bool :=
  match c with
  | .and => before && part
  | .or => before || part
  | .none => before

namespace Node

def meets (t : EntityType) (e : Entity) (n : Node) : Except Error Bool := do
  if n.isSentinel then
    n.sentinelValue
  else
    let p ← Selector.resolve t n.selector
    let c ← Clause.compile p n.op n.operand
    return c.acceptsEntity e

def joinBelow (strategy : MergeStrategy) (root child : Node) : Combinator :=
  if strategy = .rootForSubtrees ∧ child.children ≠ [] then root.next else child.next

mutual

def walk (own : Node → Except Error Bool) (join : Node → Combinator) (seen : List Uuid) :
    Node → Except Error (Bool × List Uuid)
  | ⟨id, selector, op, operand, next, children⟩ => do
    walkChildren own join (← own ⟨id, selector, op, operand, next, children⟩) seen children

def walkChildren (own : Node → Except Error Bool) (join : Node → Combinator) (value : Bool)
    (seen : List Uuid) : List Node → Except Error (Bool × List Uuid)
  | [] => return (value, seen)
  | n :: ns =>
    if n.id ∈ seen then
      walkChildren own join value seen ns
    else do
      let (part, seen) ← walk own join (n.id :: seen) n
      walkChildren own join ((join n).value value part) seen ns

end

def meaning (t : EntityType) (strategy : MergeStrategy) (root : Node) (e : Entity) :
    Except Error Bool :=
  Prod.fst <$> root.walk (meets t e) (joinBelow strategy root) [root.id]

mutual

def fold (own : Node → Except Error Bool) (join : Node → Combinator) : Node → Except Error Bool
  | ⟨id, selector, op, operand, next, children⟩ => do
    foldChildren own join (← own ⟨id, selector, op, operand, next, children⟩) children

def foldChildren (own : Node → Except Error Bool) (join : Node → Combinator) (value : Bool) :
    List Node → Except Error Bool
  | [] => return value
  | n :: ns => do foldChildren own join ((join n).value value (← fold own join n)) ns

end

end Node

namespace Plan

mutual

def value : Plan Bool → Bool
  | node own parts => joinValues own parts

def joinValues (before : Bool) : List (Combinator × Plan Bool) → Bool
  | [] => before
  | (c, p) :: parts => joinValues (c.value before p.value) parts

end

@[simp] theorem accepts_join (c : Combinator) (before part : Filter) (e : Entity) :
    (join c before part).accepts e = c.value (before.accepts e) (part.accepts e) := by
  cases c <;> simp [join, Combinator.value]

mutual

theorem value_eq_fold (p : Plan Bool) : p.value = p.foldWith Combinator.value := by
  match p with
  | node own parts => exact joinValues_eq_fold own parts

theorem joinValues_eq_fold (before : Bool) (parts : List (Combinator × Plan Bool)) :
    joinValues before parts = foldParts Combinator.value before parts := by
  match parts with
  | [] => rfl
  | (c, p) :: parts =>
    simp only [joinValues, foldParts, value_eq_fold p, joinValues_eq_fold _ parts]

end

theorem value_mapM {α : Type} (own : α → Except Error Filter) (e : Entity) (p : Plan α) :
    value <$> p.mapM (fun a => Filter.accepts e <$> own a) =
      (fun q => q.filter.accepts e) <$> p.mapM own := by
  rw [funext value_eq_fold]
  simpa only [← filter_eq_fold] using foldWith_mapM (fun c f g => accepts_join c f g e) own p

theorem combinator_eq_joinBelow (strategy : MergeStrategy) (root : Node) :
    combinator strategy root.next = Node.joinBelow strategy root := by
  funext child
  cases strategy with
  | rootForSubtrees => by_cases leaf : child.children = [] <;> simp [combinator, Node.joinBelow, leaf]
  | childOperator => simp [combinator, Node.joinBelow]

mutual

-- Walking is planning first and deciding afterwards.
theorem walk_eq_plan (own : Node → Except Error Bool) (join : Node → Combinator)
    (seen : List Uuid) (n : Node) :
    n.walk own join seen =
      (fun p => (value p, (ofNode join seen n).2)) <$> (ofNode join seen n).1.mapM own := by
  match n with
  | ⟨id, selector, op, operand, next, children⟩ =>
    simp only [Node.walk, ofNode, mapM, map_bind, value, bind_pure_comp, Functor.map_map]
    exact bind_congr fun b => walkChildren_eq_plan own join b seen children

theorem walkChildren_eq_plan (own : Node → Except Error Bool) (join : Node → Combinator)
    (before : Bool) (seen : List Uuid) (ns : List Node) :
    Node.walkChildren own join before seen ns =
      (fun ps => (joinValues before ps, (ofChildren join seen ns).2)) <$>
        mapParts own (ofChildren join seen ns).1 := by
  match ns with
  | [] => simp [Node.walkChildren, ofChildren, mapParts, joinValues]
  | n :: ns =>
    by_cases met : n.id ∈ seen
    · simpa [Node.walkChildren, ofChildren, met] using walkChildren_eq_plan own join before seen ns
    · simp only [Node.walkChildren, ofChildren, met, if_false, walk_eq_plan own join _ n,
        bind_map_left, mapParts, map_bind, bind_pure_comp, Functor.map_map, joinValues]
      exact bind_congr fun p => walkChildren_eq_plan own join _ _ ns

end

end Plan

namespace Node

theorem meets_eq_condition (t : EntityType) (e : Entity) (n : Node) :
    n.meets t e = Filter.accepts e <$> n.condition t := by
  unfold meets condition
  split
  · simp [Filter.accepts]
  · simp [Filter.accepts]

theorem compiled_meaning (t : EntityType) (strategy : MergeStrategy) (root : Node) (e : Entity) :
    root.meaning t strategy e = Filter.accepts e <$> root.compiled t strategy := by
  have decisions := Plan.value_mapM (condition t) e (Plan.ofTree strategy root)
  simp only [← meets_eq_condition] at decisions
  rw [meaning, Plan.walk_eq_plan, ← Plan.combinator_eq_joinBelow, Functor.map_map, compiled,
    Functor.map_map]
  exact decisions

mutual

theorem walk_of_distinct (own : Node → Except Error Bool) (join : Node → Combinator)
    (seen : List Uuid) (n : Node) (distinct : n.ids.Nodup) (fresh : ∀ i ∈ n.ids, i ∉ seen) :
    n.walk own join (n.id :: seen) = (fun b => (b, n.ids.reverse ++ seen)) <$> n.fold own join := by
  match n with
  | ⟨id, selector, op, operand, next, children⟩ =>
    have inside : ∀ i ∈ idsOf children, i ∉ id :: seen := by
      intro i member
      have different : i ≠ id := fun same => (List.nodup_cons.1 distinct).1 (same ▸ member)
      simpa [different] using fresh i (List.mem_cons_of_mem _ member)
    have children_eq (b : Bool) :=
      walkChildren_of_distinct own join b (id :: seen) children (List.nodup_cons.1 distinct).2 inside
    simp only [walk, fold, children_eq, map_bind, ids, List.reverse_cons, List.append_assoc,
      List.singleton_append]

theorem walkChildren_of_distinct (own : Node → Except Error Bool) (join : Node → Combinator)
    (before : Bool) (seen : List Uuid) (ns : List Node) (distinct : (idsOf ns).Nodup)
    (fresh : ∀ i ∈ idsOf ns, i ∉ seen) :
    walkChildren own join before seen ns =
      (fun b => (b, (idsOf ns).reverse ++ seen)) <$> foldChildren own join before ns := by
  match ns with
  | [] => simp [walkChildren, foldChildren, idsOf]
  | n :: ns =>
    obtain ⟨first, rest, apart⟩ := List.nodup_append.1 distinct
    have here : ∀ i ∈ n.ids, i ∉ seen := fun i member => fresh i (List.mem_append_left _ member)
    have unmet : n.id ∉ seen := here _ (by simp [ids_eq])
    have later : ∀ i ∈ idsOf ns, i ∉ n.ids.reverse ++ seen := by
      intro i member
      have outside : i ∉ n.ids := fun inside => apart i inside i member rfl
      simpa [outside] using fresh i (List.mem_append_right _ member)
    simp only [walkChildren, unmet, if_false, walk_of_distinct own join seen n first here,
      bind_map_left, walkChildren_of_distinct own join _ _ ns rest later, foldChildren, map_bind,
      idsOf, List.reverse_append, List.append_assoc]

end

theorem meaning_of_distinct (t : EntityType) (strategy : MergeStrategy) (root : Node) (e : Entity)
    (distinct : root.ids.Nodup) :
    root.meaning t strategy e = root.fold (meets t e) (joinBelow strategy root) := by
  rw [meaning, walk_of_distinct _ _ [] root distinct (by simp), Functor.map_map]
  exact id_map' _

/-- A compiled tree decides as the tree means: it accepts what the walk over the tree accepts. Where
no two nodes share an id, that is the value of every node joined with those of its children. -/
theorem accepts_of_compile {t : EntityType} {k : PathCache} (reached : k.Reachable t.catalog)
    {options : CompileOptions} {root : Node} {f : Filter}
    (compiled : (root.compile t options).answer k = .ok f) :
    (∀ e, root.meaning t options.mergeStrategy e = .ok (f.accepts e)) ∧
      (root.ids.Nodup → ∀ e,
        root.fold (meets t e) (joinBelow options.mergeStrategy root) = .ok (f.accepts e)) := by
  have result : root.compiled t options.mergeStrategy = .ok f :=
    ((root.answers_compile t options).answer_eq reached).symm.trans compiled
  have decides (e : Entity) : root.meaning t options.mergeStrategy e = .ok (f.accepts e) := by
    rw [compiled_meaning, result]
    rfl
  refine ⟨decides, fun distinct e => ?_⟩
  rw [← meaning_of_distinct t _ root e distinct, decides e]

def sample (last : Uuid) : Node :=
  ⟨⟨0⟩, "", .none, .bool true, .or,
    [.leaf ⟨1⟩ "age" .greaterThan (.number (.uint 30)) .and,
      ⟨⟨2⟩, "name", .startsWith, .string "A", .none,
        [.leaf last "boss.name" .equal (.string "Ada") .or]⟩]⟩

theorem accepts_of_compile_sample : ∃ f g,
    ((sample ⟨1⟩).compile .person {}).answer .empty = .ok f ∧
    ((sample ⟨3⟩).compile .person {}).answer .empty = .ok g ∧ (sample ⟨3⟩).ids.Nodup ∧
    (∀ e, (sample ⟨1⟩).meaning .person .rootForSubtrees e = .ok (f.accepts e)) ∧
    ∀ e, (sample ⟨3⟩).fold (meets .person e) (joinBelow .rootForSubtrees (sample ⟨3⟩)) =
      .ok (g.accepts e) := by
  obtain ⟨f, shared⟩ : ∃ f, ((sample ⟨1⟩).compile .person {}).answer .empty = .ok f := ⟨_, rfl⟩
  obtain ⟨g, apart⟩ : ∃ g, ((sample ⟨3⟩).compile .person {}).answer .empty = .ok g := ⟨_, rfl⟩
  have distinct : (sample ⟨3⟩).ids.Nodup := by decide
  exact ⟨f, g, shared, apart, distinct, (accepts_of_compile .empty shared).1,
    (accepts_of_compile .empty apart).2 distinct⟩

end Node

end EntityQuery
