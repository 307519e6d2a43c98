import EntityQuery.Proofs.Walk

set_option autoImplicit false

namespace EntityQuery

namespace Node

variable {t : EntityType} {n : Node} {e : Error}

inductive Refused (t : EntityType) (n : Node) (e : Error) : Prop where
  | constant (sentinel : n.isSentinel = true) (value : n.sentinelValue = .error e)
  | selector (leaf : n.isSentinel = false) (unresolved : Selector.resolve t n.selector = .error e)
  | clause {p : Path} (leaf : n.isSentinel = false) (resolved : Selector.resolve t n.selector = .ok p)
      (refused : Clause.compile p n.op n.operand = .error e)

theorem refused_of_condition (failed : n.condition t = .error e) : n.Refused t e := by
  cases sentinel : n.isSentinel with
  | true =>
    rw [condition_of_sentinel sentinel, Resolving.map_eq_error_iff] at failed
    exact .constant sentinel failed
  | false =>
    cases resolved : Selector.resolve t n.selector with
    | error e' =>
      rw [condition_of_leaf sentinel, resolved] at failed
      cases failed
      exact .selector sentinel resolved
    | ok p =>
      rw [condition_of_resolve sentinel resolved, Resolving.map_eq_error_iff] at failed
      exact .clause sentinel resolved failed

theorem condition_eq_error_iff : n.condition t = .error e ↔ n.Refused t e := by
  refine ⟨refused_of_condition, fun refused => ?_⟩
  cases refused with
  | constant sentinel value => rw [condition_of_sentinel sentinel, value, Except.map_error]
  | selector leaf unresolved =>
    rw [condition_of_leaf leaf, unresolved]
    rfl
  | clause leaf resolved refused =>
    rw [condition_of_resolve leaf resolved, refused, Except.map_error]

theorem exists_condition_iff : (∃ f, n.condition t = .ok f) ↔ ∀ e, ¬n.Refused t e := by
  simp only [← condition_eq_error_iff]
  cases n.condition t <;> simp

mutual

def unjoined : Node → Node
  | ⟨id, selector, op, operand, _, children⟩ => ⟨id, selector, op, operand, .none, unjoinedAll children⟩

def unjoinedAll : List Node → List Node
  | [] => []
  | n :: ns => n.unjoined :: unjoinedAll ns

end

@[simp] theorem id_unjoined (n : Node) : n.unjoined.id = n.id := by
  cases n
  rfl

@[simp] theorem condition_unjoined (t : EntityType) (n : Node) :
    n.unjoined.condition t = n.condition t := by
  cases n
  rfl

mutual

theorem visit_unjoined (seen : List Uuid) (n : Node) :
    n.unjoined.visit seen = ((n.visit seen).1.map unjoined, (n.visit seen).2) := by
  match n with
  | ⟨id, selector, op, operand, next, children⟩ =>
    simp only [unjoined, visit, visitAll_unjoined seen children, List.map_cons]

theorem visitAll_unjoined (seen : List Uuid) (ns : List Node) :
    visitAll seen (unjoinedAll ns) = ((visitAll seen ns).1.map unjoined, (visitAll seen ns).2) := by
  match ns with
  | [] => rfl
  | n :: ns =>
    simp only [unjoinedAll, visitAll, id_unjoined]
    split
    next => exact visitAll_unjoined seen ns
    next =>
      simp only [visit_unjoined (n.id :: seen) n, visitAll_unjoined _ ns, List.map_append]

end

theorem visited_unjoined (root : Node) : root.unjoined.visited = root.visited.map unjoined := by
  rw [visited, id_unjoined, visit_unjoined, visited]

-- The conditions of a tree, in the order in which they are checked, are those of any tree that differs
-- in its combinators alone.
theorem mapM_condition_unjoined (t : EntityType) (root : Node) :
    root.unjoined.visited.mapM (condition t) = root.visited.mapM (condition t) := by
  rw [visited_unjoined, List.mapM_map]
  exact congrArg (fun f => root.visited.mapM f) (funext (condition_unjoined t))

/-- A tree fails to compile exactly if a visited node is refused, and with the refusal of the first such
node, whatever joins the nodes: trees that differ only in combinators fail alike under either strategy,
and whatever is kept. -/
theorem compile_reports_first {k : PathCache} (reached : k.Reachable t.catalog)
    (options : CompileOptions) (root : Node) :
    (∀ e, (root.compile t options).answer k = .error e ↔
      ∃ before n after, root.visited = before ++ n :: after ∧ (∀ m ∈ before, ∀ e', ¬m.Refused t e') ∧
        n.Refused t e) ∧
    ((∃ e, (root.compile t options).answer k = .error e) ↔ ∃ n ∈ root.visited, ∃ e, n.Refused t e) ∧
    ∀ (other : Node) (options' : CompileOptions) (k' : PathCache), k'.Reachable t.catalog →
      other.unjoined = root.unjoined → ∀ e,
        (other.compile t options').answer k' = .error e ↔
          (root.compile t options).answer k = .error e := by
  have failure (tree : Node) (o : CompileOptions) {k : PathCache} (reached : k.Reachable t.catalog)
      (e : Error) : (tree.compile t o).answer k = .error e ↔
        tree.visited.mapM (condition t) = .error e := by
    rw [(tree.answers_compile t o).answer_eq reached, compiled_eq_error_iff]
  simp only [failure _ _ reached]
  refine ⟨fun e => ?_, ?_, fun other options' k' reached' same e => ?_⟩
  · simp only [mapM_eq_error_iff, exists_condition_iff, condition_eq_error_iff]
  · cases mapped : root.visited.mapM (condition t) with
    | ok fs =>
      have passed : ∀ n ∈ root.visited, ∀ e, ¬n.Refused t e := fun n met =>
        exists_condition_iff.1 (exists_mapM_ok_iff.1 ⟨fs, mapped⟩ n met)
      constructor
      · rintro ⟨e, ⟨⟩⟩
      · rintro ⟨n, met, e, refused⟩
        exact absurd refused (passed n met e)
    | error e =>
      obtain ⟨n, met, failed⟩ := exists_of_mapM_error mapped
      exact ⟨fun _ => ⟨n, met, e, refused_of_condition failed⟩, fun _ => ⟨e, rfl⟩⟩
  · rw [failure other options' reached', ← mapM_condition_unjoined, same, mapM_condition_unjoined]

-- The first failure stands below a child, the second in a leaf of the same id, which is skipped, and
-- the third at the end.
def flawed (next : Combinator) : Node :=
  ⟨⟨0⟩, "", .none, .bool true, .and,
    [⟨⟨1⟩, "name", .equal, .string "Ada", next, [.leaf ⟨2⟩ "home.zip" .isNull .null .or]⟩,
      .leaf ⟨2⟩ "age" .greaterThan .null .and, .leaf ⟨3⟩ "name" .none (.string "Ada") .and]⟩

theorem compile_reports_first_flawed :
    (∃ before n after, (flawed .none).visited = before ++ n :: after ∧
      (∀ m ∈ before, ∀ e', ¬m.Refused .person e') ∧
        n.Refused .person (.unknownMember "home.zip" "zip" "Address")) ∧
    ((flawed .and).compile .person ⟨.childOperator, false⟩).answer .empty =
      .error (.unknownMember "home.zip" "zip" "Address") := by
  have failed : ((flawed .none).compile .person {}).answer .empty =
    .error (.unknownMember "home.zip" "zip" "Address") := rfl
  obtain ⟨first, -, alike⟩ := compile_reports_first (t := .person) .empty {} (flawed .none)
  exact ⟨(first _).1 failed, (alike (flawed .and) _ .empty .empty rfl _).2 failed⟩

end Node

end EntityQuery
