import EntityQuery.Criteria
import EntityQuery.Proofs.Meaning

set_option autoImplicit false

namespace EntityQuery

open Plan Resolving

theorem Node.compiled_eq (t : EntityType) (strategy : MergeStrategy) (root : Node) :
    root.compiled t strategy = do
      let own ← root.condition t
      let parts ← mapParts (condition t)
        (ofChildren (combinator strategy root.next) [root.id] root.children).1
      return joinParts own parts := by
  simp [compiled, ofTree, ofNode_eq, Plan.mapM, Plan.filter]

def Node.push (a : Node) (op : Combinator) (b : Node) : Node :=
  { a with next := op, children := a.children ++ [b] }

theorem Criteria.tree_push (c : Criteria) (op : Combinator) (b : Node) :
    (c.push op b).tree = c.tree.push op b :=
  rfl

theorem Node.mem_ids_push {a b : Node} {op : Combinator} {i : Uuid} :
    i ∈ (a.push op b).ids ↔ i ∈ a.ids ∨ i ∈ b.ids := by
  simp [push, ids_eq a, ids, idsOf_append, idsOf, or_assoc]

theorem Plan.ofChildren_push (strategy : MergeStrategy) (op : Combinator) (a b : Node)
    (apart : ∀ i ∈ a.ids, i ∉ b.ids) :
    (ofChildren (combinator strategy op) [a.id] (a.children ++ [b])).1 =
      (ofChildren (combinator strategy op) [a.id] a.children).1 ++ [(combinator strategy op b,
        node b (ofChildren (combinator strategy op) [b.id] b.children).1)] := by
  let join := combinator strategy op
  have outside (i : Uuid) (inside : i ∈ b.ids) : i ∉ (ofChildren join [a.id] a.children).2 := by
    intro met
    refine apart i ?_ inside
    rcases mem_ofChildren met with first | below
    · exact List.mem_singleton.1 first ▸ a.id_mem_ids
    · simp [Node.ids_eq, below]
  have alone := ofChildren_seen join (b.id :: (ofChildren join [a.id] a.children).2) [b.id]
    b.children fun i below => by simp [outside i (by simp [Node.ids_eq, below])]
  simp only [ofChildren_append, ofChildren, outside _ b.id_mem_ids, if_false, ofNode_eq, alone.1,
    join]

-- Where the combinators inside both trees stay what they were, each keeps its filter.
theorem Node.compiled_push (t : EntityType) (strategy : MergeStrategy) (op : Combinator)
    (a b : Node) (apart : ∀ i ∈ a.ids, i ∉ b.ids)
    (insideA : ∀ seen, ofChildren (combinator strategy op) seen a.children =
      ofChildren (combinator strategy a.next) seen a.children)
    (insideB : ∀ seen, ofChildren (combinator strategy op) seen b.children =
      ofChildren (combinator strategy b.next) seen b.children) :
    (a.push op b).compiled t strategy = do
      let before ← a.compiled t strategy
      let part ← b.compiled t strategy
      return join (combinator strategy op b) before part := by
  have same : (a.push op b).condition t = a.condition t := rfl
  rw [compiled_eq, same]
  simp only [push, ofChildren_push strategy op a b apart, insideA, insideB, mapParts_append,
    mapParts, Plan.mapM, compiled_eq, bind_assoc, pure_bind, joinParts_append, joinParts,
    Plan.filter]

theorem Plan.ofChildren_leaves (strategy : MergeStrategy) (op op' : Combinator) {ns : List Node}
    (leaves : ∀ n ∈ ns, n.children = []) (seen : List Uuid) :
    ofChildren (combinator strategy op) seen ns = ofChildren (combinator strategy op') seen ns := by
  refine ofChildren_of_leaves leaves (fun n member => ?_) seen
  cases strategy <;> simp [combinator, leaves n member]

namespace Criteria

/-- Criteria whose conditions are all leaves, spliced under the default options: the result always
compiles. If those appended have no conditions, they are joined with the combinator of their root,
so the decision is the one asked for exactly if that combinator gives the same. -/
theorem accepts_appendCriteria {t : EntityType} {k : PathCache} (reached : k.Reachable t.catalog)
    {a b : Criteria} {fa fb : Filter} (compiledA : (a.compile t {}).answer k = .ok fa)
    (compiledB : (b.compile t {}).answer k = .ok fb)
    (sameType : b.entityTypeName = a.entityTypeName)
    (leavesA : ∀ n ∈ a.tree.children, n.children = [])
    (leavesB : ∀ n ∈ b.tree.children, n.children = [])
    (apart : ∀ i ∈ a.tree.ids, i ∉ b.tree.ids) (op : Combinator) :
    ∃ c f, a.appendCriteria b op = .ok c ∧
      (∀ k', k'.Reachable t.catalog → (c.compile t {}).answer k' = .ok f) ∧ ∀ e,
        (b.tree.children = [] → f.accepts e = b.tree.next.value (fa.accepts e) (fb.accepts e)) ∧
        (f.accepts e = op.value (fa.accepts e) (fb.accepts e) ↔ b.tree.children ≠ [] ∨
          b.tree.next.value (fa.accepts e) (fb.accepts e) =
            op.value (fa.accepts e) (fb.accepts e)) := by
  rw [Criteria.compile, (a.tree.answers_compile t {}).answer_eq reached] at compiledA
  rw [Criteria.compile, (b.tree.answers_compile t {}).answer_eq reached] at compiledB
  let joined := Plan.combinator .rootForSubtrees op b.tree
  have spliced : (a.tree.push op b.tree).compiled t .rootForSubtrees = .ok (join joined fa fb) := by
    rw [Node.compiled_push t _ op a.tree b.tree apart (ofChildren_leaves _ _ _ leavesA)
      (ofChildren_leaves _ _ _ leavesB), compiledA, compiledB]
    rfl
  refine ⟨a.push op b.tree, join joined fa fb, by simp [appendCriteria, sameType],
    fun k' reached' => ?_, fun e => ?_⟩
  · exact ((a.tree.push op b.tree).answers_compile t {}).answer_eq reached' |>.trans spliced
  · by_cases childless : b.tree.children = []
    · have own : joined = b.tree.next := by simp [joined, Plan.combinator, childless]
      simp [own, childless]
    · have asked : joined = op := by simp [joined, Plan.combinator, childless]
      simp [asked, childless]

theorem accepts_appendCriteria_leaves :
    let ages : Criteria := .ofTree .person ⟨10⟩ ⟨⟨0⟩, "", .none, .bool true, .or,
      [.leaf ⟨1⟩ "age" .greaterThan (.number (.uint 30)) .and, .leaf ⟨2⟩ "name" .equal (.string "Ada") .or]⟩
    let names : Criteria := .ofTree .person ⟨11⟩ ⟨⟨3⟩, "", .none, .bool false, .or,
      [.leaf ⟨4⟩ "boss.name" .startsWith (.string "G") .or]⟩
    ∃ c f fa fb, ages.appendCriteria names .and = .ok c ∧ (c.compile .person {}).answer .empty = .ok f ∧
      (ages.compile .person {}).answer .empty = .ok fa ∧
      (names.compile .person {}).answer .empty = .ok fb ∧
      ∀ e, f.accepts e = (fa.accepts e && fb.accepts e) := by
  intro ages names
  obtain ⟨fa, compiledA⟩ : ∃ fa, (ages.compile .person {}).answer .empty = .ok fa := ⟨_, rfl⟩
  obtain ⟨fb, compiledB⟩ : ∃ fb, (names.compile .person {}).answer .empty = .ok fb := ⟨_, rfl⟩
  obtain ⟨c, f, spliced, compiled, decides⟩ := accepts_appendCriteria .empty compiledA compiledB
    rfl (by decide) (by decide) (by decide) .and
  refine ⟨c, f, fa, fb, spliced, compiled _ .empty, compiledA, compiledB, fun e => ?_⟩
  exact (decides e).2.2 (.inl (by decide))

-- Appending criteria that accept nothing narrows nothing: they are joined as their root says.
theorem appendCriteria_never : ∃ c f fa fb,
    (always .person ⟨0⟩ ⟨1⟩).appendCriteria (never .person ⟨2⟩ ⟨3⟩) .and = .ok c ∧
    (c.compile .person {}).answer .empty = .ok f ∧
    ((always .person ⟨0⟩ ⟨1⟩).compile .person {}).answer .empty = .ok fa ∧
    ((never .person ⟨2⟩ ⟨3⟩).compile .person {}).answer .empty = .ok fb ∧
    ∀ e, fa.accepts e = true ∧ fb.accepts e = false ∧ f.accepts e = true :=
  ⟨_, _, _, _, rfl, rfl, rfl, rfl, fun _ => ⟨rfl, rfl, rfl⟩⟩

end Criteria

end EntityQuery
