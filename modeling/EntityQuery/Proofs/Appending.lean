import EntityQuery.Proofs.EarlyCoercion

/-!
Appending leaves. The condition of a leaf is joined to what the criteria decided before, by the
combinator of the call, unless the root joins a subtree otherwise once it has that combinator. So
leaves that are appended to a constant mean the left fold of their conditions.
-/

set_option autoImplicit false

namespace EntityQuery

open Plan Resolving

namespace LeafCall

def appendAll (t : EntityType) (c : Criteria) (calls : List LeafCall) : Resolving Criteria :=
  calls.foldlM (appendTo t) c

-- What the own condition of a leaf decides, on the operand as it is given. Without an operator it is the
-- constant that the operand stands for in the kind of the member.
def meets (t : EntityType) (e : Entity) (x : LeafCall) : Except Error Bool := do
  let p ← Selector.resolve t (Text.trimmed x.selector)
  if x.op = .none then
    let v ← x.operand.coerce p.kind p.nullable
    ({ x.given with operand := v } : Node).sentinelValue
  else
    let c ← Clause.compile p x.op x.operand
    return c.acceptsEntity e

def decideAll (t : EntityType) (e : Entity) (calls : List LeafCall) (before : Bool) :
    Except Error Bool :=
  calls.foldlM (fun b x => return x.next.value b (← x.meets t e)) before

theorem decideAll_cons (t : EntityType) (e : Entity) (x : LeafCall) (calls : List LeafCall)
    (before : Bool) : decideAll t e (x :: calls) before =
      x.meets t e >>= fun b => decideAll t e calls (x.next.value before b) := by
  simp [decideAll]

theorem meets_of_leaf {t : EntityType} {x : LeafCall} {n : Node} (made : x.leaf t = .ok n)
    (e : Entity) : x.meets t e = Filter.accepts e <$> n.condition t := by
  rw [← n.meets_eq_condition]
  obtain ⟨p, v, -, resolved, kept, rfl⟩ := x.leaf_inv made
  rw [meets, resolved]
  by_cases constant : x.op = .none
  · have coerced : x.operand.coerce p.kind p.nullable = .ok v := by
      rw [constant] at kept
      exact kept
    have sentinel : (Node.leaf x.id (Text.trimmed x.selector) x.op v x.next).isSentinel = true :=
      beq_iff_eq.2 constant
    rw [Node.meets, if_pos sentinel]
    refine (if_pos constant).trans ?_
    rw [coerced]
    rfl
  · have leaf : ¬(Node.leaf x.id (Text.trimmed x.selector) x.op v x.next).isSentinel = true :=
      fun sentinel => constant (beq_iff_eq.1 sentinel)
    rw [Node.meets, if_neg leaf]
    refine (if_neg constant).trans ?_
    rw [← Clause.compile_leafOperand constant kept]
    simp only [Node.leaf, resolved]
    rfl

theorem answers_appendAll (t : EntityType) (c : Criteria) (calls : List LeafCall) :
    Answers t.catalog (appendAll t c calls)
      (calls.foldlM (fun c x => c.push x.next <$> x.leaf t) c) := by
  induction calls generalizing c with
  | nil => exact answers_pure c
  | cons x calls ih =>
    rw [appendAll, List.foldlM_cons, List.foldlM_cons]
    exact (answers_appendTo t c x).bind ih

end LeafCall

namespace Node

def MayTake (strategy : MergeStrategy) (op : Combinator) (root : Node) : Prop :=
  strategy = .childOperator ∨ (∀ n ∈ root.children, n.children = []) ∨ root.next = op

theorem MayTake.ofChildren_eq {strategy : MergeStrategy} {op : Combinator} {root : Node}
    (harmless : root.MayTake strategy op) (seen : List Uuid) :
    ofChildren (combinator strategy op) seen root.children =
      ofChildren (combinator strategy root.next) seen root.children := by
  rcases harmless with rfl | leaves | rfl
  · rfl
  · exact ofChildren_leaves strategy op root.next leaves seen
  · rfl

variable {t : EntityType} {strategy : MergeStrategy} {op : Combinator} {root n : Node}

theorem compiled_of_childless (childless : n.children = []) :
    n.compiled t strategy = n.condition t := by
  simp [compiled_eq, childless, ofChildren, mapParts, joinParts]

theorem compiled_push_leaf (childless : n.children = []) (joined : n.next = op)
    (fresh : n.id ∉ root.ids) (harmless : root.MayTake strategy op) :
    (root.push op n).compiled t strategy = do
      let before ← root.compiled t strategy
      let part ← n.condition t
      return join op before part := by
  have apart : ∀ i ∈ root.ids, i ∉ n.ids := by
    intro i member same
    simp only [ids_eq n, childless, idsOf, List.mem_singleton] at same
    exact fresh (same ▸ member)
  have own : combinator strategy op n = op := by
    cases strategy <;> simp [combinator, childless, joined]
  have inside (seen : List Uuid) : ofChildren (combinator strategy op) seen n.children =
      ofChildren (combinator strategy n.next) seen n.children := by rw [joined]
  rw [compiled_push t strategy op root n apart harmless.ofChildren_eq inside,
    compiled_of_childless childless, own]

end Node

namespace Criteria

variable {t : EntityType} {strategy : MergeStrategy} {c d : Criteria}

theorem compiled_push_call {x : LeafCall} {n : Node} (made : x.leaf t = .ok n)
    (fresh : x.id ∉ c.tree.ids) (harmless : c.tree.MayTake strategy x.next) :
    (c.push x.next n).tree.compiled t strategy = do
      let before ← c.tree.compiled t strategy
      let part ← n.condition t
      return join x.next before part := by
  obtain ⟨p, v, -, -, -, rfl⟩ := x.leaf_inv made
  rw [tree_push]
  exact Node.compiled_push_leaf rfl rfl fresh harmless

-- As long as a root has leaves only, its own combinator does not matter.
theorem accepts_foldlM (strategy : MergeStrategy) {calls : List LeafCall}
    (leaves : ∀ n ∈ c.tree.children, n.children = []) (distinct : (calls.map LeafCall.id).Nodup)
    (fresh : ∀ x ∈ calls, x.id ∉ c.tree.ids)
    (appended : calls.foldlM (fun c x => c.push x.next <$> x.leaf t) c = .ok d) (e : Entity) :
    Filter.accepts e <$> d.tree.compiled t strategy =
      (Filter.accepts e <$> c.tree.compiled t strategy) >>= LeafCall.decideAll t e calls := by
  induction calls generalizing c with
  | nil =>
    cases appended
    exact (bind_pure _).symm
  | cons x calls ih =>
    rw [List.foldlM_cons] at appended
    obtain ⟨first, called, rest⟩ := ok_of_bind appended
    obtain ⟨n, made, rfl⟩ := ok_of_map called
    obtain ⟨p, v, -, -, -, leaf⟩ := x.leaf_inv made
    have id : n.id = x.id := congrArg Node.id leaf
    have childless : n.children = [] := congrArg Node.children leaf
    obtain ⟨unmet, distinct⟩ := List.nodup_cons.1 distinct
    have leaves' : ∀ m ∈ (c.push x.next n).tree.children, m.children = [] := by
      intro m member
      rcases List.mem_append.1 member with old | new
      · exact leaves m old
      · rwa [List.mem_singleton.1 new]
    have fresh' : ∀ y ∈ calls, y.id ∉ (c.push x.next n).tree.ids := by
      intro y later inside
      rcases Node.mem_ids_push.1 inside with old | new
      · exact fresh y (.tail _ later) old
      · have same : y.id = x.id := by
          simpa [Node.ids_eq n, childless, Node.idsOf, id] using new
        exact unmet (List.mem_map.2 ⟨y, later, same⟩)
    rw [ih leaves' distinct fresh' rest,
      compiled_push_call made (fresh x (.head _)) (.inr (.inl leaves))]
    simp only [map_bind, bind_map_left, map_pure, bind_assoc, pure_bind, accepts_join,
      LeafCall.decideAll_cons, LeafCall.meets_of_leaf made]

/-- Appending a leaf narrows or widens as the call says, unless the combinator that the root takes
joins a subtree otherwise. Leaves appended to a constant mean the left fold of their conditions. -/
theorem accepts_appendLeaf {k : PathCache} (reached : k.Reachable t.catalog) :
    (∀ x : LeafCall, (x.appendTo t c).answer k = .ok d → x.id ∉ c.tree.ids →
      ∀ options, c.tree.MayTake options.mergeStrategy x.next → ∀ k' f, k'.Reachable t.catalog →
        (d.compile t options).answer k' = .ok f → ∃ g, (c.compile t options).answer k' = .ok g ∧
          ∀ e, ∃ b, x.meets t e = .ok b ∧ f.accepts e = x.next.value (g.accepts e) b) ∧
    ∀ id nodeId accept calls,
      (LeafCall.appendAll t (.ofTree t id (.sentinel nodeId accept)) calls).answer k = .ok d →
      (nodeId :: calls.map LeafCall.id).Nodup → ∀ options k' f, k'.Reachable t.catalog →
        (d.compile t options).answer k' = .ok f → ∀ e,
          LeafCall.decideAll t e calls accept = .ok (f.accepts e) := by
  have compile_eq (c : Criteria) (options : CompileOptions) {k' : PathCache}
      (reached' : k'.Reachable t.catalog) :=
    (c.tree.answers_compile t options).answer_eq reached'
  constructor
  · intro x appended fresh options harmless k' f reached' compiled
    rw [(x.answers_appendTo t c).answer_eq reached] at appended
    obtain ⟨n, made, rfl⟩ := ok_of_map appended
    rw [compile, compile_eq _ options reached', compiled_push_call made fresh harmless] at compiled
    obtain ⟨g, before, rest⟩ := ok_of_bind compiled
    obtain ⟨own, condition, rest⟩ := ok_of_bind rest
    cases rest
    refine ⟨g, (compile_eq c options reached').trans before, fun e => ⟨own.accepts e, ?_, ?_⟩⟩
    · rw [LeafCall.meets_of_leaf made, condition]
      rfl
    · exact accepts_join _ _ _ e
  · intro id nodeId accept calls appended distinct options k' f reached' compiled e
    rw [(LeafCall.answers_appendAll t _ calls).answer_eq reached] at appended
    rw [compile, compile_eq d options reached'] at compiled
    obtain ⟨unmet, distinct⟩ := List.nodup_cons.1 distinct
    have fresh : ∀ x ∈ calls, x.id ∉ (Node.sentinel nodeId accept).ids := by
      intro x member same
      simp only [Node.sentinel, Node.ids, Node.idsOf, List.mem_singleton] at same
      exact unmet (List.mem_map.2 ⟨x, member, same⟩)
    have leaves : ∀ n ∈ (Node.sentinel nodeId accept).children, n.children = [] :=
      List.forall_mem_nil _
    have decides :=
      accepts_foldlM options.mergeStrategy leaves distinct fresh appended e
    rw [compiled] at decides
    exact decides.symm

def grown : LeafCall := ⟨⟨4⟩, .and, " age ", .greaterThan, .number (.uint 30)⟩

def underAda : LeafCall := ⟨⟨5⟩, .or, "boss.name", .equal, .string "Ada"⟩

theorem accepts_appendLeaf_grown :
    let options : CompileOptions := ⟨.childOperator, true⟩
    ∃ c f g d h, (grown.appendTo .person nested).answer .empty = .ok c ∧
      (c.compile .person options).answer .empty = .ok f ∧
      (nested.compile .person options).answer .empty = .ok g ∧
      (∀ e, ∃ b, grown.meets .person e = .ok b ∧ f.accepts e = (g.accepts e && b)) ∧
      (LeafCall.appendAll .person (never .person ⟨11⟩ ⟨6⟩) [underAda, grown]).answer .empty = .ok d ∧
      (d.compile .person {}).answer .empty = .ok h ∧
      ∀ e, LeafCall.decideAll .person e [underAda, grown] false = .ok (h.accepts e) := by
  intro options
  obtain ⟨c, appended⟩ : ∃ c, (grown.appendTo .person nested).answer .empty = .ok c := ⟨_, rfl⟩
  obtain ⟨d, chained⟩ : ∃ d, (LeafCall.appendAll .person (never .person ⟨11⟩ ⟨6⟩)
    [underAda, grown]).answer .empty = .ok d := ⟨_, rfl⟩
  obtain ⟨f, compiled⟩ : ∃ f, (c.compile .person options).answer .empty = .ok f := by
    cases appended
    exact ⟨_, rfl⟩
  obtain ⟨h, compiled'⟩ : ∃ h, (d.compile .person {}).answer .empty = .ok h := by
    cases chained
    exact ⟨_, rfl⟩
  obtain ⟨g, before, decides⟩ := (accepts_appendLeaf .empty).1 grown appended (by decide) options
    (.inl rfl) .empty f .empty compiled
  have folds := (accepts_appendLeaf (c := nested) .empty).2 ⟨11⟩ ⟨6⟩ false [underAda, grown] chained
    (by decide) {} .empty h .empty compiled'
  exact ⟨c, f, g, d, h, appended, compiled, before, decides, chained, compiled', folds⟩

end Criteria

end EntityQuery
