import EntityQuery.Proofs.Coercion
import EntityQuery.Proofs.Splicing

set_option autoImplicit false

namespace EntityQuery

open Plan Resolving

-- Of a node without children only its condition counts, and what joins it to the others.
theorem Plan.mapParts_leaf {α : Type} {join : Node → Combinator} {f : Node → Except Error α}
    {n m : Node} (id : n.id = m.id) (childless : n.children = []) (childless' : m.children = [])
    (joined : join n = join m) (same : f n = f m) (seen : List Uuid) :
    mapParts f (ofChildren join seen [n]).1 = mapParts f (ofChildren join seen [m]).1 := by
  by_cases repeated : m.id ∈ seen
  · simp [ofChildren, id, repeated]
  · simp [ofChildren, ofNode_eq, mapParts, Plan.mapM, id, childless, childless', joined, same,
      repeated]

theorem Node.compiled_push_congr {t : EntityType} {strategy : MergeStrategy} {op : Combinator}
    (root : Node) {n m : Node} (id : n.id = m.id) (childless : n.children = [])
    (childless' : m.children = []) (next : n.next = m.next) (same : n.condition t = m.condition t) :
    (root.push op n).compiled t strategy = (root.push op m).compiled t strategy := by
  have joined : combinator strategy op n = combinator strategy op m := by
    cases strategy <;> simp [combinator, childless, childless', next]
  have own : (root.push op n).condition t = (root.push op m).condition t := rfl
  simp only [compiled_eq, own]
  simp only [push, ofChildren_append, mapParts_append, mapParts_leaf id childless childless' joined same]

namespace Clause

variable {p : Path} {op : Operator} {v w : Operand}

theorem prepare_coerced (coerced : v.coerce p.kind p.nullable = .ok w)
    (asked : (op = .equal ∨ op = .notEqual) ∨ op.isText = true ∨ op.isOrdering = true) :
    prepare p op w = prepare p op v := by
  have again (nullable : Bool) : w.coerce p.kind nullable = .ok w :=
    Operand.coerce_of_fits (Operand.isOf_of_coerce coerced) nullable
  rcases asked with equality | asked
  · rw [prepare_of_equality equality, prepare_of_equality equality, again, coerced]
  · -- The kind for which it matters whether null is allowed has no text operators, and no order.
    have alike : p.kind = .bool ∨ w.coerce p.kind false = v.coerce p.kind false := by
      refine or_iff_not_imp_left.2 fun solid => ?_
      rw [again, ← coerced, Operand.coerce_nullable (.inl solid)]
    rcases asked with text | ordering
    · rw [prepare_of_isText text, prepare_of_isText text]
      rcases alike with kind | alike
      · simp only [kind]
      · rw [alike]
    · rw [prepare_of_isOrdering ordering, prepare_of_isOrdering ordering]
      rcases alike with kind | alike
      · simp only [kind]
      · rw [alike]

theorem prepare_leafOperand (comparing : op ≠ .none) (kept : Criteria.leafOperand p op v = .ok w) :
    prepare p op w = prepare p op v := by
  cases op with
  | contains | notContains | isNull | isNotNull => cases kept; rfl
  | equal => exact prepare_coerced kept (.inl (.inl rfl))
  | notEqual => exact prepare_coerced kept (.inl (.inr rfl))
  | like | notLike | startsWith | notStartsWith | endsWith | notEndsWith =>
    exact prepare_coerced kept (.inr (.inl rfl))
  | greaterThan | greaterThanOrEqual | lessThan | lessThanOrEqual =>
    exact prepare_coerced kept (.inr (.inr rfl))
  | none => contradiction

theorem compile_leafOperand (comparing : op ≠ .none) (kept : Criteria.leafOperand p op v = .ok w) :
    compile p op w = compile p op v := by
  rw [compile_eq, compile_eq, prepare_leafOperand comparing kept]

end Clause

structure LeafCall where
  id : Uuid
  next : Combinator
  selector : String
  op : Operator
  operand : Operand

namespace LeafCall

def appendTo (t : EntityType) (c : Criteria) (x : LeafCall) : Resolving Criteria :=
  c.appendLeaf t x.id x.next x.selector x.op x.operand

def leaf (t : EntityType) (x : LeafCall) : Except Error Node :=
  if (Text.trimmed x.selector).isEmpty then
    .error .emptySelector
  else do
    let p ← Selector.resolve t (Text.trimmed x.selector)
    let v ← Criteria.leafOperand p x.op x.operand
    return .leaf x.id (Text.trimmed x.selector) x.op v x.next

def given (x : LeafCall) : Node :=
  .leaf x.id (Text.trimmed x.selector) x.op x.operand x.next

theorem answers_appendTo (t : EntityType) (c : Criteria) (x : LeafCall) :
    Answers t.catalog (appendTo t c x) (c.push x.next <$> x.leaf t) := by
  simp only [appendTo, Criteria.appendLeaf, leaf]
  split
  next => exact fun _ reached => ⟨rfl, reached⟩
  next =>
    simp only [map_bind, map_pure]
    refine (answers_resolve t true _).bind fun p => (answers_lift _).bind fun v => ?_
    exact answers_pure _

theorem leaf_inv {t : EntityType} {x : LeafCall} {n : Node} (made : x.leaf t = .ok n) :
    ∃ p v, Text.trimmed x.selector ≠ "" ∧ Selector.resolve t (Text.trimmed x.selector) = .ok p ∧
      Criteria.leafOperand p x.op x.operand = .ok v ∧
      n = .leaf x.id (Text.trimmed x.selector) x.op v x.next := by
  unfold leaf at made
  split at made
  next => cases made
  next shown =>
    obtain ⟨p, resolved, rest⟩ := ok_of_bind made
    obtain ⟨v, coerced, rest⟩ := ok_of_bind rest
    cases rest
    exact ⟨p, v, by simpa using shown, resolved, coerced, rfl⟩

end LeafCall

theorem LeafCall.condition_given {t : EntityType} {x : LeafCall} {n : Node} (comparing : x.op ≠ .none)
    (made : x.leaf t = .ok n) : n.condition t = x.given.condition t := by
  obtain ⟨p, v, -, resolved, kept, rfl⟩ := leaf_inv made
  have leaf : (x.op == .none) = false := beq_eq_false_iff_ne.2 comparing
  have early := Node.condition_of_resolve
    (n := .leaf x.id (Text.trimmed x.selector) x.op v x.next) leaf resolved
  have late := Node.condition_of_resolve (n := x.given) leaf resolved
  rw [early, late]
  exact congrArg _ (Clause.compile_leafOperand comparing kept)

namespace Criteria

/-- Criteria that a leaf was appended to compile to the same filter as with the operand as it was given,
or are refused in the same words, whatever was resolved before. -/
theorem compile_appendLeaf {t : EntityType} {k : PathCache} (reached : k.Reachable t.catalog)
    {c d : Criteria} {x : LeafCall} (comparing : x.op ≠ .none)
    (appended : (x.appendTo t c).answer k = .ok d) (options : CompileOptions) {k' k'' : PathCache}
    (reached' : k'.Reachable t.catalog) (reached'' : k''.Reachable t.catalog) :
    (d.compile t options).answer k' =
      ((c.push x.next x.given).compile t options).answer k'' := by
  rw [(x.answers_appendTo t c).answer_eq reached] at appended
  obtain ⟨n, made, rfl⟩ := ok_of_map appended
  have same := LeafCall.condition_given comparing made
  obtain ⟨p, v, -, -, -, rfl⟩ := LeafCall.leaf_inv made
  rw [compile, compile, (Node.answers_compile t options _).answer_eq reached',
    (Node.answers_compile t options _).answer_eq reached'']
  exact Node.compiled_push_congr c.tree rfl rfl rfl rfl same

def nested : Criteria := .ofTree .person ⟨10⟩ (.sample ⟨3⟩)

def grouped : LeafCall := ⟨⟨4⟩, .or, " age ", .startsWith, .string "1,2"⟩

theorem compile_appendLeaf_grouped : ∃ d f, (grouped.appendTo .person nested).answer .empty = .ok d ∧
    (d.compile .person ⟨.childOperator, false⟩).answer .empty = .ok f ∧
    ((nested.push .or grouped.given).compile .person ⟨.childOperator, false⟩).answer .empty = .ok f := by
  obtain ⟨d, appended⟩ : ∃ d, (grouped.appendTo .person nested).answer .empty = .ok d := ⟨_, rfl⟩
  obtain ⟨f, compiled⟩ :
      ∃ f, (d.compile .person ⟨.childOperator, false⟩).answer .empty = .ok f := by
    cases appended
    exact ⟨_, rfl⟩
  have late := compile_appendLeaf .empty (by decide) appended ⟨.childOperator, false⟩ .empty .empty
  exact ⟨d, f, appended, compiled, late.symm.trans compiled⟩

end Criteria

end EntityQuery
