import EntityQuery.Proofs.Appending
import EntityQuery.Proofs.Building
import EntityQuery.Proofs.Coercion
import EntityQuery.Proofs.Walk

/-!
Why built criteria fail to compile. Appending a leaf resolves its selector and coerces its operand,
and neither of both fails when it is done again. What is left are the operators that do not fit the
kind of the field, and the operands that are not coerced before.
-/

set_option autoImplicit false

namespace EntityQuery

open Resolving

def Operator.total : List Operator :=
  [.equal, .notEqual, .isNull, .isNotNull]

inductive Criteria.Made (t : EntityType) (allowed : Operator → Prop) : Criteria → Prop where
  | always (id nodeId : Uuid) : Made t allowed (always t id nodeId)
  | never (id nodeId : Uuid) : Made t allowed (never t id nodeId)
  | leaf {c d : Criteria} {x : LeafCall} {k : PathCache} (before : Made t allowed c)
      (may : allowed x.op) (reached : k.Reachable t.catalog)
      (appended : (x.appendTo t c).answer k = .ok d) : Made t allowed d
  | splice {c other d : Criteria} {next : Combinator} (before : Made t allowed c)
      (inner : Made t allowed other) (spliced : c.appendCriteria other next = .ok d) :
      Made t allowed d

namespace Node

variable {t : EntityType} {allowed : Operator → Prop} {n m : Node}

inductive Appended (t : EntityType) (allowed : Operator → Prop) (n : Node) : Prop where
  | constant (b : Bool) (same : n.content = ("", .none, .bool b))
  | leaf {x : LeafCall} {m : Node} (may : allowed x.op) (made : x.leaf t = .ok m)
      (same : n.content = m.content)

theorem Appended.of_content (said : m.Appended t allowed) (same : n.content = m.content) :
    n.Appended t allowed := by
  cases said with
  | constant b content => exact .constant b (same.trans content)
  | leaf may made content => exact .leaf may made (same.trans content)

theorem appended_push {a b : Node} {op : Combinator} (inside : ∀ n ∈ a.nodes, n.Appended t allowed)
    (added : ∀ n ∈ b.nodes, n.Appended t allowed) :
    ∀ n ∈ (a.push op b).nodes, n.Appended t allowed := by
  intro n member
  have member : n ∈ (a.push op b).nodes ++ [] := by simpa using member
  rcases mem_of_push_nodes member with rfl | known
  · exact (inside a a.mem_nodes_self).of_content rfl
  · simp only [List.append_nil, List.mem_append] at known
    exact known.elim (inside n) (added n)

end Node

theorem Criteria.Made.appended {t : EntityType} {allowed : Operator → Prop} {c : Criteria}
    (made : c.Made t allowed) : ∀ n ∈ c.tree.nodes, n.Appended t allowed := by
  induction made with
  | always id nodeId => exact List.forall_mem_singleton.2 (.constant true rfl)
  | never id nodeId => exact List.forall_mem_singleton.2 (.constant false rfl)
  | @leaf c d x k before may reached appended ih =>
    rw [(LeafCall.answers_appendTo t c x).answer_eq reached] at appended
    obtain ⟨m, made, rfl⟩ := ok_of_map appended
    obtain ⟨p, v, -, -, -, rfl⟩ := LeafCall.leaf_inv made
    exact Node.appended_push ih (List.forall_mem_singleton.2 (.leaf may made rfl))
  | splice before inner spliced ih ihInner =>
    unfold appendCriteria at spliced
    split at spliced <;> cases spliced
    exact Node.appended_push ih ihInner

namespace Clause

variable {p : Path} {op : Operator} {v : Operand} {e : Error}

inductive Refusal (p : Path) (op : Operator) (v : Operand) : Error → Prop where
  | unsupported (asked : op.isMembership ∨ op.isText ∨ op.isOrdering) :
      Refusal p op v (.unsupportedOperator op p.kind.name p.selector)
  | notList (asked : op.isMembership) : Refusal p op v (.expectedCollection op p.selector v.text)
  | item {items : List Operand} {item : Operand} (asked : op.isMembership)
      (operand : v = .list items) (member : item ∈ items) :
      Refusal p op v (.coercion item.text p.kind.name)
  | null (asked : op.isText ∨ op.isOrdering) (operand : v = .null) :
      Refusal p op v (.coercion v.text p.kind.name)

theorem prepare_nullTest (asked : op.isNullTest) (p : Path) (v : Operand) :
    prepare p op v = .ok (.null, .null op.isNegated) := by
  cases op <;> first | rfl | cases asked

theorem prepare_equality (asked : op = .equal ∨ op = .notEqual)
    (fits : v.isNull = true ∨ v.isOf p.kind = true) : ∃ x, prepare p op v = .ok x := by
  rw [prepare_of_equality asked, Operand.coerce_of_fits fits]
  by_cases null : v.isNull = true
  next => exact ⟨_, if_pos null⟩
  next =>
    have isOf := fits.resolve_left null
    cases kind : p.kind with
    | entity r =>
      rw [kind] at isOf
      cases v <;> cases isOf
    | _ => exact ⟨_, (if_neg null).trans rfl⟩

theorem prepare_membership (asked : op.isMembership) (failed : prepare p op v = .error e) :
    Refusal p op v e := by
  rw [prepare_of_isMembership asked] at failed
  split at failed
  next scalar =>
    cases v with
    | list items =>
      obtain ⟨v, member, refused⟩ :=
        Operand.exists_of_coerceAll_error (map_eq_error_iff.1 failed)
      rw [Operand.eq_of_coerce_error scalar refused]
      exact .item asked rfl member
    | _ =>
      cases failed
      exact .notList asked
  next =>
    cases failed
    exact .unsupported (.inl asked)

-- Coercing the operand once more changes nothing, so that it is refused only if it is null.
theorem refusal_of_null (asked : op.isText ∨ op.isOrdering)
    (fits : v.isNull = true ∨ v.isOf p.kind = true) {f : Operand → Operand × Test}
    (failed : (do return f (← nonNull (← v.coerce p.kind false) p.kind)) = Except.error e) :
    Refusal p op v e := by
  rw [Operand.coerce_of_fits fits] at failed
  have refused : nonNull v p.kind = .error e := map_eq_error_iff.1 failed
  cases v with
  | null =>
    cases refused
    exact .null asked rfl
  | _ => cases refused

theorem prepare_text (asked : op.isText) (fits : v.isNull = true ∨ v.isOf p.kind = true)
    (failed : prepare p op v = .error e) : Refusal p op v e := by
  rw [prepare_of_isText asked] at failed
  split at failed
  next => exact refusal_of_null (.inl asked) fits failed
  next => exact refusal_of_null (.inl asked) fits failed
  next =>
    cases failed
    exact .unsupported (.inr (.inl asked))

theorem prepare_ordering (asked : op.isOrdering) (fits : v.isNull = true ∨ v.isOf p.kind = true)
    (failed : prepare p op v = .error e) : Refusal p op v e := by
  rw [prepare_of_isOrdering asked] at failed
  split at failed
  next => exact refusal_of_null (.inr asked) fits failed
  next => exact refusal_of_null (.inr asked) fits failed
  next => exact refusal_of_null (.inr asked) fits failed
  next =>
    cases failed
    exact .unsupported (.inr (.inr asked))

theorem prepare_kept {raw : Operand} (kept : Criteria.leafOperand p op raw = .ok v)
    (compares : op ≠ .none) (failed : prepare p op v = .error e) : Refusal p op v e := by
  have fits (coerced : op.isMembership = false) (asks : op.isNullTest = false) :
      v.isNull = true ∨ v.isOf p.kind = true := by
    rw [Criteria.leafOperand, coerced, asks] at kept
    exact Operand.isOf_of_coerce kept
  match op with
  | .isNull | .isNotNull =>
    rw [prepare_nullTest rfl] at failed
    cases failed
  | .equal =>
    obtain ⟨x, prepared⟩ := prepare_equality (.inl rfl) (fits rfl rfl)
    rw [prepared] at failed
    cases failed
  | .notEqual =>
    obtain ⟨x, prepared⟩ := prepare_equality (.inr rfl) (fits rfl rfl)
    rw [prepared] at failed
    cases failed
  | .contains | .notContains => exact prepare_membership rfl failed
  | .like | .notLike | .startsWith | .notStartsWith | .endsWith | .notEndsWith =>
    exact prepare_text rfl (fits rfl rfl) failed
  | .greaterThan | .greaterThanOrEqual | .lessThan | .lessThanOrEqual =>
    exact prepare_ordering rfl (fits rfl rfl) failed
  | .none => exact absurd rfl compares

end Clause

def Error.ofSelector : Error → Bool
  | .emptySelector | .malformedSelector _ | .unknownMember .. => true
  | _ => false

namespace Node

-- How a node of built criteria fails: its clause is refused, or it is a leaf without operator,
-- which is read as a constant and has no truth value.
inductive Failure (t : EntityType) (n : Node) : Error → Prop where
  | clause {p : Path} {e : Error} (resolved : Selector.resolve t n.selector = .ok p)
      (refused : Clause.Refusal p n.op n.operand e) : Failure t n e
  | sentinel (leaf : n.selector ≠ "") (op : n.op = .none) :
      Failure t n (.invalidSentinel n.operand.text)

variable {t : EntityType} {allowed : Operator → Prop} {n m : Node} {e : Error}

theorem eq_of_sentinelValue_error (failed : n.sentinelValue = .error e) :
    e = .invalidSentinel n.operand.text := by
  unfold sentinelValue at failed
  cases operand : n.operand with
  | bool b =>
    rw [operand] at failed
    cases failed
  | number x =>
    rw [operand] at failed
    simp only at failed
    split at failed
    next => cases failed
    next => split at failed <;> cases failed; rfl
  | _ =>
    rw [operand] at failed
    cases failed
    rfl

theorem Appended.failure (said : n.Appended t allowed) (failed : n.condition t = .error e) :
    allowed n.op ∧ n.Failure t e := by
  cases said with
  | constant b same =>
    obtain ⟨id, selector, op, operand, next, children⟩ := n
    cases same
    cases failed
  | @leaf x m may made same =>
    obtain ⟨p, v, shown, resolved, kept, rfl⟩ := LeafCall.leaf_inv made
    obtain ⟨selector, op, operand⟩ :
        n.selector = Text.trimmed x.selector ∧ n.op = x.op ∧ n.operand = v := by
      simpa only [content, Node.leaf, Prod.mk.injEq] using same
    rw [← selector] at shown resolved
    rw [← op, ← operand] at kept
    refine ⟨op ▸ may, ?_⟩
    cases constant : n.isSentinel with
    | true =>
      rw [condition_of_sentinel constant] at failed
      rw [eq_of_sentinelValue_error (map_eq_error_iff.1 failed)]
      exact .sentinel shown (eq_of_beq constant)
    | false =>
      rw [condition_of_resolve constant resolved, Clause.compile_eq, map_eq_error_iff,
        map_eq_error_iff] at failed
      exact .clause resolved (Clause.prepare_kept kept (beq_eq_false_iff_ne.1 constant) failed)

theorem Failure.not_total (failure : n.Failure t e) : n.op ∉ Operator.total := by
  intro total
  have never : n.op.isMembership = false ∧ n.op.isText = false ∧ n.op.isOrdering = false ∧
      n.op ≠ .none := by
    simp only [Operator.total, List.mem_cons, List.not_mem_nil, or_false] at total
    rcases total with op | op | op | op <;> rw [op] <;> decide
  obtain ⟨membership, text, ordering, comparing⟩ := never
  cases failure with
  | clause resolved refused => cases refused <;> simp_all
  | sentinel leaf op => exact comparing op

theorem Failure.ofSelector_eq (failure : n.Failure t e) : e.ofSelector = false := by
  cases failure with
  | clause resolved refused => cases refused <;> rfl
  | sentinel leaf op => rfl

end Node

/-- Criteria that calls make never fail for their selectors. What fails is a node that compilation
visits, and its operator asks for membership, text or order, or is missing; so criteria whose
operators just compare, or test for null, always compile. -/
theorem Criteria.compile_of_made {t : EntityType} {allowed : Operator → Prop} {c : Criteria}
    (made : c.Made t allowed) {k : PathCache} (reached : k.Reachable t.catalog)
    (options : CompileOptions) :
    (∀ e, (c.compile t options).answer k = .error e → e.ofSelector = false ∧
      ∃ n ∈ c.tree.visited, n.condition t = .error e ∧ n.Failure t e) ∧
    (∀ n ∈ c.tree.nodes, n.op ∈ Operator.total → ∃ f, n.condition t = .ok f) ∧
    ((∀ op, allowed op → op ∈ Operator.total) → ∃ f, (c.compile t options).answer k = .ok f) := by
  rw [compile, (c.tree.answers_compile t options).answer_eq reached]
  refine ⟨fun e failed => ?_, fun n member total => ?_, fun total => ?_⟩
  · obtain ⟨n, met, failed⟩ := exists_of_mapM_error (Node.compiled_eq_error_iff.1 failed)
    obtain ⟨-, failure⟩ := (made.appended n (Node.mem_nodes_of_visited met)).failure failed
    exact ⟨failure.ofSelector_eq, n, met, failed, failure⟩
  · cases condition : n.condition t with
    | ok f => exact ⟨f, rfl⟩
    | error e => exact absurd total ((made.appended n member).failure condition).2.not_total
  · refine Node.exists_compiled_iff.2 fun n met => ?_
    cases condition : n.condition t with
    | ok f => exact ⟨f, rfl⟩
    | error e =>
      obtain ⟨may, failure⟩ :=
        (made.appended n (Node.mem_nodes_of_visited met)).failure condition
      exact absurd (total n.op may) failure.not_total

namespace Criteria

def likeNull : LeafCall := ⟨⟨7⟩, .and, "home.city", .like, .null⟩

theorem compile_of_made_likeNull : ∃ (c d : Criteria) (e : Error),
    c.Made .person (· ∈ Operator.total) ∧ d.Made .person (fun _ => True) ∧
      (∃ f, (c.compile .person {}).answer .empty = .ok f) ∧
      (d.compile .person {}).answer .empty = .error e ∧ e.ofSelector = false ∧
      ∃ n ∈ d.tree.visited, n.condition .person = .error e ∧ n.Failure .person e := by
  obtain ⟨c, equal⟩ : ∃ c, (underAda.appendTo .person (never .person ⟨9⟩ ⟨6⟩)).answer .empty =
    .ok c := ⟨_, rfl⟩
  have made : c.Made .person (· ∈ Operator.total) := .leaf (.never ⟨9⟩ ⟨6⟩) (.head _) .empty equal
  obtain ⟨b, like⟩ : ∃ b, (likeNull.appendTo .person (always .person ⟨9⟩ ⟨8⟩)).answer .empty =
    .ok b := ⟨_, rfl⟩
  obtain ⟨d, spliced⟩ : ∃ d, c.appendCriteria b .or = .ok d := by
    cases equal
    cases like
    exact ⟨_, rfl⟩
  have made' : d.Made .person (fun _ => True) :=
    .splice (.leaf (.never ⟨9⟩ ⟨6⟩) trivial .empty equal)
      (.leaf (.always ⟨9⟩ ⟨8⟩) trivial .empty like) spliced
  obtain ⟨e, failed⟩ : ∃ e, (d.compile .person {}).answer .empty = .error e := by
    cases equal
    cases like
    cases spliced
    exact ⟨_, rfl⟩
  exact ⟨c, d, e, made, made', (compile_of_made made .empty {}).2.2 fun _ may => may, failed,
    (compile_of_made made' .empty {}).1 e failed⟩

end Criteria

end EntityQuery
