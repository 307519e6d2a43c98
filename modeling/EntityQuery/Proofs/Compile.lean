import EntityQuery.Compile
import EntityQuery.Proofs.Plan
import EntityQuery.Proofs.Resolving

set_option autoImplicit false

namespace EntityQuery

open Resolving

theorem Clause.compile_eq (p : Path) (op : Operator) (raw : Operand) :
    compile p op raw = (fun x => ⟨p, op, x.1, x.2⟩) <$> prepare p op raw :=
  bind_pure_comp _ _

theorem Clause.prepare_of_isText {op : Operator} (asked : op.isText = true) (p : Path)
    (raw : Operand) : prepare p op raw = match p.kind with
      | .string | .number _ => do
        let v ← nonNull (← raw.coerce p.kind false) p.kind
        return (v, .text (textMode op) v.plainText p.kind.isNumeric op.isNegated)
      | _ => .error (.unsupportedOperator op p.kind.name p.selector) := by
  cases op <;> first | rfl | cases asked

theorem Clause.prepare_of_isOrdering {op : Operator} (asked : op.isOrdering = true) (p : Path)
    (raw : Operand) : prepare p op raw = match p.kind with
      | .string | .number _ | .date => do
        let v ← nonNull (← raw.coerce p.kind false) p.kind
        return (v, .order)
      | _ => .error (.unsupportedOperator op p.kind.name p.selector) := by
  cases op <;> first | rfl | cases asked

theorem Clause.prepare_of_isMembership {op : Operator} (asked : op.isMembership = true) (p : Path)
    (raw : Operand) : prepare p op raw = if p.kind.isScalar then
      match raw.coerceMembers? p.kind with
      | some values => do
        let values ← values
        return (.list values, .member values op.isNegated)
      | none => .error (.expectedCollection op p.selector raw.text)
    else .error (.unsupportedOperator op p.kind.name p.selector) := by
  cases op <;> first | rfl | cases asked

theorem Clause.prepare_of_equality {op : Operator} (asked : op = .equal ∨ op = .notEqual) (p : Path)
    (raw : Operand) : prepare p op raw = do
      let v ← raw.coerce p.kind p.nullable
      if v.isNull then return (v, .null op.isNegated)
      match p.kind with
      | .entity _ => .error (.unsupportedOperator op p.kind.name p.selector)
      | _ => return (v, .equal op.isNegated) := by
  rcases asked with rfl | rfl <;> rfl

def Node.condition (t : EntityType) (n : Node) : Except Error Filter := do
  if n.isSentinel then
    return .const (← n.sentinelValue)
  let p ← Selector.resolve t n.selector
  return .clause (← Clause.compile p n.op n.operand)

theorem Node.condition_of_sentinel {n : Node} (constant : n.isSentinel = true) (t : EntityType) :
    n.condition t = Filter.const <$> n.sentinelValue := by
  rw [condition, if_pos constant]
  exact bind_pure_comp _ _

theorem Node.condition_of_leaf {n : Node} (leaf : n.isSentinel = false) (t : EntityType) :
    n.condition t = Selector.resolve t n.selector >>= fun p =>
      Filter.clause <$> Clause.compile p n.op n.operand := by
  rw [condition, if_neg (by simp [leaf])]
  exact bind_congr fun p => bind_pure_comp _ _

theorem Node.condition_of_resolve {t : EntityType} {n : Node} {p : Path}
    (leaf : n.isSentinel = false) (resolved : Selector.resolve t n.selector = .ok p) :
    n.condition t = Filter.clause <$> Clause.compile p n.op n.operand := by
  rw [condition_of_leaf leaf, resolved]
  rfl

theorem Node.answers_own (t : EntityType) (cached : Bool) (n : Node) :
    Answers t.catalog (n.own t cached) (n.condition t) := by
  unfold own condition
  split
  next => exact (answers_lift _).bind fun b => answers_pure (Filter.const b)
  next =>
    refine (answers_resolve t cached n.selector).bind fun p => ?_
    exact (answers_lift _).bind fun c => answers_pure (Filter.clause c)

namespace Plan

variable {α β : Type} {c : Catalog}

mutual

theorem answers_mapM {f : α → Resolving β} {g : α → Except Error β}
    (each : ∀ a, Answers c (f a) (g a)) (p : Plan α) : Answers c (p.mapM f) (p.mapM g) := by
  match p with
  | node own parts =>
    unfold mapM
    refine (each own).bind fun b => (answers_mapParts each parts).bind fun bs => ?_
    exact answers_pure (node b bs)

theorem answers_mapParts {f : α → Resolving β} {g : α → Except Error β}
    (each : ∀ a, Answers c (f a) (g a)) (parts : List (Combinator × Plan α)) :
    Answers c (mapParts f parts) (mapParts g parts) := by
  match parts with
  | [] => exact answers_pure []
  | (join, p) :: parts =>
    unfold mapParts
    refine (answers_mapM each p).bind fun q => (answers_mapParts each parts).bind fun qs => ?_
    exact answers_pure ((join, q) :: qs)

end

end Plan

def Node.compiled (t : EntityType) (strategy : MergeStrategy) (root : Node) :
    Except Error Filter :=
  Plan.filter <$> (Plan.ofTree strategy root).mapM (Node.condition t)

theorem Node.answers_compile (t : EntityType) (options : CompileOptions) (root : Node) :
    Answers t.catalog (root.compile t options) (root.compiled t options.mergeStrategy) := by
  unfold compile compiled
  rw [← bind_pure_comp]
  refine Answers.bind ?_ fun plan => answers_pure plan.filter
  exact Plan.answers_mapM (fun n => n.answers_own t options.cachePaths) _

end EntityQuery
