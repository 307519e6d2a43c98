import EntityQuery.Proofs.Coercion
import EntityQuery.Proofs.Compile
import EntityQuery.Proofs.Filter

set_option autoImplicit false

namespace EntityQuery

theorem map_bind_congr {α β γ δ : Type} {x y : Except Error α} {w : α → β}
    (same : w <$> x = w <$> y) {f f' : α → Except Error γ} {g g' : γ → δ}
    (alike : ∀ a b, w a = w b → g <$> f a = g' <$> f' b) : g <$> (x >>= f) = g' <$> (y >>= f') := by
  cases x with
  | error e =>
    cases y with
    | error e' => cases same; rfl
    | ok b => cases same
  | ok a =>
    cases y with
    | error e => cases same
    | ok b => exact alike a b (Except.ok.inj same)

namespace Operand

theorem canonicalAll_eq_map (vs : List Operand) : canonicalAll vs = vs.map canonical := by
  induction vs with
  | nil => rfl
  | cons v vs ih => simp [canonicalAll, ih]

mutual

@[simp] theorem agrees_canonical (v : Operand) (x : Value) : v.canonical.agrees x = v.agrees x := by
  match v, x with
  | .list vs, .list xs => simp [canonical, agrees, agreesAll_canonical vs xs]
  | .number n, .number m => simp [canonical, agrees]
  | .null, x | .string _, x | .bool _, x | .date _, x => rfl
  | .number n, .null | .number n, .string _ | .number n, .bool _ | .number n, .date _
  | .number n, .list _ | .number n, .entity _ _ => rfl
  | .list vs, .null | .list vs, .string _ | .list vs, .number _ | .list vs, .bool _
  | .list vs, .date _ | .list vs, .entity _ _ => rfl

theorem agreesAll_canonical (vs : List Operand) (xs : List Value) :
    agreesAll (canonicalAll vs) xs = agreesAll vs xs := by
  match vs, xs with
  | [], _ => rfl
  | v :: vs, [] => rfl
  | v :: vs, x :: xs =>
    simp [canonicalAll, agreesAll, agrees_canonical v x, agreesAll_canonical vs xs]

end

theorem coerceMembers?_cases (v : Operand) (k : Kind) : (∃ vs, v = list vs) ∨
    v.coerceMembers? k = none ∧ v.stored.coerceMembers? k = none := by
  cases v with
  | list vs => exact .inl ⟨vs, rfl⟩
  | _ => exact .inr ⟨rfl, rfl⟩

end Operand

namespace Clause

mutual

@[simp] theorem renderOperand_canonical (v : Operand) :
    renderOperand v.canonical = renderOperand v := by
  match v with
  | .number n => simp [Operand.canonical, renderOperand]
  | .list vs => simp [Operand.canonical, renderOperand, renderOperands_canonical vs]
  | .null | .string _ | .bool _ | .date _ => rfl

theorem renderOperands_canonical (vs : List Operand) :
    renderOperands (Operand.canonicalAll vs) = renderOperands vs := by
  match vs with
  | [] => rfl
  | [v] => simp [Operand.canonicalAll, renderOperands, renderOperand_canonical v]
  | v :: w :: vs =>
    have rest := renderOperands_canonical (w :: vs)
    simp only [Operand.canonicalAll] at rest
    simp [Operand.canonicalAll, renderOperands, renderOperand_canonical v, rest]

end

@[simp] theorem orderAgainst_canonical (x : Value) (v : Operand) :
    orderAgainst x v.canonical = orderAgainst x v := by
  cases v with
  | number n => cases x <;> simp [orderAgainst, Operand.canonical]
  | list vs => cases x <;> rfl
  | _ => rfl

end Clause

def Test.canonical : Test → Test
  | member values negate => member (Operand.canonicalAll values) negate
  | t => t

namespace Clause

def canonical (c : Clause) : Clause :=
  { c with operand := c.operand.canonical, test := c.test.canonical }

@[simp] theorem accepts_canonical (c : Clause) (x : Value) : c.canonical.accepts x = c.accepts x := by
  obtain ⟨path, op, operand, test⟩ := c
  cases test with
  | null | text => rfl
  | equal => simp only [canonical, Test.canonical, accepts, Operand.agrees_canonical]
  | member values =>
    simp only [canonical, Test.canonical, accepts, Operand.canonicalAll_eq_map, List.any_map,
      Function.comp_def, Operand.agrees_canonical]
  | order => simp only [canonical, Test.canonical, accepts, orderAgainst_canonical]

@[simp] theorem render_canonical (c : Clause) : c.canonical.render = c.render := by
  obtain ⟨path, op, operand, test⟩ := c
  cases test with
  | null negate => cases negate <;> rfl
  | text => rfl
  | equal | member | order =>
    simp only [canonical, Test.canonical, render, renderOperand_canonical]

def settled (r : Operand × Test) : Operand × Test :=
  (r.1.canonical, r.2.canonical)

theorem nonNull_alike {v w : Operand} (same : v.canonical = w.canonical) (k : Kind) :
    Operand.canonical <$> nonNull v k = Operand.canonical <$> nonNull w k := by
  have null : v.isNull = w.isNull := by rw [← v.isNull_canonical, same, w.isNull_canonical]
  have text : v.text = w.text := by rw [← v.text_canonical, same, w.text_canonical]
  unfold nonNull
  rw [null, text]
  split
  next => rfl
  next => exact congrArg Except.ok same

theorem prepare_stored {v : Operand} (dated : v.Dated) (p : Path) (op : Operator) :
    settled <$> prepare p op v.stored = settled <$> prepare p op v := by
  have coerced := v.coerce_stored dated p.kind
  have solid := map_bind_congr (coerced false) fun a b same => nonNull_alike same p.kind
  cases op with
  | isNull | isNotNull | none => rfl
  | equal | notEqual =>
    -- The coerced operands are alike, so both or neither are null.
    refine map_bind_congr (coerced p.nullable) fun a b same => ?_
    have null : a.isNull = b.isNull := by rw [← a.isNull_canonical, same, b.isNull_canonical]
    rw [null]
    split
    next => exact congrArg Except.ok (congrArg (·, _) same)
    next =>
      split
      next => rfl
      next => exact congrArg Except.ok (congrArg (·, _) same)
  | contains | notContains =>
    simp only [prepare]
    split
    next =>
      rcases v.coerceMembers?_cases p.kind with ⟨vs, rfl⟩ | ⟨none, none'⟩
      next =>
        refine map_bind_congr (Operand.coerceAll_stored dated p.kind) fun as bs same => ?_
        simp only [map_pure, settled, Operand.canonical, Test.canonical, same]
      next => simp only [none, none', v.text_stored]
    next => rfl
  | like | notLike | startsWith | notStartsWith | endsWith | notEndsWith =>
    simp only [prepare, ← bind_assoc]
    split
    iterate 2
      next =>
        refine map_bind_congr solid fun a b same => ?_
        have plain : a.plainText = b.plainText := by
          rw [← a.plainText_canonical, same, b.plainText_canonical]
        simp only [map_pure, settled, Test.canonical, same, plain]
    next => rfl
  | greaterThan | greaterThanOrEqual | lessThan | lessThanOrEqual =>
    simp only [prepare, ← bind_assoc]
    split
    iterate 3
      next =>
        refine map_bind_congr solid fun a b same => ?_
        simp only [map_pure, settled, Test.canonical, same]
    next => rfl

theorem compile_stored {v : Operand} (dated : v.Dated) (p : Path) (op : Operator) :
    canonical <$> compile p op v.stored = canonical <$> compile p op v := by
  have prepared := prepare_stored dated p op
  let clause (r : Operand × Test) : Clause := ⟨p, op, r.1, r.2⟩
  have split (w : Operand) : canonical <$> compile p op w = clause <$> settled <$> prepare p op w := by
    simp [compile, Functor.map_map, clause, settled, canonical]
  rw [split, split, prepared]

end Clause

namespace Filter

mutual

def canonical : Filter → Filter
  | const b => const b
  | clause c => clause c.canonical
  | all parts => all (canonicalAll parts)
  | any parts => any (canonicalAll parts)

def canonicalAll : List Filter → List Filter
  | [] => []
  | f :: fs => f.canonical :: canonicalAll fs

end

mutual

theorem canonical_eq_map (f : Filter) : f.canonical = f.mapClauses Clause.canonical := by
  match f with
  | const _ | clause _ => rfl
  | all parts => simp only [canonical, mapClauses, canonicalAll_eq_map parts]
  | any parts => simp only [canonical, mapClauses, canonicalAll_eq_map parts]

theorem canonicalAll_eq_map (fs : List Filter) :
    canonicalAll fs = mapParts Clause.canonical fs := by
  match fs with
  | [] => rfl
  | f :: fs => simp only [canonicalAll, mapParts, canonical_eq_map f, canonicalAll_eq_map fs]

end

@[simp] theorem accepts_canonical (e : Entity) (f : Filter) :
    f.canonical.accepts e = f.accepts e := by
  rw [canonical_eq_map]
  exact accepts_mapClauses (fun c => c.accepts_canonical (c.path.get e)) f

@[simp] theorem text_canonical (f : Filter) : f.canonical.text = f.text := by
  rw [canonical_eq_map]
  exact text_mapClauses Clause.render_canonical f

theorem canonical_join {f g f' g' : Filter} (before : f.canonical = f'.canonical)
    (part : g.canonical = g'.canonical) (c : Combinator) :
    (Plan.join c f g).canonical = (Plan.join c f' g').canonical := by
  simp only [canonical_eq_map, mapClauses_join] at before part ⊢
  rw [before, part]

end Filter

namespace Node

mutual

def stored : Node → Node
  | ⟨id, selector, op, operand, next, children⟩ =>
    ⟨id, selector, op, operand.stored, next, storedAll children⟩

def storedAll : List Node → List Node
  | [] => []
  | n :: ns => n.stored :: storedAll ns

end

mutual

def operands : Node → List Operand
  | ⟨_, _, _, operand, _, children⟩ => operand :: operandsOf children

def operandsOf : List Node → List Operand
  | [] => []
  | n :: ns => n.operands ++ operandsOf ns

end

mutual

@[simp] theorem ids_stored (n : Node) : n.stored.ids = n.ids := by
  match n with
  | ⟨id, selector, op, operand, next, children⟩ => simp [stored, ids, idsOf_storedAll children]

theorem idsOf_storedAll (ns : List Node) : idsOf (storedAll ns) = idsOf ns := by
  match ns with
  | [] => rfl
  | n :: ns => simp [storedAll, idsOf, ids_stored n, idsOf_storedAll ns]

end

mutual

def shown : Node → Node
  | ⟨id, selector, op, operand, next, children⟩ =>
    ⟨id, selector, op, operand.shown, next, shownAll children⟩

def shownAll : List Node → List Node
  | [] => []
  | n :: ns => n.shown :: shownAll ns

end

mutual

@[simp] theorem stored_shown (n : Node) : n.shown.stored = n.stored := by
  match n with
  | ⟨id, selector, op, operand, next, children⟩ => simp [shown, stored, storedAll_shown children]

theorem storedAll_shown (ns : List Node) : storedAll (shownAll ns) = storedAll ns := by
  match ns with
  | [] => rfl
  | n :: ns => simp [shownAll, storedAll, stored_shown n, storedAll_shown ns]

end

mutual

theorem operands_shown (n : Node) : n.shown.operands = n.operands.map Operand.shown := by
  match n with
  | ⟨id, selector, op, operand, next, children⟩ => simp [shown, operands, operandsOf_shown children]

theorem operandsOf_shown (ns : List Node) :
    operandsOf (shownAll ns) = (operandsOf ns).map Operand.shown := by
  match ns with
  | [] => rfl
  | n :: ns => simp [shownAll, operandsOf, operands_shown n, operandsOf_shown ns]

end

mutual

theorem shown_eq_self {n : Node} (same : ∀ v ∈ n.operands, v.shown = v) : n.shown = n := by
  match n with
  | ⟨id, selector, op, operand, next, children⟩ =>
    simp only [operands, List.forall_mem_cons] at same
    simp [shown, same.1, shownAll_eq_self same.2]

theorem shownAll_eq_self {ns : List Node} (same : ∀ v ∈ operandsOf ns, v.shown = v) :
    shownAll ns = ns := by
  match ns with
  | [] => rfl
  | n :: ns =>
    simp only [operandsOf, List.forall_mem_append] at same
    simp [shownAll, shown_eq_self same.1, shownAll_eq_self same.2]

end

theorem sentinelValue_stored (n : Node) : n.stored.sentinelValue = n.sentinelValue := by
  obtain ⟨id, selector, op, operand, next, children⟩ := n
  have text := operand.text_stored
  cases operand with
  | number x =>
    simp only [Operand.stored] at text
    simp [sentinelValue, stored, Operand.stored, text]
  | _ => simp [sentinelValue, stored, Operand.stored] at text ⊢ <;> simp [text]

theorem condition_stored (t : EntityType) {n : Node} (dated : n.operand.Dated) :
    Filter.canonical <$> n.stored.condition t = Filter.canonical <$> n.condition t := by
  have value := n.sentinelValue_stored
  obtain ⟨id, selector, op, operand, next, children⟩ := n
  simp only [stored] at value
  simp only [condition, isSentinel, stored, value]
  by_cases sentinel : (op == .none) = true
  next => simp only [sentinel, if_true]
  next =>
    have compiled (p : Path) := Clause.compile_stored (v := operand) dated p op
    have inside (x : Except Error Clause) : (x >>= fun c => Filter.canonical <$> pure (.clause c)) =
        Filter.clause <$> Clause.canonical <$> x := by
      simp [Functor.map_map, Filter.canonical]
    simp only [sentinel, Bool.false_eq_true, if_false, map_bind, inside, compiled]

end Node

namespace Plan

open Node (operands operandsOf)

mutual

theorem ofNode_stored (t : EntityType) {join : Node → Combinator}
    (alike : ∀ n, join n.stored = join n) (seen : List Uuid) {n : Node}
    (dated : ∀ v ∈ n.operands, v.Dated) :
    (fun p => p.filter.canonical) <$> (ofNode join seen n.stored).1.mapM (Node.condition t) =
        (fun p => p.filter.canonical) <$> (ofNode join seen n).1.mapM (Node.condition t) ∧
      (ofNode join seen n.stored).2 = (ofNode join seen n).2 := by
  match n with
  | ⟨id, selector, op, operand, next, children⟩ =>
    simp only [operands, List.forall_mem_cons] at dated
    let root : Node := ⟨id, selector, op, operand, next, children⟩
    have own := root.condition_stored t dated.1
    have inside {f g : Filter} (same : f.canonical = g.canonical) :=
      ofChildren_stored t alike seen dated.2 same
    refine ⟨?_, (inside (f := .const true) rfl).2⟩
    simp only [Node.stored, ofNode, mapM]
    refine map_bind_congr own fun f g same => ?_
    simpa [filter] using (inside same).1

theorem ofChildren_stored (t : EntityType) {join : Node → Combinator}
    (alike : ∀ n, join n.stored = join n) (seen : List Uuid) {ns : List Node}
    (dated : ∀ v ∈ operandsOf ns, v.Dated) {f g : Filter} (same : f.canonical = g.canonical) :
    (fun ps => (joinParts f ps).canonical) <$>
          mapParts (Node.condition t) (ofChildren join seen (Node.storedAll ns)).1 =
        (fun ps => (joinParts g ps).canonical) <$>
          mapParts (Node.condition t) (ofChildren join seen ns).1 ∧
      (ofChildren join seen (Node.storedAll ns)).2 = (ofChildren join seen ns).2 := by
  match ns with
  | [] => exact ⟨congrArg Except.ok same, rfl⟩
  | n :: ns =>
    simp only [operandsOf, List.forall_mem_append] at dated
    have id : n.stored.id = n.id := by cases n; rfl
    by_cases repeated : n.id ∈ seen
    next =>
      simp only [Node.storedAll, ofChildren, id, repeated, if_true]
      exact ofChildren_stored t alike seen dated.2 same
    next =>
      obtain ⟨first, after⟩ := ofNode_stored t alike (n.id :: seen) dated.1
      have rest {f g : Filter} (same : f.canonical = g.canonical) :=
        ofChildren_stored t alike (ofNode join (n.id :: seen) n).2 dated.2 same
      simp only [Node.storedAll, ofChildren, id, repeated, if_false, after, alike]
      refine ⟨?_, (rest same).2⟩
      -- What the later children are joined to is alike, as the filter before and the first child are.
      simp only [mapParts]
      refine map_bind_congr first fun p q part => ?_
      simpa [joinParts] using (rest (Filter.canonical_join same part (join n))).1

end

end Plan

theorem Node.compiled_stored (t : EntityType) (strategy : MergeStrategy) {root : Node}
    (dated : ∀ v ∈ root.operands, v.Dated) :
    Filter.canonical <$> root.stored.compiled t strategy =
      Filter.canonical <$> root.compiled t strategy := by
  have alike (n : Node) : Plan.combinator strategy root.next n.stored =
      Plan.combinator strategy root.next n := by
    obtain ⟨id, selector, op, operand, next, children⟩ := n
    cases children <;> cases strategy <;> rfl
  have next : root.stored.next = root.next := by cases root; rfl
  have id : root.stored.id = root.id := by cases root; rfl
  have plans := (Plan.ofNode_stored t alike [root.id] dated).1
  simpa only [compiled, Plan.ofTree, next, id, Functor.map_map] using plans

end EntityQuery
