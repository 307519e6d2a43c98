import EntityQuery.Proofs.Filter
import EntityQuery.Proofs.Request
import EntityQuery.Proofs.Coercion
import EntityQuery.Proofs.Meaning
import EntityQuery.Proofs.Selector.Segments
import EntityQuery.Proofs.Walk

set_option autoImplicit false

namespace EntityQuery

open Resolving (map_eq_error_iff ok_of_bind ok_of_map)

inductive Kind.Alike : Kind → Kind → Prop where
  | string : Alike .string .string
  | number (k : NumberKind) : Alike (.number k) (.number k)
  | bool : Alike .bool .bool
  | date : Alike .date .date
  | collection {k k' : Kind} (element : Alike k k') : Alike (.collection k) (.collection k')
  | entity (r r' : SchemaRef) : Alike (.entity r) (.entity r')

structure Path.Alike (p q : Path) : Prop where
  kind : p.kind.Alike q.kind
  nullable : p.nullable = q.nullable

def Selector.Alike (t u : EntityType) (selector : String) : Prop :=
  ∃ p q, resolve t selector = .ok p ∧ resolve u selector = .ok q ∧ p.Alike q

variable {k k' : Kind}

theorem Kind.Alike.name_eq (alike : k.Alike k') : k.name = k'.name := by
  cases alike <;> rfl

theorem Kind.Alike.isScalar_eq (alike : k.Alike k') : k.isScalar = k'.isScalar := by
  cases alike <;> rfl

namespace Operand

mutual

theorem coerce_alike {k k' : Kind} (alike : k.Alike k') (v : Operand) (nullable : Bool) :
    v.coerce k nullable = v.coerce k' nullable := by
  cases alike with
  | string | number | bool | date => rfl
  | entity r r' => cases v <;> rfl
  | collection element =>
    match v with
    | .list vs => rw [coerce_list, coerce_list, coerceAll_alike element vs]
    | .null | .string _ | .number _ | .bool _ | .date _ => rfl

theorem coerceAll_alike {k k' : Kind} (alike : k.Alike k') (vs : List Operand) :
    coerceAll vs k = coerceAll vs k' := by
  match vs with
  | [] => rfl
  | v :: vs => simp only [coerceAll, coerce_alike alike v, coerceAll_alike alike vs]

end

end Operand

namespace Value

mutual

inductive Agrees : Value → Value → Prop where
  | null : Agrees null null
  | string (s : String) : Agrees (string s) (string s)
  | number (n : Number) : Agrees (number n) (number n)
  | bool (b : Bool) : Agrees (bool b) (bool b)
  | date (d : Calendar.DateTime) : Agrees (date d) (date d)
  | list {vs ws : List Value} (items : AllAgree vs ws) : Agrees (list vs) (list ws)
  | entity (i j : Nat) (read read' : String → Value) : Agrees (entity i read) (entity j read')

inductive AllAgree : List Value → List Value → Prop where
  | nil : AllAgree [] []
  | cons {v w : Value} {vs ws : List Value} (first : Agrees v w) (rest : AllAgree vs ws) :
    AllAgree (v :: vs) (w :: ws)

end

mutual

theorem Agrees.operand {v w : Value} (same : v.Agrees w) (o : Operand) :
    o.agrees v = o.agrees w := by
  match same with
  | .null | .string _ | .number _ | .bool _ | .date _ => rfl
  | .entity .. => cases o <;> rfl
  | .list items =>
    match o with
    | .list os => exact items.operands os
    | .null | .string _ | .number _ | .bool _ | .date _ => rfl

theorem AllAgree.operands {vs ws : List Value} (same : AllAgree vs ws) (os : List Operand) :
    Operand.agreesAll os vs = Operand.agreesAll os ws := by
  match same, os with
  | .nil, _ => rfl
  | .cons _ _, [] => rfl
  | .cons first rest, o :: os =>
    simp only [Operand.agreesAll, first.operand o, rest.operands os]

end

variable {v w v' w' : Value}

theorem Agrees.isNull_eq (same : v.Agrees w) : v.isNull = w.isNull := by
  cases same <;> rfl

theorem Agrees.compare_eq (same : v.Agrees w) (same' : v'.Agrees w') :
    v.compare v' = w.compare w' := by
  cases same <;> cases same' <;> rfl

end Value

namespace Clause

-- Of its path a clause is asked no more than the selector, and where the value stands.
def unplaced (c : Clause) : Clause :=
  { c with path := ⟨c.path.selector, [], .string, false⟩ }

theorem render_unplaced (c : Clause) : c.unplaced.render = c.render :=
  rfl

theorem accepts_agrees {v w : Value} (same : v.Agrees w) (c : Clause) :
    c.accepts v = c.accepts w := by
  have any (values : List Operand) : values.any (·.agrees v) = values.any (·.agrees w) := by
    simp only [same.operand]
  obtain ⟨p, op, operand, test⟩ := c
  cases test with
  | null negate => simp only [accepts, same.isNull_eq]
  | equal negate => simp only [accepts, same.isNull_eq, same.operand]
  | member values negate => simp only [accepts, same.isNull_eq, any]
  | text => cases same <;> rfl
  | order => cases same <;> cases operand <;> rfl

variable {p q : Path}

theorem prepare_alike (named : p.selector = q.selector) (alike : p.Alike q) (op : Operator)
    (raw : Operand) : prepare p op raw = prepare q op raw := by
  obtain ⟨selector, steps, kind, nullable⟩ := p
  obtain ⟨selector', steps', kind', nullable'⟩ := q
  obtain rfl : selector = selector' := named
  obtain rfl : nullable = nullable' := alike.nullable
  have same : kind.Alike kind' := alike.kind
  have coerced := Operand.coerce_alike same raw
  cases same with
  | string | number | bool | date => rfl
  | collection | entity => cases op <;> simp only [prepare, coerced] <;> rfl

theorem compile_alike (named : p.selector = q.selector) (alike : p.Alike q) (op : Operator)
    (raw : Operand) : unplaced <$> compile p op raw = unplaced <$> compile q op raw := by
  simp only [compile_eq, prepare_alike named alike op raw, Functor.map_map, unplaced, named]

theorem decide_alike {e e' : Entity} (named : p.selector = q.selector) (alike : p.Alike q)
    (same : (p.get e).Agrees (q.get e')) (op : Operator) (raw : Operand) :
    (acceptsEntity · e) <$> compile p op raw = (acceptsEntity · e') <$> compile q op raw := by
  have decides (x : Operand × Test) :
      acceptsEntity ⟨p, op, x.1, x.2⟩ e = acceptsEntity ⟨q, op, x.1, x.2⟩ e' :=
    accepts_agrees same ⟨p, op, x.1, x.2⟩
  simp only [compile_eq, prepare_alike named alike op raw, Functor.map_map, decides]

end Clause

variable {t u : EntityType} {e e' : Entity}

def Selector.ReadsAlike (t u : EntityType) (e e' : Entity) (selector : String) : Prop :=
  ∀ p q, resolve t selector = .ok p → resolve u selector = .ok q → (p.get e).Agrees (q.get e')

namespace Node

open EntityQuery.Filter (mapClauses)

def selectors (root : Node) : List String :=
  (root.visited.filter fun n => !n.isSentinel).map (·.selector)

theorem mem_selectors {root n : Node} (met : n ∈ root.visited) (leaf : n.isSentinel = false) :
    n.selector ∈ root.selectors :=
  List.mem_map_of_mem (List.mem_filter.2 ⟨met, by simp [leaf]⟩)

theorem condition_alike {n : Node}
    (alike : n.isSentinel = false → Selector.Alike t u n.selector) :
    mapClauses Clause.unplaced <$> n.condition t = mapClauses Clause.unplaced <$> n.condition u := by
  cases kind : n.isSentinel with
  | true => rw [condition_of_sentinel kind, condition_of_sentinel kind]
  | false =>
    obtain ⟨p, q, onT, onU, same⟩ := alike kind
    have named := Selector.selector_eq_of_resolve onT onU
    have clauses := congrArg (Filter.clause <$> ·) (Clause.compile_alike named same n.op n.operand)
    rw [condition_of_resolve kind onT, condition_of_resolve kind onU]
    simpa only [Functor.map_map, mapClauses] using clauses

theorem meets_alike {n : Node} (alike : n.isSentinel = false → Selector.Alike t u n.selector)
    (reads : n.isSentinel = false → Selector.ReadsAlike t u e e' n.selector) :
    n.meets t e = n.meets u e' := by
  rw [meets_eq_condition, meets_eq_condition]
  cases kind : n.isSentinel with
  | true =>
    rw [condition_of_sentinel kind, condition_of_sentinel kind, Functor.map_map, Functor.map_map]
    rfl
  | false =>
    obtain ⟨p, q, onT, onU, same⟩ := alike kind
    have named := Selector.selector_eq_of_resolve onT onU
    have decisions := Clause.decide_alike named same (reads kind p q onT onU) n.op n.operand
    rw [condition_of_resolve kind onT, condition_of_resolve kind onU]
    simpa only [Functor.map_map, Filter.accepts] using decisions

variable {root : Node} (alike : ∀ selector ∈ root.selectors, Selector.Alike t u selector)
include alike

theorem compiled_alike (strategy : MergeStrategy) :
    mapClauses Clause.unplaced <$> root.compiled t strategy =
      mapClauses Clause.unplaced <$> root.compiled u strategy := by
  have inside (v : EntityType) : mapClauses Clause.unplaced <$> root.compiled v strategy =
      Plan.foldWith Plan.join <$> (Plan.ofTree strategy root).mapM fun n =>
        mapClauses Clause.unplaced <$> n.condition v := by
    rw [Plan.foldWith_mapM Filter.mapClauses_join, compiled, Functor.map_map]
    simp only [Plan.filter_eq_fold]
  rw [inside, inside]
  refine congrArg _ (Plan.mapM_congr fun n met => condition_alike fun leaf => alike _ ?_)
  exact mem_selectors (Plan.members_ofTree strategy root ▸ met) leaf

theorem text_alike (strategy : MergeStrategy) :
    Filter.text <$> root.compiled t strategy = Filter.text <$> root.compiled u strategy := by
  have same := congrArg (Filter.text <$> ·) (compiled_alike alike strategy)
  simpa only [Functor.map_map, Filter.text_mapClauses Clause.render_unplaced] using same

theorem accepts_alike (reads : ∀ selector ∈ root.selectors, Selector.ReadsAlike t u e e' selector)
    (strategy : MergeStrategy) :
    Filter.accepts e <$> root.compiled t strategy =
      Filter.accepts e' <$> root.compiled u strategy := by
  have inside (v : EntityType) (e : Entity) : Filter.accepts e <$> root.compiled v strategy =
      Plan.value <$> (Plan.ofTree strategy root).mapM (meets v e) := by
    rw [funext (meets_eq_condition v e), Plan.value_mapM, compiled, Functor.map_map]
  rw [inside, inside]
  refine congrArg _ (Plan.mapM_congr fun n met => ?_)
  have member := mem_selectors (Plan.members_ofTree strategy root ▸ met)
  exact meets_alike (fun leaf => alike _ (member leaf)) fun leaf => reads _ (member leaf)

end Node

theorem Node.compiled_fails {root : Node} {selector : String} (asked : selector ∈ root.selectors)
    (unknown : ∀ p, Selector.resolve t selector ≠ .ok p) (strategy : MergeStrategy) :
    ∃ e, root.compiled t strategy = .error e := by
  obtain ⟨n, member, rfl⟩ := List.mem_map.1 asked
  obtain ⟨met, leaf⟩ := List.mem_filter.1 member
  cases compiled : root.compiled t strategy with
  | error e => exact ⟨e, rfl⟩
  | ok f =>
    obtain ⟨own, condition⟩ := exists_compiled_iff.1 ⟨f, compiled⟩ n met
    rw [condition_of_leaf (by simpa using leaf)] at condition
    obtain ⟨p, resolved, -⟩ := ok_of_bind condition
    exact absurd resolved (unknown p)

def Error.retyped (name : String) : Error → Error
  | .emptySort _ => .emptySort name
  | e => e

theorem mapM_alike {α β γ : Type} {x y : α → Except Error β} {f g : β → γ} {h : Error → Error}
    {as : List α} (each : ∀ a ∈ as, g <$> y a = (f <$> x a).mapError h) :
    List.map g <$> as.mapM y = (List.map f <$> as.mapM x).mapError h := by
  induction as with
  | nil => rfl
  | cons a rest ih =>
    obtain ⟨first, others⟩ := List.forall_mem_cons.1 each
    have later := ih others
    rw [List.mapM_cons, List.mapM_cons]
    cases ofX : x a with
    | error e =>
      rw [ofX] at first
      rw [map_eq_error_iff.1 first]
      rfl
    | ok b =>
      rw [ofX] at first
      obtain ⟨b', ofY, same⟩ := ok_of_map first
      rw [ofY]
      cases restX : rest.mapM x with
      | error e =>
        rw [restX] at later
        rw [map_eq_error_iff.1 later]
        rfl
      | ok bs =>
        rw [restX] at later
        obtain ⟨bs', restY, sames⟩ := ok_of_map later
        rw [restY]
        exact congrArg Except.ok (congrArg₂ List.cons same sames)

namespace Comparator

def heading (k : SortKey) : String × Direction :=
  (k.path.selector, k.direction)

def textOf (headings : List (String × Direction)) : String :=
  String.ofList <| List.intercalate ", ".toList <|
    headings.map fun (selector, direction) => selector.toList ++ ' ' :: direction.symbol.toList

theorem text_eq (c : Comparator) : c.text = textOf (c.keys.map heading) := by
  rw [text, textOf, List.map_map]
  rfl

theorem compare_eq (c : Comparator) (a b : Entity) :
    c.compare a b = (c.keys.map (·.compare a b)).foldr Ordering.then .eq := by
  rw [compare, List.foldr_map]

end Comparator

namespace SortSpec

variable {γ δ : Type} {f g : SortKey → γ}

theorem resolvedItem_alike {i : SortItem} (alike : Selector.Alike t u i.selector)
    (same : ∀ p q, Selector.resolve t i.selector = .ok p → Selector.resolve u i.selector = .ok q →
      g ⟨q, i.direction⟩ = f ⟨p, i.direction⟩) (name : String) :
    g <$> resolvedItem u i = (f <$> resolvedItem t i).mapError (Error.retyped name) := by
  obtain ⟨p, q, onT, onU, paths⟩ := alike
  have named := Selector.selector_eq_of_resolve onT onU
  have scalar := paths.kind.isScalar_eq
  have item (v : EntityType) (p : Path) (resolved : Selector.resolve v i.selector = .ok p) :
      resolvedItem v i = if p.kind.isScalar then .ok ⟨p, i.direction⟩
        else .error (.unsupportedSortKey p.kind.name p.selector) := by
    rw [resolvedItem, resolved]
    rfl
  rw [item t p onT, item u q onU, ← scalar, ← named, ← paths.kind.name_eq]
  split
  next => exact congrArg Except.ok (same p q onT onU)
  next => rfl

variable {s : SortSpec} (alike : ∀ i ∈ s, Selector.Alike t u i.selector)
include alike

theorem compiled_alike (same : ∀ i ∈ s, ∀ p q, Selector.resolve t i.selector = .ok p →
      Selector.resolve u i.selector = .ok q → g ⟨q, i.direction⟩ = f ⟨p, i.direction⟩)
    (r : List γ → δ) :
    (fun c : Comparator => r (c.keys.map g)) <$> s.compiled u =
      ((fun c : Comparator => r (c.keys.map f)) <$> s.compiled t).mapError
        (Error.retyped u.name) := by
  cases s with
  | nil => rfl
  | cons i rest =>
    have keys := mapM_alike fun j member =>
      resolvedItem_alike (alike j member) (same j member) u.name
    have compiled (v : EntityType) : compiled v (i :: rest) =
        Comparator.mk <$> (i :: rest).mapM (resolvedItem v) :=
      bind_pure_comp _ _
    have mapped (x : Except Error (List γ)) :
        r <$> x.mapError (Error.retyped u.name) = (r <$> x).mapError (Error.retyped u.name) := by
      cases x <;> rfl
    have result := congrArg (r <$> ·) keys
    simpa only [compiled, Functor.map_map, mapped] using result

theorem text_alike : Comparator.text <$> s.compiled u =
    (Comparator.text <$> s.compiled t).mapError (Error.retyped u.name) := by
  rw [funext Comparator.text_eq]
  refine compiled_alike alike (fun i _ p q onT onU => ?_) Comparator.textOf
  exact Prod.ext (Selector.selector_eq_of_resolve onU onT) rfl

theorem compare_alike {a b a' b' : Entity}
    (reads : ∀ i ∈ s, Selector.ReadsAlike t u a a' i.selector)
    (reads' : ∀ i ∈ s, Selector.ReadsAlike t u b b' i.selector) :
    (Comparator.compare · a' b') <$> s.compiled u =
      ((Comparator.compare · a b) <$> s.compiled t).mapError (Error.retyped u.name) := by
  simp only [Comparator.compare_eq]
  refine compiled_alike alike (fun i member p q onT onU => ?_) (List.foldr Ordering.then .eq)
  have values := (reads i member p q onT onU).compare_eq (reads' i member p q onT onU)
  simp only [SortKey.compare, values]

end SortSpec

/-- Criteria cast to another type, and orders, which carry no type, compile there as they did, to the
same texts and with the same errors, if their selectors lead to the same kinds; and what they say
about entities depends on the values at these selectors only. A selector that leads nowhere on the
other type is an error, wherever it stands in the criteria. -/
theorem Criteria.compile_cast {k l : PathCache} (reached : k.Reachable t.catalog)
    (reached' : l.Reachable u.catalog) (options : CompileOptions) (c : Criteria) (s : SortSpec) :
    ((∀ selector ∈ c.tree.selectors, Selector.Alike t u selector) →
      Filter.text <$> ((c.cast u).compile u options).answer l =
          Filter.text <$> (c.compile t options).answer k ∧
        ∀ e e', (∀ selector ∈ c.tree.selectors, Selector.ReadsAlike t u e e' selector) →
          Filter.accepts e' <$> ((c.cast u).compile u options).answer l =
            Filter.accepts e <$> (c.compile t options).answer k) ∧
      ((∀ i ∈ s, Selector.Alike t u i.selector) →
        Comparator.text <$> (s.compile u).answer l =
            (Comparator.text <$> (s.compile t).answer k).mapError (Error.retyped u.name) ∧
          ∀ a b a' b', (∀ i ∈ s, Selector.ReadsAlike t u a a' i.selector) →
            (∀ i ∈ s, Selector.ReadsAlike t u b b' i.selector) →
            (Comparator.compare · a' b') <$> (s.compile u).answer l =
              ((Comparator.compare · a b) <$> (s.compile t).answer k).mapError
                (Error.retyped u.name)) ∧
      ∀ selector ∈ c.tree.selectors, (∀ p, Selector.resolve u selector ≠ .ok p) →
        ∃ e, ((c.cast u).compile u options).answer l = .error e := by
  have onT : (c.compile t options).answer k = c.tree.compiled t options.mergeStrategy :=
    (c.tree.answers_compile t options).answer_eq reached
  have onU : ((c.cast u).compile u options).answer l = c.tree.compiled u options.mergeStrategy :=
    (c.tree.answers_compile u options).answer_eq reached'
  rw [onT, onU, (SortSpec.answers_compile t s).answer_eq reached,
    (SortSpec.answers_compile u s).answer_eq reached']
  refine ⟨fun alike => ?_, fun alike => ?_, fun selector asked unknown => ?_⟩
  · exact ⟨(Node.text_alike alike _).symm, fun e e' reads =>
      (Node.accepts_alike alike reads _).symm⟩
  · exact ⟨SortSpec.text_alike alike, fun a b a' b' reads reads' =>
      SortSpec.compare_alike alike reads reads'⟩
  · exact Node.compiled_fails asked unknown _

def Catalog.staff : Catalog where
  schema r :=
    if r = ⟨0⟩ then
      ⟨"Employee", [.method "wage" (.number .float64), .field "boss" (.optional (.entity ⟨2⟩)),
        .field "age" (.number .uint32)]⟩
    else
      ⟨"Manager", [.field "name" .string]⟩

def EntityType.employee : EntityType := ⟨.staff, ⟨0⟩⟩

def Entity.ofEmployee (boss : Value) : Entity where
  identity := 7
  member
    | "age" => .number (.uint 36)
    | "boss" => boss
    | _ => .null

def Value.named (identity : Nat) (name : String) : Value :=
  .entity identity fun _ => .string name

def Criteria.belowAda (last : Node) : Criteria :=
  .ofTree .person ⟨9⟩ ⟨⟨0⟩, "", .none, .bool true, .and,
    [.leaf ⟨1⟩ "age" .greaterThan (.number (.uint 30)) .and,
      ⟨⟨2⟩, " boss . name ", .startsWith, .string "A", .and, [last]⟩]⟩

def SortSpec.byBoss : SortSpec :=
  [⟨" boss . name ", .descending⟩, ⟨"age", .ascending⟩]

theorem Criteria.compile_cast_staff :
    let c := belowAda (.sentinel ⟨3⟩ true)
    let s := SortSpec.byBoss
    let person (name : String) := Entity.ofPerson 1 "Bob" (.named 2 name)
    let employee (name : String) := Entity.ofEmployee (.named 3 name)
    (∃ f g, (c.compile .person {}).answer .empty = .ok f ∧
      ((c.cast .employee).compile .employee {}).answer .empty = .ok g ∧ g.text = f.text ∧
      ∀ name, g.accepts (employee name) = f.accepts (person name)) ∧
    (∃ f g, (s.compile .person).answer .empty = .ok f ∧
      (s.compile .employee).answer .empty = .ok g ∧ g.text = f.text ∧ ∀ name other,
        g.compare (employee name) (employee other) = f.compare (person name) (person other)) ∧
    ∃ e, (((belowAda (.leaf ⟨3⟩ "tags" .isNotNull .null .and)).cast .employee).compile
      .employee {}).answer .empty = .error e := by
  intro c s person employee
  have age : Selector.Alike .person .employee "age" := ⟨_, _, rfl, rfl, .number .uint32, rfl⟩
  have boss : Selector.Alike .person .employee " boss . name " := ⟨_, _, rfl, rfl, .string, rfl⟩
  have selectors : c.tree.selectors = ["age", " boss . name "] := rfl
  have reads (name : String) : ∀ selector ∈ ["age", " boss . name "],
      Selector.ReadsAlike .person .employee (person name) (employee name) selector := by
    simp only [List.forall_mem_cons]
    refine ⟨?_, ?_, List.forall_mem_nil _⟩ <;> rintro p q ⟨⟩ ⟨⟩
    · exact .number (.uint 36)
    · exact .string name
  obtain ⟨criteria, orders, -⟩ := compile_cast (t := .person) (u := .employee) .empty .empty {} c s
  refine ⟨?_, ?_, ?_⟩
  · obtain ⟨texts, decisions⟩ := criteria (by simp [selectors, age, boss])
    obtain ⟨f, onT⟩ : ∃ f, (c.compile .person {}).answer .empty = .ok f := ⟨_, rfl⟩
    obtain ⟨g, onU⟩ : ∃ g, ((c.cast .employee).compile .employee {}).answer .empty = .ok g :=
      ⟨_, rfl⟩
    rw [onT, onU] at texts decisions
    refine ⟨f, g, onT, onU, Except.ok.inj texts, fun name => ?_⟩
    exact Except.ok.inj (decisions _ _ (selectors ▸ reads name))
  · obtain ⟨texts, comparisons⟩ := orders (by simp [s, SortSpec.byBoss, age, boss])
    obtain ⟨f, onT⟩ : ∃ f, (s.compile .person).answer .empty = .ok f := ⟨_, rfl⟩
    obtain ⟨g, onU⟩ : ∃ g, (s.compile .employee).answer .empty = .ok g := ⟨_, rfl⟩
    rw [onT, onU] at texts comparisons
    have readsBoth (name : String) : ∀ i ∈ s,
        Selector.ReadsAlike .person .employee (person name) (employee name) i.selector := by
      simpa [s, SortSpec.byBoss, and_comm] using reads name
    refine ⟨f, g, onT, onU, Except.ok.inj texts, fun name other => ?_⟩
    exact Except.ok.inj (comparisons _ _ _ _ (readsBoth name) (readsBoth other))
  · have missing : ∀ p, Selector.resolve .employee "tags" ≠ .ok p := by rintro p ⟨⟩
    exact (compile_cast (t := .person) .empty .empty {} _ s).2.2 "tags" (by decide) missing

end EntityQuery
