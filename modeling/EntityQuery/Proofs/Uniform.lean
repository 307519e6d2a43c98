import EntityQuery.Proofs.Meaning
import EntityQuery.Proofs.Walk

set_option autoImplicit false

namespace EntityQuery

namespace Combinator

theorem value_assoc (c : Combinator) (a b d : Bool) :
    c.value (c.value a b) d = c.value a (c.value b d) := by
  cases c
  · exact Bool.and_assoc a b d
  · exact Bool.or_assoc a b d
  · rfl

instance (c : Combinator) : Std.Associative c.value := ⟨c.value_assoc⟩

theorem foldl_and (before : Bool) (bs : List Bool) :
    bs.foldl and.value before = true ↔ ∀ b ∈ before :: bs, b = true := by
  induction bs generalizing before with
  | nil => simp
  | cons b bs ih => simp [ih, value, and_assoc]

theorem foldl_or (before : Bool) (bs : List Bool) :
    bs.foldl or.value before = true ↔ true ∈ before :: bs := by
  induction bs generalizing before with
  | nil => simp [eq_comm (a := true)]
  | cons b bs ih => simp [ih, value, or_assoc, eq_comm (a := true)]

end Combinator

namespace Plan

open Node (nodesOf)

variable {join join' : Node → Combinator}

mutual

theorem ofNode_congr (seen : List Uuid) {n : Node}
    (alike : ∀ m ∈ nodesOf n.children, join m = join' m) : ofNode join seen n = ofNode join' seen n := by
  match n with
  | ⟨id, selector, op, operand, next, children⟩ =>
    simp only [ofNode, ofChildren_congr seen alike]

theorem ofChildren_congr (seen : List Uuid) {ns : List Node}
    (alike : ∀ m ∈ nodesOf ns, join m = join' m) :
    ofChildren join seen ns = ofChildren join' seen ns := by
  match ns with
  | [] => rfl
  | n :: ns =>
    simp only [nodesOf, Node.nodes_eq n, List.cons_append, List.mem_cons, List.mem_append] at alike
    have here : join n = join' n := alike n (.inl rfl)
    have below (seen : List Uuid) := ofNode_congr seen fun m inside => alike m (.inr (.inl inside))
    have rest (seen : List Uuid) :=
      ofChildren_congr seen fun m later => alike m (.inr (.inr later))
    simp only [ofChildren, here, below, rest]

end

end Plan

namespace Node

variable {own : Node → Except Error Bool} {join : Node → Combinator} {c : Combinator}

mutual

-- Being associative, one combinator joins a tree as it joins the list of its nodes.
theorem fold_uniform {n : Node} (uniform : ∀ m ∈ nodesOf n.children, join m = c) :
    n.fold own join = do
      let before ← own n
      let bs ← (nodesOf n.children).mapM own
      return bs.foldl c.value before := by
  match n with
  | ⟨id, selector, op, operand, next, children⟩ =>
    simp only [fold, bind_pure_comp]
    exact bind_congr fun before => foldChildren_uniform uniform before

theorem foldChildren_uniform {ns : List Node} (uniform : ∀ m ∈ nodesOf ns, join m = c)
    (before : Bool) :
    foldChildren own join before ns =
      (fun bs => bs.foldl c.value before) <$> (nodesOf ns).mapM own := by
  match ns with
  | [] => simp [foldChildren, nodesOf]
  | n :: ns =>
    simp only [nodesOf, nodes_eq n, List.cons_append, List.mem_cons, List.mem_append] at uniform
    have here : join n = c := uniform n (.inl rfl)
    have below := fold_uniform fun m inside => uniform m (.inr (.inl inside))
    have rest (b : Bool) :=
      foldChildren_uniform (fun m later => uniform m (.inr (.inr later))) b
    simp only [foldChildren, here, below, rest, nodesOf, nodes_eq n, List.cons_append,
      List.mapM_cons, List.mapM_append, bind_assoc, map_bind, bind_map_left, bind_pure_comp,
      List.foldl_cons, List.foldl_append, List.foldl_assoc, Functor.map_map]

end

def bare (n : Node) : Node :=
  { n with children := [] }

inductive Reordered : List Node → List Node → Prop where
  | nil : Reordered [] []
  | cons (n : Node) {children ns ms : List Node} (below : Reordered n.children children)
      (rest : Reordered ns ms) : Reordered (n :: ns) ({ n with children } :: ms)
  | swap (n m : Node) (ns : List Node) : Reordered (n :: m :: ns) (m :: n :: ns)
  | trans {ns ms ks : List Node} (first : Reordered ns ms) (second : Reordered ms ks) :
      Reordered ns ks

namespace Reordered

theorem refl : (ns : List Node) → Reordered ns ns
  | [] => .nil
  | ⟨id, selector, op, operand, next, children⟩ :: ns =>
    .cons ⟨id, selector, op, operand, next, children⟩ (refl children) (refl ns)

theorem of_perm {ns ms : List Node} (perm : ns.Perm ms) : Reordered ns ms := by
  induction perm with
  | nil => exact .nil
  | cons n _ rest =>
    obtain ⟨id, selector, op, operand, next, children⟩ := n
    exact .cons ⟨id, selector, op, operand, next, children⟩ (refl children) rest
  | swap n m ns => exact .swap m n ns
  | trans _ _ first second => exact .trans first second

theorem perm {ns ms : List Node} (reordered : Reordered ns ms) :
    ((nodesOf ns).map bare).Perm ((nodesOf ms).map bare) := by
  induction reordered with
  | nil => exact .nil
  | cons n _ _ below rest =>
    simp only [nodesOf, nodes_eq, List.map_cons, List.map_append, List.cons_append]
    exact (below.append rest).cons _
  | swap n m ns =>
    simp only [nodesOf, ← List.append_assoc]
    exact (List.perm_append_comm.append_right _).map _
  | trans _ _ first second => exact first.trans second

end Reordered

def Reorders (n m : Node) : Prop :=
  Reordered [n] [m]

theorem Reorders.perm {n m : Node} (reorders : n.Reorders m) :
    (n.nodes.map bare).Perm (m.nodes.map bare) := by
  simpa [nodesOf] using Reordered.perm reorders

variable {n m : Node} {holds : Node → Prop}

theorem Reorders.forall_iff (reorders : n.Reorders m) (alone : ∀ k : Node, holds k.bare ↔ holds k) :
    (∀ k ∈ n.nodes, holds k) ↔ ∀ k ∈ m.nodes, holds k := by
  have listed (ks : List Node) : (∀ k ∈ ks.map bare, holds k) ↔ ∀ k ∈ ks, holds k := by
    simp [alone]
  rw [← listed n.nodes, ← listed m.nodes]
  exact forall_congr' fun k => by rw [reorders.perm.mem_iff]

theorem Reorders.exists_iff (reorders : n.Reorders m) (alone : ∀ k : Node, holds k.bare ↔ holds k) :
    (∃ k ∈ n.nodes, holds k) ↔ ∃ k ∈ m.nodes, holds k := by
  have none : (∀ k ∈ n.nodes, ¬holds k) ↔ ∀ k ∈ m.nodes, ¬holds k :=
    reorders.forall_iff fun k => not_congr (alone k)
  simpa using not_congr none

theorem Reorders.ids_perm (reorders : n.Reorders m) : n.ids.Perm m.ids := by
  have same := reorders.perm.map id
  simpa only [List.map_map, Function.comp_def, bare, map_id_nodes] using same

def Uniform (c : Combinator) (root : Node) : Prop :=
  ∀ n ∈ root.nodes, n.next = c

theorem Uniform.joinBelow_eq {root : Node} (uniform : root.Uniform c) (strategy : MergeStrategy)
    {n : Node} (below : n ∈ nodesOf root.children) : joinBelow strategy root n = c := by
  have own : n.next = c := uniform n (by simp [nodes_eq root, below])
  have outer : root.next = c := uniform root root.mem_nodes_self
  unfold joinBelow
  split <;> assumption

section Compiled

variable {t : EntityType} {root : Node}

theorem mem_visited_of_distinct (distinct : root.ids.Nodup) {n : Node} :
    n ∈ root.visited ↔ n ∈ root.nodes := by
  refine ⟨mem_nodes_of_visited, fun member => ?_⟩
  rw [← Plan.members_ofTree .childOperator]
  exact Plan.mem_members_ofTree .childOperator (identify_of_distinct distinct) member

theorem compiled_uniform (uniform : root.Uniform c) (strategy strategy' : MergeStrategy) :
    root.compiled t strategy = root.compiled t strategy' := by
  have alike : Plan.ofTree strategy root = Plan.ofTree strategy' root := by
    refine congrArg Prod.fst (Plan.ofNode_congr [root.id] fun n below => ?_)
    rw [Plan.combinator_eq_joinBelow, Plan.combinator_eq_joinBelow,
      uniform.joinBelow_eq strategy below, uniform.joinBelow_eq strategy' below]
  rw [compiled, compiled, alike]

theorem decisions_of_uniform (distinct : root.ids.Nodup) (uniform : root.Uniform c)
    {strategy : MergeStrategy} {f : Filter} (compiled : root.compiled t strategy = .ok f)
    (e : Entity) : ∃ before bs, root.nodes.map (meets t e) = (before :: bs).map .ok ∧
      f.accepts e = bs.foldl c.value before := by
  have folded : root.fold (meets t e) (joinBelow strategy root) = .ok (f.accepts e) := by
    rw [← meaning_of_distinct t strategy root e distinct, compiled_meaning, compiled]
    rfl
  rw [fold_uniform fun n below => uniform.joinBelow_eq strategy below] at folded
  obtain ⟨before, own, folded⟩ := Resolving.ok_of_bind folded
  obtain ⟨bs, below, folded⟩ := Resolving.ok_of_bind folded
  refine ⟨before, bs, ?_, (Except.ok.inj folded).symm⟩
  rw [nodes_eq, List.map_cons, List.map_cons, own, map_eq_of_mapM below]

theorem accepts_conjunction (distinct : root.ids.Nodup) (uniform : root.Uniform .and)
    {strategy : MergeStrategy} {f : Filter} (compiled : root.compiled t strategy = .ok f)
    (e : Entity) : f.accepts e = true ↔ ∀ n ∈ root.nodes, n.meets t e = .ok true := by
  obtain ⟨before, bs, decided, joined⟩ := decisions_of_uniform distinct uniform compiled e
  have alone : (∀ b ∈ before :: bs, b = true) ↔
      ∀ d ∈ (before :: bs).map (Except.ok (ε := Error)), d = .ok true := by
    rw [List.forall_mem_map]
    simp only [Except.ok.injEq]
  rw [joined, Combinator.foldl_and, alone, ← decided]
  exact List.forall_mem_map

theorem accepts_disjunction (distinct : root.ids.Nodup) (uniform : root.Uniform .or)
    {strategy : MergeStrategy} {f : Filter} (compiled : root.compiled t strategy = .ok f)
    (e : Entity) : f.accepts e = true ↔ ∃ n ∈ root.nodes, n.meets t e = .ok true := by
  obtain ⟨before, bs, decided, joined⟩ := decisions_of_uniform distinct uniform compiled e
  have alone : true ∈ before :: bs ↔ .ok true ∈ (before :: bs).map (Except.ok (ε := Error)) := by
    simp
  rw [joined, Combinator.foldl_or, alone, ← decided]
  exact List.mem_map

theorem Reorders.uniform {other : Node} (reorders : root.Reorders other)
    (uniform : root.Uniform c) : other.Uniform c :=
  (reorders.forall_iff fun _ => Iff.rfl).1 uniform

theorem exists_compiled_of_distinct (distinct : root.ids.Nodup) {strategy : MergeStrategy} :
    (∃ f, root.compiled t strategy = .ok f) ↔ ∀ n ∈ root.nodes, ∃ f, n.condition t = .ok f := by
  simp only [exists_compiled_iff, mem_visited_of_distinct distinct]

theorem Reorders.compiled_alike {other : Node} (reorders : root.Reorders other)
    (joins : c ≠ .none) (distinct : root.ids.Nodup) (uniform : root.Uniform c)
    {strategy : MergeStrategy} {f : Filter} (compiled : root.compiled t strategy = .ok f) :
    ∃ g, other.compiled t strategy = .ok g ∧ ∀ e, g.accepts e = f.accepts e := by
  have distinct' : other.ids.Nodup := reorders.ids_perm.nodup_iff.1 distinct
  have uniform' : other.Uniform c := reorders.uniform uniform
  have each := (exists_compiled_of_distinct distinct).1 ⟨f, compiled⟩
  obtain ⟨g, compiled'⟩ : ∃ g, other.compiled t strategy = .ok g :=
    (exists_compiled_of_distinct distinct').2 ((reorders.forall_iff fun _ => Iff.rfl).1 each)
  refine ⟨g, compiled', fun e => Bool.eq_iff_iff.2 ?_⟩
  cases c with
  | and =>
    rw [accepts_conjunction distinct' uniform' compiled', accepts_conjunction distinct uniform compiled]
    exact (reorders.forall_iff fun _ => Iff.rfl).symm
  | or =>
    rw [accepts_disjunction distinct' uniform' compiled', accepts_disjunction distinct uniform compiled]
    exact (reorders.exists_iff fun _ => Iff.rfl).symm
  | none => exact absurd rfl joins

/-- A tree of distinct ids whose nodes all carry And accepts what each of its nodes accepts by itself;
one whose nodes all carry Or, what one of them accepts. It compiles where all its nodes do, to one
filter for either strategy, and decides the same in whatever order its children are given. -/
theorem accepts_of_uniform (distinct : root.ids.Nodup) (uniform : root.Uniform c) {k : PathCache}
    (reached : k.Reachable t.catalog) (options : CompileOptions) :
    ((∃ f, (root.compile t options).answer k = .ok f) ↔
      ∀ n ∈ root.nodes, ∃ own, (n.own t options.cachePaths).answer k = .ok own) ∧
    (∀ options' k', k'.Reachable t.catalog →
      (root.compile t options').answer k' = (root.compile t options).answer k) ∧
    ∀ f, (root.compile t options).answer k = .ok f →
      (c = .and → ∀ e, f.accepts e = true ↔ ∀ n ∈ root.nodes, n.meets t e = .ok true) ∧
      (c = .or → ∀ e, f.accepts e = true ↔ ∃ n ∈ root.nodes, n.meets t e = .ok true) ∧
      (c ≠ .none → ∀ other, root.Reorders other →
        ∃ g, (other.compile t options).answer k = .ok g ∧ ∀ e, g.accepts e = f.accepts e) := by
  have compile_eq (n : Node) (options' : CompileOptions) {k' : PathCache}
      (reached' : k'.Reachable t.catalog) :=
    (n.answers_compile t options').answer_eq reached'
  have own_eq (n : Node) := (n.answers_own t options.cachePaths).answer_eq reached
  simp only [compile_eq _ options reached, own_eq]
  refine ⟨exists_compiled_of_distinct distinct, fun options' k' reached' => ?_,
    fun f compiled => ⟨?_, ?_, fun joins other reorders => ?_⟩⟩
  · rw [compile_eq root options' reached']
    exact compiled_uniform uniform _ _
  · rintro rfl
    exact accepts_conjunction distinct uniform compiled
  · rintro rfl
    exact accepts_disjunction distinct uniform compiled
  · exact reorders.compiled_alike joins distinct uniform compiled

def nest (c : Combinator) (turned : Bool) : Node :=
  let ages : Node := .leaf ⟨1⟩ "age" .greaterThan (.number (.uint 30)) c
  let names : Node := ⟨⟨2⟩, "name", .startsWith, .string "A", c,
    [.leaf ⟨3⟩ "boss.name" .equal (.string "Ada") c]⟩
  ⟨⟨0⟩, "", .none, .bool (c == .and), c, if turned then [names, ages] else [ages, names]⟩

theorem accepts_of_uniform_nest : ∃ f g h,
    ((nest .and false).compile .person {}).answer .empty = .ok f ∧
    ((nest .and true).compile .person {}).answer .empty = .ok g ∧
    ((nest .or false).compile .person {}).answer .empty = .ok h ∧
    (∀ e, f.accepts e = true ↔ ∀ n ∈ (nest .and false).nodes, n.meets .person e = .ok true) ∧
    (∀ e, g.accepts e = f.accepts e) ∧
    ∀ e, h.accepts e = true ↔ ∃ n ∈ (nest .or false).nodes, n.meets .person e = .ok true := by
  have distinct (c : Combinator) : (nest c false).ids.Nodup := by cases c <;> decide
  have uniform (c : Combinator) : (nest c false).Uniform c := by
    simp [Uniform, nest, nodes, nodesOf, leaf]
  have turned : (nest .and false).Reorders (nest .and true) :=
    .cons _ (.of_perm (.swap _ _ [])) .nil
  obtain ⟨-, -, joined⟩ := accepts_of_uniform (distinct .and) (uniform .and) (t := .person) .empty {}
  obtain ⟨-, -, joined'⟩ := accepts_of_uniform (distinct .or) (uniform .or) (t := .person) .empty {}
  obtain ⟨f, compiled⟩ : ∃ f, ((nest .and false).compile .person {}).answer .empty = .ok f := ⟨_, rfl⟩
  obtain ⟨h, compiled'⟩ : ∃ h, ((nest .or false).compile .person {}).answer .empty = .ok h := ⟨_, rfl⟩
  obtain ⟨all, -, reordered⟩ := joined f compiled
  obtain ⟨g, compiledTurned, same⟩ := reordered nofun _ turned
  exact ⟨f, g, h, compiled, compiledTurned, compiled', all rfl, same, (joined' h compiled').2.1 rfl⟩

end Compiled

end Node

end EntityQuery
