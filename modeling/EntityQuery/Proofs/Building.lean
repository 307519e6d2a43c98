import EntityQuery.Proofs.Identity
import EntityQuery.Proofs.Splicing

/-!
Building criteria. Criteria are created, copied, extended by leaves and spliced, and extending one
changes its root in place. So an id goes on standing for one node exactly as long as no criteria is
extended beside another one that holds its root.
-/

set_option autoImplicit false

namespace EntityQuery

namespace Node

def content (n : Node) : String × Operator × Operand :=
  (n.selector, n.op, n.operand)

variable {a b : Node} {op : Combinator} {others : List Node}

theorem mem_push_nodes {m : Node} : m ∈ (a.push op b).nodes ++ others ↔
    m = a.push op b ∨ m ∈ nodesOf a.children ∨ m ∈ b.nodes ++ others := by
  have below : (a.push op b).children = a.children ++ [b] := rfl
  simp [nodes_eq (a.push op b), below, nodesOf_append, nodesOf]

theorem mem_of_push_nodes {m : Node} (member : m ∈ (a.push op b).nodes ++ others) :
    m = a.push op b ∨ m ∈ a.nodes ++ (b.nodes ++ others) := by
  rcases mem_push_nodes.1 member with rfl | below | aside
  · exact .inl rfl
  · exact .inr (by simp [nodes_eq a, below])
  · exact .inr (List.mem_append_right _ aside)

theorem push_ne : a.push op b ≠ a := by
  intro same
  have lengths := congrArg (fun n => n.children.length) same
  simp [push] at lengths

theorem identify_push (identify : IdsIdentify (a.nodes ++ (b.nodes ++ others)))
    (alone : ∀ n ∈ b.nodes ++ others, n.id ≠ a.id) :
    IdsIdentify ((a.push op b).nodes ++ others) := by
  have here : a ∈ a.nodes ++ (b.nodes ++ others) := by simp [mem_nodes_self]
  let rest := nodesOf a.children ++ (b.nodes ++ others)
  have known : ∀ m ∈ rest, m ∈ a.nodes ++ (b.nodes ++ others) := by
    intro m member
    simp only [nodes_eq a, List.cons_append]
    exact .tail _ member
  have fresh : ∀ m ∈ rest, m.id ≠ (a.push op b).id := by
    intro m member same
    rcases List.mem_append.1 member with below | aside
    · have smaller := count_lt_of_mem_children below
      rw [identify.eq (known m member) here same] at smaller
      exact Nat.lt_irrefl _ smaller
    · exact alone m aside same
  refine ((identify.mono known).cons fresh).mono fun m member => ?_
  simpa [rest] using mem_push_nodes.1 member

theorem alone_of_identify_push (before : IdsIdentify (a.nodes ++ (b.nodes ++ others)))
    (after : IdsIdentify ((a.push op b).nodes ++ others)) : ∀ n ∈ b.nodes ++ others, n.id ≠ a.id := by
  intro n aside same
  have old : n = a := before.eq (List.mem_append_right _ aside) (by simp [mem_nodes_self]) same
  have new : n = a.push op b :=
    after.eq (mem_push_nodes.2 (.inr (.inr aside))) (mem_push_nodes.2 (.inl rfl)) same
  exact push_ne (new.symm.trans old)

theorem determine_push (determine : IdsDetermine content (a.nodes ++ (b.nodes ++ others))) :
    IdsDetermine content ((a.push op b).nodes ++ others) := by
  have here : a ∈ a.nodes ++ (b.nodes ++ others) := by simp [mem_nodes_self]
  -- Every node has an older one with its id and its content.
  have older {m : Node} (member : m ∈ (a.push op b).nodes ++ others) :
      ∃ n ∈ a.nodes ++ (b.nodes ++ others), n.id = m.id ∧ n.content = m.content := by
    rcases mem_of_push_nodes member with rfl | known
    · exact ⟨a, here, rfl, rfl⟩
    · exact ⟨m, known, rfl, rfl⟩
  intro n hn m hm same
  obtain ⟨n', knownN, idN, contentN⟩ := older hn
  obtain ⟨m', knownM, idM, contentM⟩ := older hm
  rw [← contentN, ← contentM]
  exact determine n' knownN m' knownM (idN.trans (same.trans idM.symm))

end Node

open Node (IdsIdentify IdsDetermine)

namespace Criteria

def pool (held : List Criteria) : List Node :=
  held.flatMap fun c => c.tree.nodes

-- One call on the criteria held. Criteria that are extended or spliced are used up, and only those
-- for which `may` holds beside the others are extended. New nodes have ids that no node has.
inductive Step (t : EntityType) (may : Criteria → List Criteria → Prop) :
    List Criteria → List Criteria → Prop where
  | always {held : List Criteria} {id nodeId : Uuid} (fresh : ∀ n ∈ pool held, n.id ≠ nodeId) :
      Step t may held (always t id nodeId :: held)
  | never {held : List Criteria} {id nodeId : Uuid} (fresh : ∀ n ∈ pool held, n.id ≠ nodeId) :
      Step t may held (never t id nodeId :: held)
  | copy {held : List Criteria} {c : Criteria} (member : c ∈ held) : Step t may held (c :: held)
  | drop {held rest : List Criteria} {c : Criteria} (taken : held.Perm (c :: rest)) :
      Step t may held rest
  | leaf {held rest : List Criteria} {c d : Criteria} {id : Uuid} {next : Combinator}
      {selector : String} {op : Operator} {v : Operand} {k : PathCache}
      (taken : held.Perm (c :: rest)) (allowed : may c rest) (fresh : ∀ n ∈ pool held, n.id ≠ id)
      (joins : next ≠ .none) (appended : (appendLeaf t c id next selector op v).answer k = .ok d) :
      Step t may held (d :: rest)
  | splice {held rest : List Criteria} {c other d : Criteria} {next : Combinator}
      (taken : held.Perm (c :: other :: rest)) (allowed : may c (other :: rest))
      (joins : next ≠ .none) (spliced : c.appendCriteria other next = .ok d) :
      Step t may held (d :: rest)

inductive Built (t : EntityType) (may : Criteria → List Criteria → Prop) : List Criteria → Prop where
  | start : Built t may []
  | step {held held' : List Criteria} (before : Built t may held) (call : Step t may held held') :
      Built t may held'

def Freely (_ : Criteria) (_ : List Criteria) : Prop :=
  True

-- While no other criteria hold a node with the id of its root, such as copies of it do.
def Alone (c : Criteria) (others : List Criteria) : Prop :=
  ∀ n ∈ pool others, n.id ≠ c.tree.id

instance (c : Criteria) (others : List Criteria) : Decidable (Alone c others) :=
  inferInstanceAs (Decidable (∀ n ∈ pool others, n.id ≠ c.tree.id))

def Complete (t : EntityType) (c : Criteria) : Prop :=
  ∀ k options f, k.Reachable t.catalog → (c.compile t options).answer k = .ok f →
    ∀ n ∈ c.tree.nodes, ∃ own, n.condition t = .ok own ∧ own.clauses ⊆ f.clauses

variable {t : EntityType} {held held' : List Criteria}

theorem pool_perm (same : held.Perm held') {n : Node} : n ∈ pool held ↔ n ∈ pool held' :=
  (same.flatMap_right _).mem_iff

theorem appendCriteria_inv {c other d : Criteria} {next : Combinator}
    (spliced : c.appendCriteria other next = .ok d) : d.tree = c.tree.push next other.tree := by
  unfold appendCriteria at spliced
  split at spliced
  next =>
    cases spliced
    rfl
  next => cases spliced

theorem push_of_appendLeaf {c d : Criteria} {id : Uuid} {next : Combinator} {selector : String}
    {op : Operator} {v : Operand} {k : PathCache}
    (appended : (appendLeaf t c id next selector op v).answer k = .ok d) :
    ∃ p w, leafOperand p op v = .ok w ∧
      d = c.push next (.leaf id (Text.trimmed selector) op w next) := by
  simp only [appendLeaf] at appended
  split at appended
  next =>
    obtain ⟨_, _, failed, -⟩ := Resolving.ok_of_answer_bind appended
    cases failed
  next =>
    obtain ⟨p, _, -, rest⟩ := Resolving.ok_of_answer_bind appended
    obtain ⟨w, _, coerced, rest⟩ := Resolving.ok_of_answer_bind rest
    cases rest
    exact ⟨p, w, coerced, rfl⟩

theorem appendLeaf_inv {c d : Criteria} {id : Uuid} {next : Combinator} {selector : String}
    {op : Operator} {v : Operand} {k : PathCache}
    (appended : (appendLeaf t c id next selector op v).answer k = .ok d) :
    ∃ b : Node, d.tree = c.tree.push next b ∧ b.id = id ∧ b.next = next ∧ b.nodes = [b] := by
  obtain ⟨p, w, -, rfl⟩ := push_of_appendLeaf appended
  exact ⟨_, rfl, rfl, rfl, rfl⟩

theorem Step.inv {may : Criteria → List Criteria → Prop} (call : Step t may held held') :
    ∃ made : Option Node, (∀ n ∈ made, n.next ≠ .none ∧ ∀ m ∈ pool held, m.id ≠ n.id) ∧
      ((∀ n ∈ pool held', n ∈ made.toList ++ pool held) ∨
        ∃ c others b rest next, may c others ∧ held.Perm (c :: others) ∧ next ≠ .none ∧
          made.toList ++ pool others = b.nodes ++ rest ∧
          pool held' = (c.tree.push next b).nodes ++ rest) := by
  cases call with
  | @always _ nodeId fresh =>
    refine ⟨some (.sentinel nodeId true), ?_, .inl fun n here => here⟩
    simpa [Node.sentinel] using fresh
  | @never _ nodeId fresh =>
    refine ⟨some (.sentinel nodeId false), ?_, .inl fun n here => here⟩
    simpa [Node.sentinel] using fresh
  | @copy c member =>
    refine ⟨none, nofun, .inl fun n inside => ?_⟩
    rcases List.mem_append.1 inside with copied | known
    · exact List.mem_flatMap.2 ⟨c, member, copied⟩
    · exact known
  | drop taken =>
    exact ⟨none, nofun, .inl fun n inside => (pool_perm taken).2 (List.mem_append_right _ inside)⟩
  | @leaf rest c d _ next _ _ _ _ taken allowed fresh joins appended =>
    obtain ⟨b, tree, rfl, rfl, alone⟩ := appendLeaf_inv appended
    refine ⟨some b, by simpa [joins] using fresh, .inr ⟨c, rest, b, pool rest, b.next, allowed, taken,
      joins, by rw [alone]; rfl, ?_⟩⟩
    simp only [pool, List.flatMap_cons, tree]
  | @splice rest c other d next taken allowed joins spliced =>
    refine ⟨none, nofun, .inr ⟨c, other :: rest, other.tree, pool rest, next, allowed, taken, joins,
      rfl, ?_⟩⟩
    simp only [pool, List.flatMap_cons, appendCriteria_inv spliced]

theorem determine_made {β : Type} {f : Node → β} {ns : List Node} (h : IdsDetermine f ns)
    {made : Option Node} (fresh : ∀ n ∈ made, ∀ m ∈ ns, m.id ≠ n.id) :
    IdsDetermine f (made.toList ++ ns) := by
  cases made with
  | none => exact h
  | some n => exact h.cons (fresh n rfl)

theorem mem_made_of_taken {c : Criteria} {others : List Criteria} {made b rest : List Node}
    (taken : held.Perm (c :: others)) (aside : made ++ pool others = b ++ rest) {n : Node}
    (member : n ∈ c.tree.nodes ++ (b ++ rest)) : n ∈ made ++ pool held := by
  have known := pool_perm taken (n := n)
  rw [← aside] at member
  simp only [pool, List.flatMap_cons, List.mem_append] at known member ⊢
  tauto

theorem identify_of_step (call : Step t Alone held held') (identify : IdsIdentify (pool held)) :
    IdsIdentify (pool held') := by
  obtain ⟨made, fresh, known | ⟨c, others, b, rest, next, alone, taken, -, aside, after⟩⟩ := call.inv
  · exact (determine_made identify fun n new => (fresh n new).2).mono known
  · have before := (determine_made identify fun n new => (fresh n new).2).mono
      fun n => mem_made_of_taken taken aside
    rw [after]
    refine Node.identify_push before fun n beside same => ?_
    rw [← aside] at beside
    rcases List.mem_append.1 beside with new | held
    · have root : c.tree ∈ pool _ := (pool_perm taken).2 (by simp [pool, Node.mem_nodes_self])
      exact (fresh n (Option.mem_toList.1 new)).2 c.tree root same.symm
    · exact alone n held same

theorem determine_of_step {may : Criteria → List Criteria → Prop} (call : Step t may held held')
    (determine : IdsDetermine Node.content (pool held)) :
    IdsDetermine Node.content (pool held') := by
  obtain ⟨made, fresh, known | ⟨c, others, b, rest, next, -, taken, -, aside, after⟩⟩ := call.inv
  · exact (determine_made determine fun n new => (fresh n new).2).mono known
  · rw [after]
    exact Node.determine_push ((determine_made determine fun n new => (fresh n new).2).mono
      fun n => mem_made_of_taken taken aside)

theorem joins_of_step {may : Criteria → List Criteria → Prop} (call : Step t may held held')
    (joins : ∀ n ∈ pool held, n.next ≠ .none) : ∀ n ∈ pool held', n.next ≠ .none := by
  obtain ⟨made, fresh, change⟩ := call.inv
  have old {n : Node} (known : n ∈ made.toList ++ pool held) : n.next ≠ .none := by
    rcases List.mem_append.1 known with new | held
    · exact (fresh n (Option.mem_toList.1 new)).1
    · exact joins n held
  intro n member
  rcases change with known | ⟨c, others, b, rest, next, -, taken, joined, aside, after⟩
  · exact old (known n member)
  · rw [after] at member
    rcases Node.mem_of_push_nodes member with rfl | known
    · exact joined
    · exact old (mem_made_of_taken taken aside known)

-- Extended beside criteria that hold its root, the root stands for two nodes.
theorem alone_of_identify (call : Step t Freely held held') (before : IdsIdentify (pool held))
    (after : IdsIdentify (pool held')) : Step t Alone held held' := by
  cases call with
  | always fresh => exact .always fresh
  | never fresh => exact .never fresh
  | copy member => exact .copy member
  | drop taken => exact .drop taken
  | @leaf rest c d _ next _ _ _ _ taken _ fresh joins appended =>
    obtain ⟨b, tree, rfl, rfl, alone⟩ := appendLeaf_inv appended
    have aside : [b] ++ pool rest = b.nodes ++ pool rest := by rw [alone]
    refine .leaf taken (fun n beside => ?_) fresh joins appended
    simp only [pool, List.flatMap_cons, tree] at after
    exact Node.alone_of_identify_push ((before.cons fresh).mono fun m => mem_made_of_taken taken aside)
      after n (List.mem_append_right _ beside)
  | @splice rest c other d next taken _ joins spliced =>
    refine .splice taken (fun n beside => ?_) joins spliced
    simp only [pool, List.flatMap_cons, appendCriteria_inv spliced] at after
    have aside : [] ++ pool (other :: rest) = other.tree.nodes ++ pool rest := rfl
    exact Node.alone_of_identify_push (before.mono fun m => mem_made_of_taken taken aside) after n
      beside

theorem identify_of_built (built : Built t Alone held) : IdsIdentify (pool held) := by
  induction built with
  | start => exact nofun
  | step _ call ih => exact identify_of_step call ih

theorem determine_of_built {may : Criteria → List Criteria → Prop} (built : Built t may held) :
    IdsDetermine Node.content (pool held) := by
  induction built with
  | start => exact nofun
  | step _ call ih => exact determine_of_step call ih

theorem joins_of_built {may : Criteria → List Criteria → Prop} (built : Built t may held) :
    ∀ n ∈ pool held, n.next ≠ .none := by
  induction built with
  | start => exact nofun
  | step _ call ih => exact joins_of_step call ih

theorem complete_of_built (built : Built t Alone held) {c : Criteria} (member : c ∈ held) :
    Complete t c := by
  intro k options f reached compiled n here
  have inside : ∀ m ∈ c.tree.nodes, m ∈ pool held :=
    fun m below => List.mem_flatMap.2 ⟨c, member, below⟩
  rw [compile, (c.tree.answers_compile t options).answer_eq reached] at compiled
  exact Node.clauses_of_compiled ((identify_of_built built).mono inside)
    (fun m below => joins_of_built built m (inside m below)) compiled here

/-- Built so that no criteria is extended beside others that hold its root, criteria keep one node
for each id, and their filters miss no condition. A call that extends one beside others breaks this
at once. Whatever is called, nodes with one id have the same condition, if not the same below it. -/
theorem built_identify (t : EntityType) :
    (∀ held, Built t Alone held → IdsIdentify (pool held) ∧ ∀ c ∈ held, Complete t c) ∧
      (∀ held held', IdsIdentify (pool held) → Step t Freely held held' →
        (IdsIdentify (pool held') ↔ Step t Alone held held')) ∧
      ∀ held, Built t Freely held → IdsDetermine Node.content (pool held) := by
  refine ⟨fun held built => ⟨identify_of_built built, fun c member => ?_⟩,
    fun held held' before call => ⟨alone_of_identify call before, fun alone => ?_⟩,
    fun held built => determine_of_built built⟩
  · exact complete_of_built built member
  · exact identify_of_step alone before

def everyone : Criteria :=
  always .person ⟨10⟩ ⟨0⟩

def adults : Criteria :=
  everyone.push .and (.leaf ⟨1⟩ "age" .greaterThan (.number (.uint 30)) .and)

theorem append_adults :
    (appendLeaf .person everyone ⟨1⟩ .and "age" .greaterThan (.number (.uint 30))).answer .empty =
      .ok adults :=
  rfl

theorem built_identify_shared : ∃ c f, Built .person Alone [c] ∧
    c.tree.ids = [⟨2⟩, ⟨0⟩, ⟨1⟩, ⟨0⟩, ⟨1⟩] ∧ IdsIdentify (pool [c]) ∧
    (c.compile .person {}).answer .empty = .ok f ∧ f.clauses.length = 1 ∧
    (∀ n ∈ c.tree.nodes, ∃ own, n.condition .person = .ok own ∧ own.clauses ⊆ f.clauses) ∧
    (IdsIdentify (pool [c, c]) ↔ Step .person Alone [c] [c, c]) ∧
    IdsDetermine Node.content (pool [c]) := by
  let all : Criteria := always .person ⟨11⟩ ⟨2⟩
  let once := all.push .and adults.tree
  let twice := once.push .and adults.tree
  have shared {may : Criteria → List Criteria → Prop} (here : may everyone [])
      (first : may all [adults, adults]) (second : may once [adults]) : Built .person may [twice] := by
    have one : Built .person may [everyone] := .step .start (.always nofun)
    have extended : Built .person may [adults] :=
      .step one (.leaf (.refl _) here (by decide) (by decide) append_adults)
    have both : Built .person may [all, adults, adults] :=
      .step (.step extended (.copy (.head _))) (.always (by decide))
    have spliced : Built .person may [once, adults] :=
      .step both (.splice (.refl _) first (by decide) rfl)
    exact .step spliced (.splice (.refl _) second (by decide) rfl)
  have built : Built .person Alone [twice] := shared nofun (by decide) (by decide)
  obtain ⟨f, compiled⟩ : ∃ f, (twice.compile .person {}).answer .empty = .ok f := ⟨_, rfl⟩
  obtain ⟨identify, complete⟩ := (built_identify .person).1 [twice] built
  have copied : Step .person Freely [twice] [twice, twice] := .copy (.head _)
  refine ⟨twice, f, built, rfl, identify, compiled, ?_, ?_, ?_, ?_⟩
  · cases compiled
    rfl
  · exact complete twice (.head _) .empty {} f .empty compiled
  · exact (built_identify .person).2.1 [twice] [twice, twice] identify copied
  · exact (built_identify .person).2.2 [twice] (shared trivial trivial trivial)

-- A copy that was extended has the id of what it was copied from. Spliced with it, its condition is
-- taken for one that was compiled.
theorem built_ambiguous : ∃ c f, Built .person Freely [c] ∧ ¬IdsIdentify c.tree.nodes ∧
    (c.compile .person {}).answer .empty = .ok f ∧ f.clauses = [] ∧
    ∃ n ∈ c.tree.nodes, ∃ own, n.condition .person = .ok (.clause own) := by
  let spliced := everyone.push .and adults.tree
  have copied : Built .person Freely [everyone, everyone] :=
    .step (.step .start (.always nofun)) (.copy (.head _))
  have extended : Built .person Freely [adults, everyone] :=
    .step copied (.leaf (.refl _) trivial (by decide) (by decide) append_adults)
  have built : Built .person Freely [spliced] :=
    .step extended (.splice (.swap _ _ _) trivial (by decide) rfl)
  refine ⟨spliced, _, built, fun identify => ?_, rfl, rfl,
    .leaf ⟨1⟩ "age" .greaterThan (.number (.uint 30)) .and, ?_, _, rfl⟩
  · have same : spliced.tree = adults.tree :=
      identify.eq (.head _) (.tail _ (.head _)) rfl
    exact absurd (congrArg (fun n => n.children.map Node.id) same) (by decide)
  · exact .tail _ (.tail _ (.head _))

end Criteria

end EntityQuery
