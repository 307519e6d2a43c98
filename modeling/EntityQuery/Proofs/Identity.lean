import Mathlib.Data.List.Nodup
import EntityQuery.Proofs.Compile

/-!
The nodes of a tree and the nodes that its plan takes in. Where equal ids mean equal nodes, what is
left out of a plan stands elsewhere in it, so that no condition of the tree is lost.
-/

set_option autoImplicit false

namespace EntityQuery

open Resolving (ok_of_bind ok_of_map)

namespace Node

mutual

def nodes : Node → List Node
  | ⟨id, selector, op, operand, next, children⟩ =>
    ⟨id, selector, op, operand, next, children⟩ :: nodesOf children

def nodesOf : List Node → List Node
  | [] => []
  | n :: ns => n.nodes ++ nodesOf ns

end

theorem nodes_eq (n : Node) : n.nodes = n :: nodesOf n.children := by
  cases n
  rfl

theorem mem_nodes_self (n : Node) : n ∈ n.nodes := by
  simp [nodes_eq]

theorem nodesOf_append (ns ms : List Node) : nodesOf (ns ++ ms) = nodesOf ns ++ nodesOf ms := by
  induction ns with
  | nil => rfl
  | cons n ns ih => simp only [List.cons_append, nodesOf, ih, List.append_assoc]

theorem mem_nodesOf {ns : List Node} {m : Node} : m ∈ nodesOf ns ↔ ∃ n ∈ ns, m ∈ n.nodes := by
  induction ns with
  | nil => simp [nodesOf]
  | cons n ns ih => simp [nodesOf, ih]

mutual

theorem map_id_nodes (n : Node) : n.nodes.map id = n.ids := by
  match n with
  | ⟨i, selector, op, operand, next, children⟩ =>
    simp only [nodes, ids, List.map_cons, map_id_nodesOf children]

theorem map_id_nodesOf (ns : List Node) : (nodesOf ns).map id = idsOf ns := by
  match ns with
  | [] => rfl
  | n :: ns => simp only [nodesOf, idsOf, List.map_append, map_id_nodes n, map_id_nodesOf ns]

end

theorem count_eq (n : Node) : n.count = 1 + countAll n.children := by
  cases n
  rfl

mutual

theorem count_le_of_mem_nodes {n m : Node} (member : m ∈ n.nodes) : m.count ≤ n.count := by
  match n with
  | ⟨id, selector, op, operand, next, children⟩ =>
    rcases List.mem_cons.1 member with rfl | below
    · exact Nat.le_refl _
    · have inside := count_le_of_mem_nodesOf below
      simp only [count]
      omega

theorem count_le_of_mem_nodesOf {ns : List Node} {m : Node} (member : m ∈ nodesOf ns) :
    m.count ≤ countAll ns := by
  match ns with
  | [] => cases member
  | n :: ns =>
    simp only [countAll]
    rcases List.mem_append.1 member with first | rest
    · have inside := count_le_of_mem_nodes first
      omega
    · have inside := count_le_of_mem_nodesOf rest
      omega

end

theorem count_lt_of_mem_children {n m : Node} (below : m ∈ nodesOf n.children) :
    m.count < n.count := by
  have inside := count_le_of_mem_nodesOf below
  rw [count_eq n]
  omega

def IdsDetermine {β : Type} (f : Node → β) (ns : List Node) : Prop :=
  ∀ n ∈ ns, ∀ m ∈ ns, n.id = m.id → f n = f m

abbrev IdsIdentify (ns : List Node) : Prop :=
  IdsDetermine (fun n => n) ns

theorem IdsDetermine.eq {ns : List Node} (identify : IdsIdentify ns) {n m : Node} (hn : n ∈ ns)
    (hm : m ∈ ns) (same : n.id = m.id) : n = m :=
  identify n hn m hm same

theorem identify_of_distinct {root : Node} (distinct : root.ids.Nodup) : IdsIdentify root.nodes := by
  rw [← map_id_nodes] at distinct
  exact fun n hn m hm same => List.inj_on_of_nodup_map distinct hn hm same

theorem IdsDetermine.mono {β : Type} {f : Node → β} {ns ms : List Node} (h : IdsDetermine f ns)
    (fewer : ∀ m ∈ ms, m ∈ ns) : IdsDetermine f ms :=
  fun n hn m hm => h n (fewer n hn) m (fewer m hm)

theorem IdsDetermine.cons {β : Type} {f : Node → β} {ns : List Node} {n : Node}
    (h : IdsDetermine f ns) (fresh : ∀ m ∈ ns, m.id ≠ n.id) : IdsDetermine f (n :: ns) := by
  intro m hm k hk same
  rcases List.mem_cons.1 hm with first | hm <;> rcases List.mem_cons.1 hk with second | hk
  · rw [first, second]
  · exact absurd (same.symm.trans (congrArg Node.id first)) (fresh k hk)
  · exact absurd (same.trans (congrArg Node.id second)) (fresh m hm)
  · exact h m hm k hk same

end Node

namespace Plan

open Node (nodesOf mem_nodesOf countAll IdsIdentify)

variable {α : Type}

mutual

def members : Plan α → List α
  | node a parts => a :: membersOf parts

def membersOf : List (Combinator × Plan α) → List α
  | [] => []
  | (_, p) :: parts => p.members ++ membersOf parts

end

def Covered (planned : Node → Prop) (n : Node) : Prop :=
  ∀ m ∈ n.nodes, planned m

theorem Covered.mono {planned planned' : Node → Prop} {n : Node} (covered : Covered planned n)
    (more : ∀ m, planned m → planned' m) : Covered planned' n :=
  fun m below => more m (covered m below)

variable {all : List Node}

mutual

-- A node whose id was met is either planned, with all below it, or one of those that the walk is
-- inside of. These are larger than what is still ahead, so no id that lies ahead is theirs.
theorem covered_ofNode (identify : IdsIdentify all) (join : Node → Combinator) {seen : List Uuid}
    {n : Node} {planned : Node → Prop} (inside : ∀ m ∈ n.nodes, m ∈ all)
    (before : ∀ m ∈ all, m.id ∈ seen → Covered planned m ∨ n.count ≤ m.count) :
    Covered (fun m => planned m ∨ m ∈ (ofNode join seen n).1.members) n ∧
      ∀ m ∈ all, m.id ∈ (ofNode join seen n).2 → m.id ∈ seen ∨
        Covered (fun m => planned m ∨ m ∈ (ofNode join seen n).1.members) m := by
  match n with
  | ⟨id, selector, op, operand, next, children⟩ =>
    have below : ∀ m ∈ nodesOf children, m ∈ all := fun m member => inside m (.tail _ member)
    obtain ⟨parts, after⟩ := covered_ofChildren identify join below
      (Nat.lt_one_add_iff.2 (Nat.le_refl _)) before
    simp only [ofNode_eq, members]
    refine ⟨fun m member => ?_, fun m known met => ?_⟩
    · rcases List.mem_cons.1 member with rfl | member
      · exact .inr (.head _)
      · obtain ⟨child, listed, inChild⟩ := mem_nodesOf.1 member
        exact (parts child listed m inChild).imp_right (List.mem_cons_of_mem _)
    · refine (after m known met).imp_right fun covered => covered.mono fun k => ?_
      exact Or.imp_right (List.mem_cons_of_mem _)

theorem covered_ofChildren (identify : IdsIdentify all) (join : Node → Combinator)
    {seen : List Uuid} {ns : List Node} {bound : Nat} {planned : Node → Prop}
    (inside : ∀ m ∈ nodesOf ns, m ∈ all) (smaller : countAll ns < bound)
    (before : ∀ m ∈ all, m.id ∈ seen → Covered planned m ∨ bound ≤ m.count) :
    (∀ n ∈ ns, Covered (fun m => planned m ∨ m ∈ membersOf (ofChildren join seen ns).1) n) ∧
      ∀ m ∈ all, m.id ∈ (ofChildren join seen ns).2 → m.id ∈ seen ∨
        Covered (fun m => planned m ∨ m ∈ membersOf (ofChildren join seen ns).1) m := by
  match ns with
  | [] => exact ⟨nofun, fun m _ met => .inl met⟩
  | n :: ns =>
    simp only [nodesOf, List.mem_append] at inside
    simp only [countAll] at smaller
    have here : n ∈ all := inside n (.inl n.mem_nodes_self)
    have ahead : ∀ m ∈ nodesOf ns, m ∈ all := fun m below => inside m (.inr below)
    have fits : countAll ns < bound := by omega
    by_cases repeated : n.id ∈ seen
    · simp only [ofChildren, repeated, if_true]
      have first : Covered planned n := by
        refine (before n here repeated).resolve_right ?_
        omega
      obtain ⟨rest, after⟩ := covered_ofChildren identify join ahead fits before
      exact ⟨List.forall_mem_cons.2 ⟨first.mono fun m => Or.inl, rest⟩, after⟩
    · simp only [ofChildren, repeated, if_false, membersOf, List.mem_append]
      generalize started : ofNode join (n.id :: seen) n = result
      have entered : ∀ m ∈ all, m.id ∈ n.id :: seen → Covered planned m ∨ n.count ≤ m.count := by
        intro m known met
        rcases List.mem_cons.1 met with same | earlier
        · rw [identify.eq known here same]
          exact .inr (Nat.le_refl _)
        · exact (before m known earlier).imp_right fun larger => by omega
      obtain ⟨first, afterFirst⟩ := covered_ofNode identify join
        (fun m below => inside m (.inl below)) entered
      rw [started] at first afterFirst
      have left : ∀ m ∈ all, m.id ∈ result.2 → m.id ∈ seen ∨
          Covered (fun m => planned m ∨ m ∈ result.1.members) m := by
        intro m known met
        rcases afterFirst m known met with met | covered
        · rcases List.mem_cons.1 met with same | earlier
          · rw [identify.eq known here same]
            exact .inr first
          · exact .inl earlier
        · exact .inr covered
      have continued : ∀ m ∈ all, m.id ∈ result.2 →
          Covered (fun m => planned m ∨ m ∈ result.1.members) m ∨ bound ≤ m.count := by
        intro m known met
        rcases left m known met with earlier | covered
        · exact (before m known earlier).imp_left fun covered => covered.mono fun m => Or.inl
        · exact .inl covered
      obtain ⟨rest, after⟩ := covered_ofChildren identify join ahead fits continued
      simp only [or_assoc] at rest after
      refine ⟨List.forall_mem_cons.2 ⟨first.mono fun m => ?_, rest⟩, fun m known met => ?_⟩
      · exact Or.imp_right Or.inl
      · rcases after m known met with earlier | covered
        · exact (left m known earlier).imp_right fun covered => covered.mono fun m => Or.imp_right Or.inl
        · exact .inr covered

end

theorem mem_members_ofTree (strategy : MergeStrategy) {root : Node}
    (identify : IdsIdentify root.nodes) {n : Node} (member : n ∈ root.nodes) :
    n ∈ (ofTree strategy root).members := by
  have entered : ∀ m ∈ root.nodes, m.id ∈ [root.id] →
      Covered (fun _ => False) m ∨ root.count ≤ m.count := by
    intro m known met
    rw [identify.eq known root.mem_nodes_self (List.mem_singleton.1 met)]
    exact .inr (Nat.le_refl _)
  have covered := (covered_ofNode identify (combinator strategy root.next) (fun _ below => below)
    entered).1
  exact (covered n member).resolve_left id

mutual

def Joined : Plan α → Prop
  | node _ parts => JoinedParts parts

def JoinedParts : List (Combinator × Plan α) → Prop
  | [] => True
  | (c, p) :: parts => c ≠ .none ∧ p.Joined ∧ JoinedParts parts

end

mutual

theorem joined_ofNode {join : Node → Combinator} {seen : List Uuid} {n : Node}
    (joins : ∀ m ∈ nodesOf n.children, join m ≠ .none) : (ofNode join seen n).1.Joined := by
  match n with
  | ⟨id, selector, op, operand, next, children⟩ =>
    simp only [ofNode_eq, Joined]
    exact joined_ofChildren joins

theorem joined_ofChildren {join : Node → Combinator} {seen : List Uuid} {ns : List Node}
    (joins : ∀ m ∈ nodesOf ns, join m ≠ .none) : JoinedParts (ofChildren join seen ns).1 := by
  match ns with
  | [] => trivial
  | n :: ns =>
    simp only [nodesOf, List.mem_append] at joins
    have rest : ∀ m ∈ nodesOf ns, join m ≠ .none := fun m below => joins m (.inr below)
    by_cases repeated : n.id ∈ seen
    · simp only [ofChildren, repeated, if_true]
      exact joined_ofChildren rest
    · simp only [ofChildren, repeated, if_false, JoinedParts]
      refine ⟨joins n (.inl n.mem_nodes_self), joined_ofNode fun m below => ?_,
        joined_ofChildren rest⟩
      exact joins m (.inl (by simp [Node.nodes_eq, below]))

end

theorem clauses_join {c : Combinator} (joins : c ≠ .none) (before part : Filter) :
    (join c before part).clauses = before.clauses ++ part.clauses := by
  cases c <;> simp_all [join]

mutual

theorem clauses_of_mapM {own : α → Except Error Filter} {p : Plan α} {q : Plan Filter}
    (mapped : p.mapM own = .ok q) (joined : p.Joined) {a : α} (member : a ∈ p.members) :
    ∃ f, own a = .ok f ∧ f.clauses ⊆ q.filter.clauses := by
  match p with
  | node b parts =>
    obtain ⟨f, first, rest⟩ := ok_of_bind mapped
    obtain ⟨qs, others, rest⟩ := ok_of_bind rest
    cases rest
    obtain ⟨before, inside⟩ := clauses_of_mapParts others joined f
    rcases List.mem_cons.1 member with rfl | below
    · exact ⟨f, first, before⟩
    · exact inside a below

theorem clauses_of_mapParts {own : α → Except Error Filter} {parts : List (Combinator × Plan α)}
    {qs : List (Combinator × Plan Filter)} (mapped : mapParts own parts = .ok qs)
    (joined : JoinedParts parts) (before : Filter) :
    before.clauses ⊆ (joinParts before qs).clauses ∧ ∀ a ∈ membersOf parts,
      ∃ f, own a = .ok f ∧ f.clauses ⊆ (joinParts before qs).clauses := by
  match parts with
  | [] =>
    cases mapped
    exact ⟨fun _ here => here, nofun⟩
  | (c, p) :: parts =>
    obtain ⟨q, first, rest⟩ := ok_of_bind mapped
    obtain ⟨qs, others, rest⟩ := ok_of_bind rest
    cases rest
    obtain ⟨joins, joinedFirst, joinedRest⟩ := joined
    obtain ⟨left, inside⟩ := clauses_of_mapParts others joinedRest (join c before q.filter)
    rw [clauses_join joins] at left
    refine ⟨fun k here => left (List.mem_append_left _ here), fun a member => ?_⟩
    rcases List.mem_append.1 member with here | later
    · obtain ⟨f, compiled, clauses⟩ := clauses_of_mapM first joinedFirst here
      exact ⟨f, compiled, fun k present => left (List.mem_append_right _ (clauses present))⟩
    · exact inside a later

end

end Plan

theorem Node.clauses_of_compiled {t : EntityType} {strategy : MergeStrategy} {root : Node}
    {f : Filter} (identify : IdsIdentify root.nodes) (joins : ∀ n ∈ root.nodes, n.next ≠ .none)
    (compiled : root.compiled t strategy = .ok f) {n : Node} (member : n ∈ root.nodes) :
    ∃ own, n.condition t = .ok own ∧ own.clauses ⊆ f.clauses := by
  obtain ⟨q, mapped, rfl⟩ := ok_of_map compiled
  refine Plan.clauses_of_mapM mapped (Plan.joined_ofNode fun m below => ?_)
    (Plan.mem_members_ofTree strategy identify member)
  have inner : m.next ≠ .none := joins m (by simp [nodes_eq, below])
  have outer : root.next ≠ .none := joins root root.mem_nodes_self
  cases strategy with
  | rootForSubtrees => simp [Plan.combinator]; split <;> assumption
  | childOperator => exact inner

end EntityQuery
