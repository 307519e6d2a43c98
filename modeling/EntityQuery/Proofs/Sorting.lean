import EntityQuery.Proofs.Ordering

/-!
Sorting. Entities that are as their schema says are preordered by every compiled comparator, so that
only one arrangement of them is ordered and keeps those that tie as they were: the one sorting gives.
-/

set_option autoImplicit false

namespace EntityQuery

open Std (TransCmp)

theorem SortKey.compare_swap (k : SortKey) (a b : Entity) : k.compare b a = (k.compare a b).swap := by
  rw [compare, compare, Value.compare_swap (k.path.get a)]
  cases Value.compare (k.path.get a) (k.path.get b) with
  | none => rfl
  | some o => exact k.direction.apply_swap o

namespace Comparator

variable {c : Comparator} {p : Entity → Prop} {a b e x : Entity}

theorem compare_swap (c : Comparator) (a b : Entity) : c.compare b a = (c.compare a b).swap := by
  obtain ⟨keys⟩ := c
  induction keys with
  | nil => rfl
  | cons k keys ih =>
    simp only [compare, List.foldr_cons] at ih ⊢
    rw [k.compare_swap a b, ih, Ordering.swap_then]

theorem compare_self (c : Comparator) (a : Entity) : c.compare a a = .eq := by
  have swapped := c.compare_swap a a
  cases same : c.compare a a <;> rw [same] at swapped <;> first | rfl | cases swapped

def TransitiveOn (c : Comparator) (p : Entity → Prop) : Prop :=
  ∀ a b d, p a → p b → p d → c.compare a b ≠ .gt → c.compare b d ≠ .gt → c.compare a d ≠ .gt

def ties (c : Comparator) (a b : Entity) : Bool :=
  c.compare a b == .eq

-- An arrangement in which no entity comes before one that should precede it, and in which those
-- that tie with each other stand as they stood.
structure StablySorted (c : Comparator) (items out : List Entity) : Prop where
  perm : out.Perm items
  ordered : out.Pairwise fun a b => c.compare a b ≠ .gt
  stable : ∀ e ∈ items, out.filter (c.ties e) = items.filter (c.ties e)

theorem eq_of_not_gt (first : c.compare a b ≠ .gt) (second : c.compare b a ≠ .gt) :
    c.compare a b = .eq := by
  rw [c.compare_swap a b] at second
  cases known : c.compare a b with
  | lt => simp [known] at second
  | eq => rfl
  | gt => exact absurd known first

theorem compare_eq_of_ties (trans : c.TransitiveOn p) (hx : p x) (ha : p a) (hb : p b)
    (first : c.ties x a = true) (second : c.ties x b = true) : c.compare a b = .eq := by
  rw [ties, beq_iff_eq] at first second
  have first' : c.compare a x = .eq := by rw [c.compare_swap x a, first]; rfl
  have second' : c.compare b x = .eq := by rw [c.compare_swap x b, second]; rfl
  exact eq_of_not_gt (trans a x b ha hx hb (by simp [first']) (by simp [second]))
    (trans b x a hb hx ha (by simp [second']) (by simp [first]))

theorem forall_mem_insert {before : List Entity} (he : p e) (members : ∀ f ∈ before, p f) :
    ∀ f ∈ c.insert e before, p f := by
  intro f member
  exact List.forall_mem_cons.2 ⟨he, members⟩ f ((c.insert_perm e before).subset member)

theorem insert_ordered (trans : c.TransitiveOn p) {before : List Entity} (he : p e)
    (members : ∀ f ∈ before, p f)
    (ordered : before.Pairwise fun later earlier => c.compare earlier later ≠ .gt) :
    (c.insert e before).Pairwise fun later earlier => c.compare earlier later ≠ .gt := by
  induction before with
  | nil => exact List.pairwise_singleton _ e
  | cons f fs ih =>
    obtain ⟨last, rest⟩ := List.pairwise_cons.1 ordered
    obtain ⟨hf, others⟩ := List.forall_mem_cons.1 members
    unfold insert
    split
    next earlier =>
      have first : c.compare e f ≠ .gt := by simp [earlier]
      exact List.pairwise_cons.2 ⟨forall_mem_insert first last, ih others rest⟩
    next later =>
      have notBefore : c.compare f e ≠ .gt := by
        rw [c.compare_swap e f]
        cases known : c.compare e f <;> simp_all
      refine List.pairwise_cons.2 ⟨fun g member => ?_, ordered⟩
      rcases List.mem_cons.1 member with rfl | inside
      · exact notBefore
      · exact trans g f e (others g inside) hf he (last g inside) notBefore

-- Entities that tie keep their places, since none is put beyond one that it ties with.
theorem filter_insert (trans : c.TransitiveOn p) {before : List Entity} (he : p e) (hx : p x)
    (members : ∀ f ∈ before, p f) :
    (c.insert e before).filter (c.ties x) = (e :: before).filter (c.ties x) := by
  induction before with
  | nil => rfl
  | cons f fs ih =>
    obtain ⟨hf, others⟩ := List.forall_mem_cons.1 members
    unfold insert
    split
    next earlier =>
      have apart : ¬(c.ties x e = true ∧ c.ties x f = true) := by
        rintro ⟨first, second⟩
        have tie := compare_eq_of_ties trans hx he hf first second
        rw [earlier] at tie
        cases tie
      rw [List.filter_cons, ih others]
      by_cases here : c.ties x e = true <;> by_cases there : c.ties x f = true <;>
        simp_all
    next => rfl

theorem foldl_insert_ordered (trans : c.TransitiveOn p) {items before : List Entity}
    (members : ∀ e ∈ items, p e) (earlier : ∀ e ∈ before, p e)
    (ordered : before.Pairwise fun later earlier => c.compare earlier later ≠ .gt) :
    (items.foldl (fun before e => c.insert e before) before).Pairwise
      fun later earlier => c.compare earlier later ≠ .gt := by
  induction items generalizing before with
  | nil => exact ordered
  | cons e items ih =>
    obtain ⟨he, others⟩ := List.forall_mem_cons.1 members
    exact ih others (forall_mem_insert he earlier) (insert_ordered trans he earlier ordered)

theorem filter_foldl_insert (trans : c.TransitiveOn p) {items before : List Entity} (hx : p x)
    (members : ∀ e ∈ items, p e) (earlier : ∀ e ∈ before, p e) :
    (items.foldl (fun before e => c.insert e before) before).filter (c.ties x) =
      (items.reverse ++ before).filter (c.ties x) := by
  induction items generalizing before with
  | nil => rfl
  | cons e items ih =>
    obtain ⟨he, others⟩ := List.forall_mem_cons.1 members
    rw [List.foldl_cons, ih others (forall_mem_insert he earlier), List.filter_append,
      filter_insert trans he hx earlier, ← List.filter_append, List.reverse_cons, List.append_assoc,
      List.singleton_append]

theorem sorted_stable (trans : c.TransitiveOn p) {items : List Entity}
    (members : ∀ e ∈ items, p e) : c.StablySorted items (c.sorted items) where
  perm := c.sorted_perm items
  ordered := List.pairwise_reverse.2 (foldl_insert_ordered trans members (by simp) .nil)
  stable e member := by
    rw [sorted, List.filter_reverse, filter_foldl_insert trans (members e member) members (by simp),
      ← List.filter_reverse, List.append_nil, List.reverse_reverse]

-- Of two ordered arrangements of the same entities, both put first one that ties with the first of
-- the other. So they begin alike if those that tie stand alike.
theorem eq_of_stable {xs ys : List Entity} (perm : xs.Perm ys)
    (orderedX : xs.Pairwise fun a b => c.compare a b ≠ .gt)
    (orderedY : ys.Pairwise fun a b => c.compare a b ≠ .gt)
    (stable : ∀ e ∈ xs, xs.filter (c.ties e) = ys.filter (c.ties e)) : xs = ys := by
  induction xs generalizing ys with
  | nil => exact perm.nil_eq
  | cons a xs ih =>
    cases ys with
    | nil => exact absurd perm.length_eq (by simp)
    | cons b ys =>
      obtain ⟨leastX, restX⟩ := List.pairwise_cons.1 orderedX
      obtain ⟨leastY, restY⟩ := List.pairwise_cons.1 orderedY
      have selfTies (e : Entity) : c.ties e e = true := by simp [ties, c.compare_self]
      have tie : c.compare a b = .eq := by
        refine eq_of_not_gt ?_ ?_
        · rcases List.mem_cons.1 (perm.symm.subset (.head ys)) with rfl | inside
          · simp [c.compare_self]
          · exact leastX b inside
        · rcases List.mem_cons.1 (perm.subset (.head xs)) with rfl | inside
          · simp [c.compare_self]
          · exact leastY a inside
      have same : a = b := by
        have heads := stable a (.head xs)
        rw [List.filter_cons_of_pos (selfTies a), List.filter_cons_of_pos (by simp [ties, tie])] at heads
        exact (List.cons.inj heads).1
      subst same
      refine congrArg (a :: ·) (ih perm.cons_inv restX restY fun e member => ?_)
      have whole := stable e (.tail a member)
      rw [List.filter_cons, List.filter_cons] at whole
      split at whole
      next => exact (List.cons.inj whole).2
      next => exact whole

theorem stablySorted_iff (trans : c.TransitiveOn p) {items out : List Entity}
    (members : ∀ e ∈ items, p e) : c.StablySorted items out ↔ out = c.sorted items := by
  have least := sorted_stable trans members
  constructor
  · intro sorted
    refine eq_of_stable (sorted.perm.trans least.perm.symm) sorted.ordered least.ordered ?_
    intro e member
    have inside := sorted.perm.subset member
    rw [sorted.stable e inside, least.stable e inside]
  · rintro rfl
    exact least

theorem transitiveOn_conforming {t : EntityType} (resolved : ∀ k ∈ c.keys, k.Resolved t) :
    c.TransitiveOn (Entity.Conforms t) := by
  intro a b d ha hb hd
  rw [compare_eq_order resolved ha hb, compare_eq_order resolved hb hd,
    compare_eq_order resolved ha hd]
  exact TransCmp.le_trans

/-- A compiled order is a total preorder on the entities that are as their schema says: by the first
key that does not tie, nulls first and NaN last or the exact reverse. What is sorted by it, or
selected by a request with this order, is the only stable arrangement. -/
theorem sorted_unique {t : EntityType} {k : PathCache} (reached : k.Reachable t.catalog)
    {s : SortSpec} {c : Comparator} (compiled : (s.compile t).answer k = .ok c) :
    (∀ a b d, a.Conforms t → b.Conforms t → d.Conforms t →
      c.compare a a = .eq ∧ c.compare b a = (c.compare a b).swap ∧
      (c.compare a b ≠ .gt → c.compare b d ≠ .gt → c.compare a d ≠ .gt) ∧
      (c.compare a b = .lt ↔ Before c.keys a b)) ∧
    (∀ items, (∀ e ∈ items, e.Conforms t) →
      ∀ out, c.StablySorted items out ↔ out = c.sorted items) ∧
    ∀ (r : QueryRequest) items selected, r.sort = some s → (∀ e ∈ items, e.Conforms t) →
      (r.select t items).answer k = .ok selected →
      ∃ f, (r.criteria.compile t {}).answer k = .ok f ∧
        ∀ out, c.StablySorted (f.filter items) out ↔ out = selected := by
  rw [(s.answers_compile t).answer_eq reached] at compiled
  have resolved := SortSpec.resolved_of_compiled compiled
  have trans := transitiveOn_conforming resolved
  refine ⟨fun a b d ha hb hd => ?_, fun items members out => stablySorted_iff trans members,
    fun r items selected ordered members answered => ?_⟩
  · refine ⟨c.compare_self a, c.compare_swap a b, trans a b d ha hb hd, ?_⟩
    rw [compare_eq_order resolved ha hb, order_eq_lt resolved ha hb]
  · rw [(r.answers_select t items).answer_eq reached] at answered
    obtain ⟨f, o, accepted, comparator, rfl⟩ := QueryRequest.selected_inv answered
    have given : o = some c := by
      rw [ordered] at comparator
      simpa [compiled] using comparator.symm
    subst given
    refine ⟨f, ((r.criteria.tree.answers_compile t {}).answer_eq reached).trans accepted, ?_⟩
    intro out
    exact stablySorted_iff trans fun e member => members e (List.mem_of_mem_filter member)

theorem sorted_unique_people :
    let ada := Entity.ofPerson 1 "Ada" .null
    let edsger := Entity.ofPerson 2 "Edsger" .null
    let grace := Entity.ofPerson 3 "Grace" (.ofEntity ada)
    let s : SortSpec := [⟨"boss . name", .descending⟩]
    let c : Comparator :=
      ⟨[⟨⟨"boss.name", [.member "boss", .member "name"], .string, true⟩, .descending⟩]⟩
    let r : QueryRequest := ⟨.always .person ⟨0⟩ ⟨1⟩, some s, none, []⟩
    (s.compile .person).answer .empty = .ok c ∧ Before c.keys grace ada ∧
      (∀ out, c.StablySorted [ada, edsger, grace] out ↔ out = [grace, ada, edsger]) ∧
      ∃ f : Filter, (r.criteria.compile .person {}).answer .empty = .ok f ∧
        ∀ out, c.StablySorted (f.filter [ada, edsger, grace]) out ↔ out = [grace, ada, edsger] := by
  intro ada edsger grace s c r
  have hAda : ada.Conforms .person := Entity.ofPerson_conforms 1 "Ada" .null
  have hEdsger : edsger.Conforms .person := Entity.ofPerson_conforms 2 "Edsger" .null
  have hGrace : grace.Conforms .person :=
    Entity.ofPerson_conforms 3 "Grace" (hAda.or_nullable true)
  have members : ∀ e ∈ [ada, edsger, grace], e.Conforms .person := by simp [hAda, hEdsger, hGrace]
  have compiled : (s.compile .person).answer .empty = .ok c := rfl
  have selected : (r.select .person [ada, edsger, grace]).answer .empty =
    .ok [grace, ada, edsger] := rfl
  obtain ⟨preordered, sorted, requested⟩ := sorted_unique .empty compiled
  have before : Before c.keys grace ada := (preordered grace ada ada hGrace hAda hAda).2.2.2.1 rfl
  exact ⟨compiled, before, sorted _ members, requested r _ _ rfl members selected⟩

end Comparator

end EntityQuery
