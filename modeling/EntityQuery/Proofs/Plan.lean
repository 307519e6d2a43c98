import EntityQuery.Plan

set_option autoImplicit false

namespace EntityQuery

namespace Node

mutual

def ids : Node → List Uuid
  | ⟨id, _, _, _, _, children⟩ => id :: idsOf children

def idsOf : List Node → List Uuid
  | [] => []
  | n :: ns => n.ids ++ idsOf ns

end

theorem ids_eq (n : Node) : n.ids = n.id :: idsOf n.children := by
  cases n
  rfl

theorem id_mem_ids (n : Node) : n.id ∈ n.ids := by
  simp [ids_eq]

theorem idsOf_append (ns ms : List Node) : idsOf (ns ++ ms) = idsOf ns ++ idsOf ms := by
  induction ns with
  | nil => rfl
  | cons n ns ih => simp only [List.cons_append, idsOf, ih, List.append_assoc]

end Node

namespace Plan

open Node (ids idsOf ids_eq)

theorem ofNode_eq (join : Node → Combinator) (seen : List Uuid) (n : Node) :
    ofNode join seen n =
      (node n (ofChildren join seen n.children).1, (ofChildren join seen n.children).2) := by
  cases n
  rfl

mutual

theorem mem_ofNode {join : Node → Combinator} {seen : List Uuid} {n : Node} {i : Uuid}
    (met : i ∈ (ofNode join seen n).2) : i ∈ seen ∨ i ∈ n.ids := by
  match n with
  | ⟨id, selector, op, operand, next, children⟩ =>
    have inner : i ∈ (ofChildren join seen children).2 := met
    rcases mem_ofChildren inner with before | inside
    · exact .inl before
    · exact .inr (List.mem_cons_of_mem id inside)

theorem mem_ofChildren {join : Node → Combinator} {seen : List Uuid} {ns : List Node} {i : Uuid}
    (met : i ∈ (ofChildren join seen ns).2) : i ∈ seen ∨ i ∈ idsOf ns := by
  match ns with
  | [] => exact .inl met
  | n :: ns =>
    simp only [idsOf, List.mem_append]
    by_cases repeated : n.id ∈ seen
    · simp only [ofChildren, repeated, if_true] at met
      rcases mem_ofChildren met with before | inside
      · exact .inl before
      · exact .inr (.inr inside)
    · simp only [ofChildren, repeated, if_false] at met
      rcases mem_ofChildren met with first | inside
      · rcases mem_ofNode first with before | inside
        · rcases List.mem_cons.1 before with rfl | before
          · exact .inr (.inl n.id_mem_ids)
          · exact .inl before
        · exact .inr (.inl inside)
      · exact .inr (.inr inside)

end

def SeenAlike (ids seen seen' : List Uuid) : Prop :=
  ∀ i ∈ ids, i ∈ seen ↔ i ∈ seen'

mutual

-- Ids that do not occur in a tree do not matter where it is planned, and they stay as they are.
theorem ofNode_seen (join : Node → Combinator) (seen seen' : List Uuid) (n : Node)
    (alike : SeenAlike (idsOf n.children) seen seen') :
    (ofNode join seen n).1 = (ofNode join seen' n).1 ∧ ∀ i, (i ∈ seen ↔ i ∈ seen') →
      (i ∈ (ofNode join seen n).2 ↔ i ∈ (ofNode join seen' n).2) := by
  match n with
  | ⟨id, selector, op, operand, next, children⟩ =>
    obtain ⟨parts, after⟩ := ofChildren_seen join seen seen' children alike
    simp only [ofNode_eq, parts]
    exact ⟨trivial, after⟩

theorem ofChildren_seen (join : Node → Combinator) (seen seen' : List Uuid) (ns : List Node)
    (alike : SeenAlike (idsOf ns) seen seen') :
    (ofChildren join seen ns).1 = (ofChildren join seen' ns).1 ∧ ∀ i, (i ∈ seen ↔ i ∈ seen') →
      (i ∈ (ofChildren join seen ns).2 ↔ i ∈ (ofChildren join seen' ns).2) := by
  match ns with
  | [] => exact ⟨rfl, fun _ same => same⟩
  | n :: ns =>
    simp only [SeenAlike, idsOf, List.mem_append] at alike
    have rest : SeenAlike (idsOf ns) seen seen' := fun i inside => alike i (.inr inside)
    have same : n.id ∈ seen ↔ n.id ∈ seen' := alike n.id (.inl n.id_mem_ids)
    by_cases repeated : n.id ∈ seen
    · have repeated' := same.1 repeated
      simpa only [ofChildren, repeated, repeated', if_true] using
        ofChildren_seen join seen seen' ns rest
    · have repeated' := mt same.2 repeated
      have inside : SeenAlike (idsOf n.children) (n.id :: seen) (n.id :: seen') := by
        intro i below
        simp [alike i (.inl (by simp [ids_eq, below]))]
      obtain ⟨first, after⟩ := ofNode_seen join (n.id :: seen) (n.id :: seen') n inside
      have met (i : Uuid) (same : i ∈ seen ↔ i ∈ seen') :=
        after i (by simp only [List.mem_cons, same])
      obtain ⟨parts, afterAll⟩ := ofChildren_seen join (ofNode join (n.id :: seen) n).2
        (ofNode join (n.id :: seen') n).2 ns fun i below => met i (rest i below)
      simp only [ofChildren, repeated, repeated', if_false, first, parts]
      exact ⟨trivial, fun i same => afterAll i (met i same)⟩

end

theorem ofChildren_append (join : Node → Combinator) (seen : List Uuid) (ns ms : List Node) :
    ofChildren join seen (ns ++ ms) =
      ((ofChildren join seen ns).1 ++ (ofChildren join (ofChildren join seen ns).2 ms).1,
        (ofChildren join (ofChildren join seen ns).2 ms).2) := by
  induction ns generalizing seen with
  | nil => rfl
  | cons n ns ih =>
    by_cases repeated : n.id ∈ seen
    · simp only [List.cons_append, ofChildren, repeated, if_true, ih]
    · simp only [List.cons_append, ofChildren, repeated, if_false, ih]

theorem ofChildren_of_leaves {join join' : Node → Combinator} {ns : List Node}
    (leaves : ∀ n ∈ ns, n.children = []) (alike : ∀ n ∈ ns, join n = join' n) (seen : List Uuid) :
    ofChildren join seen ns = ofChildren join' seen ns := by
  induction ns generalizing seen with
  | nil => rfl
  | cons n ns ih =>
    have rest := ih (fun m member => leaves m (.tail n member)) fun m member => alike m (.tail n member)
    have leaf := leaves n (.head ns)
    simp only [ofChildren, ofNode_eq, leaf, alike n (.head ns), rest]

theorem joinParts_append (before : Filter) (parts more : List (Combinator × Plan Filter)) :
    joinParts before (parts ++ more) = joinParts (joinParts before parts) more := by
  induction parts generalizing before with
  | nil => rfl
  | cons part parts ih => simp only [List.cons_append, joinParts, ih]

theorem mapParts_append {α β : Type} {m : Type → Type} [Monad m] [LawfulMonad m] (f : α → m β)
    (parts more : List (Combinator × Plan α)) :
    mapParts f (parts ++ more) = do return (← mapParts f parts) ++ (← mapParts f more) := by
  induction parts with
  | nil => simp [mapParts]
  | cons part parts ih => simp [mapParts, ih]

section Fold

variable {α β γ : Type}

mutual

def foldWith (op : Combinator → β → β → β) : Plan β → β
  | node own parts => foldParts op own parts

def foldParts (op : Combinator → β → β → β) (before : β) : List (Combinator × Plan β) → β
  | [] => before
  | (c, p) :: parts => foldParts op (op c before (p.foldWith op)) parts

end

mutual

theorem filter_eq_fold (p : Plan Filter) : p.filter = p.foldWith join := by
  match p with
  | node own parts => exact joinParts_eq_fold own parts

theorem joinParts_eq_fold (before : Filter) (parts : List (Combinator × Plan Filter)) :
    joinParts before parts = foldParts join before parts := by
  match parts with
  | [] => rfl
  | (c, p) :: parts => simp only [joinParts, foldParts, filter_eq_fold p, joinParts_eq_fold _ parts]

end

variable {m : Type → Type} [Monad m] [LawfulMonad m] {op : Combinator → β → β → β}
  {op' : Combinator → γ → γ → γ} {h : β → γ}

mutual

theorem foldWith_mapM (respects : ∀ c a b, h (op c a b) = op' c (h a) (h b)) (f : α → m β)
    (p : Plan α) : foldWith op' <$> p.mapM (fun a => h <$> f a) =
      (fun q => h (q.foldWith op)) <$> p.mapM f := by
  match p with
  | node a parts =>
    simp only [mapM, map_bind, map_pure, bind_map_left, foldWith]
    refine bind_congr fun b => ?_
    simpa only [bind_pure_comp] using foldParts_mapParts respects f b parts

theorem foldParts_mapParts (respects : ∀ c a b, h (op c a b) = op' c (h a) (h b)) (f : α → m β)
    (before : β) (parts : List (Combinator × Plan α)) :
    foldParts op' (h before) <$> mapParts (fun a => h <$> f a) parts =
      (fun qs => h (foldParts op before qs)) <$> mapParts f parts := by
  match parts with
  | [] => simp [mapParts, foldParts]
  | (c, p) :: parts =>
    have step (q : Plan β) : foldParts op' (op' c (h before) (h (q.foldWith op))) <$>
        mapParts (fun a => h <$> f a) parts =
          (fun qs => h (foldParts op (op c before (q.foldWith op)) qs)) <$> mapParts f parts := by
      rw [← respects]
      exact foldParts_mapParts respects f (op c before (q.foldWith op)) parts
    calc foldParts op' (h before) <$> mapParts (fun a => h <$> f a) ((c, p) :: parts)
      _ = (foldWith op' <$> p.mapM fun a => h <$> f a) >>= fun b =>
            foldParts op' (op' c (h before) b) <$> mapParts (fun a => h <$> f a) parts := by
        simp only [mapParts, map_bind, bind_map_left, bind_pure_comp, Functor.map_map, foldParts]
      _ = p.mapM f >>= fun q => foldParts op' (op' c (h before) (h (q.foldWith op))) <$>
            mapParts (fun a => h <$> f a) parts := by
        rw [foldWith_mapM respects f p, bind_map_left]
      _ = p.mapM f >>= fun q =>
            (fun qs => h (foldParts op (op c before (q.foldWith op)) qs)) <$> mapParts f parts :=
        bind_congr step
      _ = (fun qs => h (foldParts op before qs)) <$> mapParts f ((c, p) :: parts) := by
        simp only [mapParts, map_bind, bind_pure_comp, Functor.map_map, foldParts]

end

end Fold

end Plan

end EntityQuery
