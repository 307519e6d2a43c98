import EntityQuery.Proofs.Compile
import EntityQuery.Request

set_option autoImplicit false

namespace EntityQuery

open Resolving

namespace Resolving

variable {α β : Type} {c : Catalog}

theorem Answers.forIn {f : α → β → Resolving (ForInStep β)} {g : α → β → Except Error (ForInStep β)}
    (h : ∀ a b, Answers c (f a b) (g a b)) (items : List α) (b : β) :
    Answers c (forIn items b f) (forIn items b g) := by
  induction items generalizing b with
  | nil => exact answers_pure b
  | cons a rest ih =>
    rw [List.forIn_cons, List.forIn_cons]
    refine (h a b).bind fun step => ?_
    cases step with
    | done b => exact answers_pure b
    | yield b => exact ih b

theorem Answers.option_mapM {f : α → Resolving β} {g : α → Except Error β}
    (h : ∀ a, Answers c (f a) (g a)) (o : Option α) : Answers c (o.mapM f) (o.mapM g) := by
  cases o with
  | none => exact answers_pure none
  | some a => exact (h a).map some

end Resolving

namespace SortSpec

def resolvedItem (t : EntityType) (i : SortItem) : Except Error SortKey := do
  let p ← Selector.resolve t i.selector
  if p.kind.isScalar then
    return ⟨p, i.direction⟩
  else
    throw (.unsupportedSortKey p.kind.name p.selector)

def compiled (t : EntityType) (s : SortSpec) : Except Error Comparator := do
  if s.isEmpty then
    throw (.emptySort t.name)
  return ⟨← s.mapM (resolvedItem t)⟩

theorem answers_resolveItem (t : EntityType) (i : SortItem) :
    Answers t.catalog (resolveItem t i) (resolvedItem t i) := by
  refine (answers_resolve t true i.selector).bind fun p => ?_
  split
  next => exact answers_pure _
  next => exact answers_throw _

theorem answers_compile (t : EntityType) (s : SortSpec) :
    Answers t.catalog (compile t s) (compiled t s) := by
  unfold compile compiled
  split
  next => exact (answers_throw _).bind fun _ => (Answers.mapM (answers_resolveItem t) s).map _
  next => exact (Answers.mapM (answers_resolveItem t) s).map _

end SortSpec

namespace QueryRequest

def compiled (t : EntityType) (r : QueryRequest) : Except Error (Filter × Option Comparator) := do
  for path in r.includes do
    discard <| Selector.resolve t path
  let filter ← r.criteria.tree.compiled t .rootForSubtrees
  let comparator ← r.sort.mapM (SortSpec.compiled t)
  return (filter, comparator)

theorem answers_compile (t : EntityType) (r : QueryRequest) :
    Answers t.catalog (r.compile t) (r.compiled t) := by
  unfold compile compiled
  refine Answers.bind (Answers.forIn (fun path _ => ?_) r.includes _) fun _ => ?_
  next => exact ((answers_resolve t true path).map _).bind fun _ => answers_pure _
  next =>
    refine (r.criteria.tree.answers_compile t {}).bind fun filter => ?_
    refine (Answers.option_mapM (SortSpec.answers_compile t) r.sort).bind fun comparator => ?_
    exact answers_pure (filter, comparator)

theorem compiled_inv {t : EntityType} {r : QueryRequest} {f : Filter} {o : Option Comparator}
    (compiled : r.compiled t = .ok (f, o)) :
    r.criteria.tree.compiled t .rootForSubtrees = .ok f ∧
      r.sort.mapM (SortSpec.compiled t) = .ok o := by
  unfold QueryRequest.compiled at compiled
  obtain ⟨_, -, rest⟩ := ok_of_bind compiled
  obtain ⟨filter, accepted, rest⟩ := ok_of_bind rest
  obtain ⟨comparator, ordered, rest⟩ := ok_of_bind rest
  cases rest
  exact ⟨accepted, ordered⟩

def arrange (items : List Entity) : Filter × Option Comparator → List Entity
  | (filter, some c) => c.sorted (filter.filter items)
  | (filter, none) => filter.filter items

def selected (t : EntityType) (r : QueryRequest) (items : List Entity) :
    Except Error (List Entity) :=
  arrange items <$> r.compiled t

theorem selected_inv {t : EntityType} {r : QueryRequest} {items out : List Entity}
    (selected : r.selected t items = .ok out) :
    ∃ f o, r.criteria.tree.compiled t .rootForSubtrees = .ok f ∧
      r.sort.mapM (SortSpec.compiled t) = .ok o ∧ out = arrange items (f, o) := by
  obtain ⟨⟨f, o⟩, compiled, rfl⟩ := ok_of_map selected
  obtain ⟨accepted, ordered⟩ := compiled_inv compiled
  exact ⟨f, o, accepted, ordered, rfl⟩

theorem answers_select (t : EntityType) (r : QueryRequest) (items : List Entity) :
    Answers t.catalog (r.select t items) (r.selected t items) := by
  unfold select selected
  rw [← bind_pure_comp]
  refine (r.answers_compile t).bind fun (filter, comparator) => ?_
  cases comparator <;> exact answers_pure _

def selectedPage (t : EntityType) (r : QueryRequest) (items : List Entity) :
    Except Error (List Entity) := do
  if (r.sort.getD []).isEmpty then
    throw (.sortRequired t.name)
  let page ← r.validPage t
  return page.slice (← r.selected t items)

theorem answers_selectPage (t : EntityType) (r : QueryRequest) (items : List Entity) :
    Answers t.catalog (r.selectPage t items) (r.selectedPage t items) := by
  have rest : Answers t.catalog (do let page ← r.validPage t; return page.slice (← r.select t items))
      (do let page ← r.validPage t; return page.slice (← r.selected t items)) :=
    (answers_lift _).bind fun page => (r.answers_select t items).map page.slice
  unfold selectPage selectedPage
  split
  next => exact (answers_throw _).bind fun _ => rest
  next => exact rest

end QueryRequest

end EntityQuery
