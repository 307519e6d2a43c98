import EntityQuery.Criteria
import EntityQuery.Sort

set_option autoImplicit false

namespace EntityQuery

structure Pagination where
  pageNumber : UInt64
  itemsPerPage : UInt64
  deriving DecidableEq, Repr

namespace Pagination

def validate (p : Pagination) : Except Error Unit :=
  if p.pageNumber = 0 ∨ p.itemsPerPage = 0 then
    .error (.invalidPage p.pageNumber.toNat p.itemsPerPage.toNat)
  else
    .ok ()

-- The number of items before the page, as far as a word holds it.
def offset (p : Pagination) : Nat :=
  min ((p.pageNumber.toNat - 1) * p.itemsPerPage.toNat) (Nat.pow 2 64 - 1)

def pageCount (p : Pagination) (total : Nat) : Nat :=
  if p.itemsPerPage = 0 then 0
  else (total + p.itemsPerPage.toNat - 1) / p.itemsPerPage.toNat

def slice {α : Type} (p : Pagination) (items : List α) : List α :=
  (items.drop p.offset).take p.itemsPerPage.toNat

end Pagination

structure QueryRequest where
  criteria : Criteria
  sort : Option SortSpec
  pagination : Option Pagination
  includes : List String

namespace QueryRequest

def cast (u : EntityType) (r : QueryRequest) : QueryRequest :=
  { r with criteria := r.criteria.cast u }

def compile (t : EntityType) (r : QueryRequest) : Resolving (Filter × Option Comparator) := do
  for path in r.includes do
    discard <| Resolving.resolve t true path
  let filter ← r.criteria.compile t {}
  let comparator ← r.sort.mapM (SortSpec.compile t)
  return (filter, comparator)

def select (t : EntityType) (r : QueryRequest) (items : List Entity) :
    Resolving (List Entity) := do
  let (filter, comparator) ← r.compile t
  let accepted := filter.filter items
  return match comparator with
    | some c => c.sorted accepted
    | none => accepted

def validPage (t : EntityType) (r : QueryRequest) : Except Error Pagination := do
  match r.pagination with
  | some p => p.validate; return p
  | none => throw (.paginationRequired t.name)

-- The page asked for. Without an order its content would depend on how entities are stored.
def selectPage (t : EntityType) (r : QueryRequest) (items : List Entity) :
    Resolving (List Entity) := do
  if (r.sort.getD []).isEmpty then
    throw (.sortRequired t.name)
  let page ← r.validPage t
  return page.slice (← r.select t items)

def count (t : EntityType) (r : QueryRequest) (items : List Entity) : Resolving Nat := do
  return (← r.criteria.compile t {}).count items

def pageCount (t : EntityType) (r : QueryRequest) (items : List Entity) : Resolving Nat := do
  let page ← r.validPage t
  return page.pageCount (← r.count t items)

end QueryRequest

end EntityQuery
