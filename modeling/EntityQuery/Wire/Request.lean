import EntityQuery.Request
import EntityQuery.Wire.Condition

set_option autoImplicit false

namespace EntityQuery

open Wire

namespace SortItem

def json (i : SortItem) : Json :=
  .object [("selectorPath", .string i.selector), ("direction", .string i.direction.name)]

def read (room : Nat) (j : Json) : Option SortItem := do
  let fields ← fields? room ["selectorPath", "direction"] j
  let selector ← required fields "selectorPath" Json.string?
  let direction ← optional fields "direction" .ascending readDirection
  return ⟨selector, direction⟩

end SortItem

namespace SortSpec

def json (s : SortSpec) : Json :=
  .array (s.map SortItem.json)

def read (room : Nat) (j : Json) : Option SortSpec :=
  items? room SortItem.read j

def ofText (text : String) : Option SortSpec := do
  read Json.maxDepth (← Json.parse text)

end SortSpec

namespace Pagination

def json (p : Pagination) : Json :=
  .object
    [("pageNumber", .number (.uint p.pageNumber)), ("itemsPerPage", .number (.uint p.itemsPerPage))]

def read (room : Nat) (j : Json) : Option Pagination := do
  let fields ← fields? room ["pageNumber", "itemsPerPage"] j
  let number ← required fields "pageNumber" Json.nat?
  let size ← required fields "itemsPerPage" Json.nat?
  return ⟨.ofNat number, .ofNat size⟩

def ofText (text : String) : Option Pagination := do
  read Json.maxDepth (← Json.parse text)

end Pagination

namespace QueryRequest

def json? (r : QueryRequest) : Except Error Json := do
  let criteria ← r.criteria.json?
  return .object <|
    [("criteria", criteria)]
      ++ (r.sort.map fun s => ("sort", s.json)).toList
      ++ (r.pagination.map fun p => ("pagination", p.json)).toList
      ++ if r.includes.isEmpty then [] else [("includes", .array (r.includes.map .string))]

def text? (r : QueryRequest) : Except Error String :=
  match r.json? with
  | .ok j => .ok j.text
  | .error _ => .error .json

def read (room : Nat) (j : Json) : Drawing QueryRequest := do
  let fields ← fields? room ["criteria", "sort", "pagination", "includes"] j
  let criteria ← Criteria.read (room - 1) (← fields.lookup "criteria")
  let sort ← nullable fields "sort" (SortSpec.read (room - 1))
  let pagination ← nullable fields "pagination" (Pagination.read (room - 1))
  let includes ← optional fields "includes" [] (items? (room - 1) fun _ => Json.string?)
  return ⟨criteria, sort, pagination, includes⟩

def ofText (text : String) : Drawing QueryRequest := do
  read Json.maxDepth (← Json.parse text)

end QueryRequest

end EntityQuery
