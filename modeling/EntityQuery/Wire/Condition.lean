import EntityQuery.Criteria
import EntityQuery.Wire.Basic

set_option autoImplicit false

namespace EntityQuery

open Wire

abbrev Drawing := StateT IdSupply Option

def Drawing.id : Drawing Uuid :=
  modifyGet IdSupply.draw

namespace Node

mutual

def json? : Node → Except Error Json
  | ⟨id, selector, op, operand, next, children⟩ => do
    let stored ← operand.text?
    return .object
      [("id", .string id.text), ("selectorPath", .string selector),
       ("operator", .string op.name), ("serializedValue", .string stored),
       ("nextLogicalOperator", .string next.name), ("children", .array (← jsonAll? children))]

def jsonAll? : List Node → Except Error (List Json)
  | [] => .ok []
  | n :: ns => return (← n.json?) :: (← jsonAll? ns)

end

def fieldNames : List String :=
  ["id", "selectorPath", "operator", "serializedValue", "nextLogicalOperator", "children"]

mutual

def read : Nat → Json → Drawing Node
  | 0, _ => failure
  | room + 1, j => do
    let fields ← j.record? fieldNames
    let id ←
      match fields.lookup "id" with
      | some j => (readId j : Option Uuid)
      | none => Drawing.id
    let selector ← optional fields "selectorPath" "" Json.string?
    let op ← required fields "operator" readOperator
    let operand ← optional fields "serializedValue" .null Operand.ofWire?
    let next ← optional fields "nextLogicalOperator" .and readCombinator
    let children ←
      match fields.lookup "children" with
      | some j => readAll room j
      | none => pure []
    return ⟨id, selector, op, operand, next, children⟩

def readAll : Nat → Json → Drawing (List Node)
  | room + 1, .array js => js.mapM (read room)
  | _, _ => failure

end

def ofText (text : String) : Drawing Node := do
  read Json.maxDepth (← Json.parse text)

end Node

namespace Criteria

def json? (c : Criteria) : Except Error Json := do
  return .object
    [("id", .string c.id.text), ("entityTypeName", .string c.entityTypeName),
     ("tree", ← c.tree.json?)]

def text? (c : Criteria) : Except Error String :=
  match c.json? with
  | .ok j => .ok j.text
  | .error _ => .error .json

def read (room : Nat) (j : Json) : Drawing Criteria := do
  let fields ← fields? room ["id", "entityTypeName", "tree"] j
  let id ← required fields "id" readId
  let name ← required fields "entityTypeName" Json.string?
  let tree ← Node.read (room - 1) (← fields.lookup "tree")
  return ⟨id, name, tree⟩

def ofText (text : String) : Drawing Criteria := do
  read Json.maxDepth (← Json.parse text)

end Criteria

end EntityQuery
