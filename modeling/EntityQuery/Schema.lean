import EntityQuery.Value

/-!
Schemas: which members the entities of a type have, of what kind, and how they are reached. Schemas
refer to each other, and to themselves, through the catalog that holds them.
-/

set_option autoImplicit false

namespace EntityQuery

-- The place of a schema in its catalog. Two schemas of the same name are two places.
structure SchemaRef where
  index : Nat
  deriving DecidableEq, Repr, Inhabited

inductive Kind where
  | string
  | number (k : NumberKind)
  | bool
  | date
  | collection (element : Kind)
  | entity (schema : SchemaRef)
  deriving DecidableEq, Repr, Inhabited

namespace Kind

def name : Kind → String
  | string => "string"
  | number _ => "numeric"
  | bool => "boolean"
  | date => "date"
  | collection _ => "collection"
  | entity _ => "entity"

def isScalar : Kind → Bool
  | collection _ | entity _ => false
  | _ => true

def isNumeric : Kind → Bool
  | number _ => true
  | _ => false

def element? : Kind → Option Kind
  | collection k => some k
  | _ => none

end Kind

inductive FieldType where
  | string
  | number (k : NumberKind)
  | bool
  | date
  | dateTime
  | entity (schema : SchemaRef)
  | list (element : FieldType)
  | optional (inner : FieldType)
  deriving DecidableEq, Repr, Inhabited

namespace FieldType

-- Being optional is not part of the kind, so the elements of a list may always be null.
def kind : FieldType → Kind
  | string => .string
  | number k => .number k
  | bool => .bool
  | date | dateTime => .date
  | entity r => .entity r
  | list t => .collection t.kind
  | optional t => t.kind

def nullable : FieldType → Bool
  | optional _ => true
  | _ => false

end FieldType

inductive Access where
  | field
  | method
  deriving DecidableEq, Repr

structure Member where
  name : String
  kind : Kind
  nullable : Bool
  access : Access
  deriving DecidableEq, Repr

namespace Member

def field (name : String) (type : FieldType) : Member :=
  ⟨name, type.kind, type.nullable, .field⟩

def method (name : String) (type : FieldType) : Member :=
  ⟨name, type.kind, type.nullable, .method⟩

end Member

structure Schema where
  name : String
  members : List Member
  deriving DecidableEq, Repr

def Schema.member? (s : Schema) (name : String) : Option Member :=
  s.members.find? (·.name == name)

theorem Schema.name_of_member? {s : Schema} {name : String} {m : Member}
    (h : s.member? name = some m) : m.name = name := by
  simpa using List.find?_some h

structure Catalog where
  schema : SchemaRef → Schema

structure EntityType where
  catalog : Catalog
  root : SchemaRef

namespace EntityType

def schema (t : EntityType) : Schema :=
  t.catalog.schema t.root

def name (t : EntityType) : String :=
  t.schema.name

end EntityType

end EntityQuery
