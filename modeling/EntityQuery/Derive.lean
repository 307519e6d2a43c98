import EntityQuery.Schema
import EntityQuery.Text.Casing

/-!
Deriving a schema from the declaration of a structure. Attributes on the structure and its fields
rename the type and its members, choose the casing of member names, and leave fields out.
-/

set_option autoImplicit false

namespace EntityQuery.Derive

inductive Argument where
  | string (s : String)
  | other
  deriving DecidableEq, Repr

inductive Item where
  | name (name : String)
  | assign (name : String) (argument : Argument)
  | call (name : String)
  deriving DecidableEq, Repr

structure Attribute where
  path : String
  items : List Item
  deriving DecidableEq, Repr

def attributeName : String := "sift"

structure Field where
  name : String
  type : FieldType
  attributes : List Attribute
  deriving DecidableEq, Repr

inductive Shape where
  | named (fields : List Field)
  -- A structure without field names, or without fields.
  | unnamed
  -- An enumeration or a union.
  | other
  deriving DecidableEq, Repr

structure Declaration where
  name : String
  isGeneric : Bool
  attributes : List Attribute
  shape : Shape
  deriving DecidableEq, Repr

inductive Error where
  | generic
  | notStructure
  | unnamedFields
  | notString (name : String)
  | unknownRule (name : String)
  | unknownTypeItem
  | unknownFieldItem
  | duplicateMember (name : String)
  | invalidMember (name : String)
  deriving DecidableEq, Repr

def Error.message : Error → String
  | generic => "Entity can not be derived for generic structs"
  | notStructure => "Entity can only be derived for structs"
  | unnamedFields => "Entity can only be derived for structs with named fields"
  | notString name => name ++ " must be a string literal"
  | unknownRule name =>
    "unknown rename rule: '" ++ name ++ "'. Expected one of: PascalCase, camelCase, snake_case"
  | unknownTypeItem =>
    "unknown sift attribute. Expected: rename = \"...\" or rename_all = \"...\""
  | unknownFieldItem => "unknown sift attribute. Expected: skip or rename = \"...\""
  | duplicateMember name => "duplicate member name '" ++ name ++ "'"
  | invalidMember name =>
    "member name '" ++ name ++ "' is not a valid selector segment; use letters, digits and '_'"

inductive Casing where
  | pascal
  | camel
  | snake
  deriving DecidableEq, Repr

namespace Casing

def ofName : String → Except Error Casing
  | "PascalCase" => .ok pascal
  | "camelCase" => .ok camel
  | "snake_case" => .ok snake
  | name => .error (.unknownRule name)

def capitalize : List Char → List Char
  | [] => []
  | c :: cs => Text.toUpperCase c ++ cs

def uncapitalize : List Char → List Char
  | [] => []
  | c :: cs => Text.toLowerCase c ++ cs

def unraw : List Char → List Char
  | 'r' :: '#' :: cs => cs
  | cs => cs

def capitalized (cs : List Char) : List Char :=
  (List.splitOn '_' cs).flatMap capitalize

def apply (casing : Casing) (field : String) : String :=
  let cs := unraw field.toList
  String.ofList <|
    match casing with
    | snake => cs
    | pascal => capitalized cs
    | camel => uncapitalize (capitalized cs)

end Casing

structure TypeSettings where
  rename : Option String := none
  casing : Option Casing := none
  deriving DecidableEq, Repr

structure FieldSettings where
  skip : Bool := false
  rename : Option String := none
  deriving DecidableEq, Repr

def Argument.string? (name : String) : Argument → Except Error String
  | string s => .ok s
  | other => .error (.notString name)

def TypeSettings.add (s : TypeSettings) : Item → Except Error TypeSettings
  | .assign "rename" a => return { s with rename := ← a.string? "rename" }
  | .assign "rename_all" a => do
    return { s with casing := ← Casing.ofName (← a.string? "rename_all") }
  | _ => .error .unknownTypeItem

def FieldSettings.add (s : FieldSettings) : Item → Except Error FieldSettings
  | .name "skip" => .ok { s with skip := true }
  | .assign "rename" a => return { s with rename := ← a.string? "rename" }
  | _ => .error .unknownFieldItem

-- The items of the first attribute that is meant for deriving; further ones have no effect.
def items (attributes : List Attribute) : List Item :=
  ((attributes.find? (·.path == attributeName)).map Attribute.items).getD []

def typeSettings (attributes : List Attribute) : Except Error TypeSettings :=
  (items attributes).foldlM TypeSettings.add {}

def fieldSettings (attributes : List Attribute) : Except Error FieldSettings :=
  (items attributes).foldlM FieldSettings.add {}

structure DerivedMember where
  name : String
  field : Field
  deriving DecidableEq, Repr

structure Derived where
  structName : String
  typeName : String
  members : List DerivedMember
  deriving DecidableEq, Repr

def isNameHead (c : Char) : Bool :=
  c.isAlpha || c = '_'

def isNameTail (c : Char) : Bool :=
  c.isAlphanum || c = '_'

-- Upper case, with an underscore in front of a capital that follows a small letter or a digit.
def screaming (afterSmall : Bool) : List Char → List Char
  | [] => []
  | c :: cs =>
    if c.isUpper then (if afterSmall then ['_', c] else [c]) ++ screaming false cs
    else if c = '_' then '_' :: screaming false cs
    else c.toUpper :: screaming true cs

def reservedWords : List String :=
  ["abstract", "as", "async", "await", "become", "box", "break", "const", "continue", "crate", "do",
   "dyn", "else", "enum", "extern", "false", "final", "fn", "for", "if", "impl", "in", "let", "loop",
   "macro", "match", "mod", "move", "mut", "override", "priv", "pub", "ref", "return", "Self", "self",
   "static", "struct", "super", "trait", "true", "try", "type", "typeof", "unsafe", "unsized", "use",
   "virtual", "where", "while", "yield"]

def isSegmentName : List Char → Bool
  | [] => false
  | c :: cs => isNameHead c && cs.all isNameTail

def isConstantName (cs : List Char) : Bool :=
  isSegmentName cs && cs != ['_'] && !reservedWords.contains (String.ofList cs)

def isMemberName (cs : List Char) : Bool :=
  isSegmentName cs && isConstantName (screaming false cs)

def DerivedMember.constant (m : DerivedMember) : String :=
  String.ofList (screaming false m.name.toList)

def addField (casing : Casing) (members : List DerivedMember) (f : Field) :
    Except Error (List DerivedMember) := do
  let settings ← fieldSettings f.attributes
  if settings.skip then
    return members
  let name := settings.rename.getD (casing.apply f.name)
  if members.any (·.name == name) then
    throw (.duplicateMember name)
  if !isMemberName name.toList then
    throw (.invalidMember name)
  return members ++ [⟨name, f⟩]

def derive (d : Declaration) : Except Error Derived := do
  if d.isGeneric then
    throw .generic
  match d.shape with
  | .named fields => do
    let settings ← typeSettings d.attributes
    let members ← fields.foldlM (addField (settings.casing.getD .snake)) []
    return ⟨d.name, settings.rename.getD d.name, members⟩
  | .unnamed => throw .unnamedFields
  | .other => throw .notStructure

namespace Derived

def schema (d : Derived) : Schema :=
  ⟨d.typeName, d.members.map fun m => .field m.name m.field.type⟩

def field? (d : Derived) (member : String) : Option Field :=
  (d.members.find? (·.name == member)).map DerivedMember.field

def entity (d : Derived) (identity : Nat) (fields : String → Value) : Entity :=
  ⟨identity, fun member => ((d.field? member).map fun f => fields f.name).getD .null⟩

end Derived

end EntityQuery.Derive
