import EntityQuery.Operator
import EntityQuery.Text.Digits

set_option autoImplicit false

namespace EntityQuery

inductive Error where
  | emptySelector
  | malformedSelector (selector : String)
  | unknownMember (selector member typeName : String)
  | unsupportedOperator (op : Operator) (kind selector : String)
  | coercion (value kind : String)
  | expectedCollection (op : Operator) (selector value : String)
  | invalidSentinel (value : String)
  | entityMismatch (expected actual : String)
  | emptySort (entity : String)
  | unsupportedSortKey (kind selector : String)
  | sortRequired (entity : String)
  | paginationRequired (entity : String)
  | invalidPage (number size : Nat)
  | unknownOperator (name : String)
  | serializedValue (reason : String)
  | json
  | yaml
  deriving DecidableEq, Repr

namespace Error

def natText (n : Nat) : String :=
  String.ofList (Text.digitsOf n)

def message : Error → String
  | emptySelector => "selector can not be empty"
  | malformedSelector selector => "selector \"" ++ selector ++ "\" format is not valid"
  | unknownMember selector member typeName =>
    "selector \"" ++ selector ++ "\": member '" ++ member ++ "' does not exist on type \""
      ++ typeName ++ "\""
  | unsupportedOperator op kind selector =>
    "operator '" ++ op.name ++ "' is not supported for " ++ kind ++ " field \"" ++ selector ++ "\""
  | coercion value kind => "can not convert " ++ value ++ " to " ++ kind
  | expectedCollection op selector value =>
    "operator '" ++ op.name ++ "' on \"" ++ selector ++ "\" requires a collection value, got "
      ++ value
  | invalidSentinel value => "sentinel node has invalid value " ++ value
  | entityMismatch expected actual =>
    "criteria must be built for \"" ++ expected ++ "\", got \"" ++ actual ++ "\""
  | emptySort entity => "sort specification for \"" ++ entity ++ "\" has no items"
  | unsupportedSortKey kind selector =>
    kind ++ " field \"" ++ selector ++ "\" can not be used as a sort key"
  | sortRequired entity => "sort order required for paged results of \"" ++ entity ++ "\""
  | paginationRequired entity => "pagination data required for paged results of \"" ++ entity ++ "\""
  | invalidPage number size =>
    "invalid page " ++ natText number ++ " with " ++ natText size ++ " items per page"
  | unknownOperator name => "unknown operator '" ++ name ++ "'"
  | serializedValue reason => "invalid serialized value: " ++ reason
  | json => "json error"
  | yaml => "yaml error"

def named {α : Type} (found : Option α) (name : String) : Except Error α :=
  match found with
  | some a => .ok a
  | none => .error (unknownOperator name)

end Error

def Operator.ofName (text : String) : Except Error Operator :=
  Error.named (ofName? text) text

def Combinator.ofName (text : String) : Except Error Combinator :=
  Error.named (ofName? text) text

def Direction.ofName (text : String) : Except Error Direction :=
  Error.named (ofName? text) text

end EntityQuery
