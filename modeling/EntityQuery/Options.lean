import EntityQuery.Error
import EntityQuery.Wire.Basic
import EntityQuery.Yaml

set_option autoImplicit false

namespace EntityQuery

open Wire

inductive MergeStrategy where
  | rootForSubtrees
  | childOperator
  deriving DecidableEq, Repr

namespace MergeStrategy

def name : MergeStrategy → String
  | rootForSubtrees => "root_for_subtrees"
  | childOperator => "child_operator"

def ofName? (name : String) : Option MergeStrategy :=
  [rootForSubtrees, childOperator].find? (·.name == name)

-- A strategy is its name, alone or as the only key of an object that holds null.
def read : Json → Option MergeStrategy
  | .string name => ofName? name
  | .object [(name, .null)] => ofName? name
  | _ => none

end MergeStrategy

structure CompileOptions where
  mergeStrategy : MergeStrategy := .rootForSubtrees
  cachePaths : Bool := true
  deriving DecidableEq, Repr

namespace CompileOptions

def json (o : CompileOptions) : Json :=
  .object [("merge_strategy", .string o.mergeStrategy.name), ("cache_paths", .bool o.cachePaths)]

def readBool : Json → Option Bool
  | .bool b => some b
  | _ => none

def fieldNames : List String := ["merge_strategy", "cache_paths"]

def ofJson (j : Json) : Option CompileOptions := do
  let fields ← j.record? fieldNames
  let strategy ← optional fields "merge_strategy" .rootForSubtrees MergeStrategy.read
  let cache ← optional fields "cache_paths" true readBool
  return ⟨strategy, cache⟩

def strategyOfYaml : Yaml → Option MergeStrategy
  | .scalar tag style text =>
    match tag.bind Yaml.ownTag? with
    | some name =>
      if style = .plain && ["", "~", "null", "Null", "NULL"].contains text then
        MergeStrategy.ofName? name
      else
        none
    | none => MergeStrategy.ofName? text
  | _ => none

def boolOfYaml : Yaml → Option Bool
  | .scalar tag style text =>
    let mayBeBool := style = .plain
      || (style = .literal && tag = some (Yaml.octets "tag:yaml.org,2002:bool"))
    if mayBeBool && ["true", "True", "TRUE"].contains text then some true
    else if mayBeBool && ["false", "False", "FALSE"].contains text then some false
    else none
  | _ => none

def settings : Yaml → Option (List (String × Yaml))
  | .mapping entries => entries.mapM fun (key, value) => key.text?.map (·, value)
  | .scalar _ .plain "" => some []
  | _ => none

def ofYaml (y : Yaml) : Option CompileOptions := do
  let fields ← Json.fieldsOf? fieldNames (← settings y)
  let strategy ← optional fields "merge_strategy" .rootForSubtrees strategyOfYaml
  let cache ← optional fields "cache_paths" true boolOfYaml
  return ⟨strategy, cache⟩

def ofJsonText (text : String) : Except Error CompileOptions :=
  match (Json.parse text).bind ofJson with
  | some o => .ok o
  | none => .error .json

def ofYamlText (text : String) : Except Error CompileOptions :=
  match (Yaml.parse text).bind ofYaml with
  | some o => .ok o
  | none => .error .yaml

end CompileOptions

end EntityQuery
