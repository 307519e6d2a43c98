import EntityQuery.Error
import EntityQuery.Schema

/-!
Selectors: dotted chains of member names such as `Home.city` or `Orders.Count()`. A selector is
resolved against a schema, never against an entity; the path it gives reads values from entities.
-/

set_option autoImplicit false

namespace EntityQuery

open Text

structure Segment where
  name : List Char
  isCall : Bool
  deriving DecidableEq, Repr

namespace Segment

def isHead (c : Char) : Bool :=
  c.isAlpha || c = '_'

def isTail (c : Char) : Bool :=
  c.isAlphanum || c = '_'

def isName : List Char → Bool
  | [] => false
  | c :: cs => isHead c && cs.all isTail

def read (cs : List Char) : Option Segment :=
  let call := ['(', ')'].isSuffixOf cs
  let name := if call then cs.take (cs.length - 2) else cs
  if isName name then some ⟨name, call⟩ else none

end Segment

inductive Step where
  | member (name : String)
  | count
  | any
  deriving DecidableEq, Repr

-- Null, and every value that has no such step, leads to null.
def Step.apply : Step → Value → Value
  | .member name, .entity _ read => read name
  | .count, .list items => .number (.uint (UInt64.ofNat items.length))
  | .any, .list items => .bool !items.isEmpty
  | _, _ => .null

structure Path where
  -- The selector with the white space around its segments removed.
  selector : String
  steps : List Step
  kind : Kind
  -- Whether a member on the way can be null.
  nullable : Bool
  deriving DecidableEq, Repr

namespace Path

def get (p : Path) (e : Entity) : Value :=
  p.steps.foldl (fun v s => s.apply v) (.ofEntity e)

end Path

namespace Selector

def segments (selector : String) : List (List Char) :=
  (List.splitOn '.' (trim selector.toList)).map trim

def join (segments : List (List Char)) : String :=
  String.ofList (List.intercalate ['.'] segments)

def normalized (selector : String) : String :=
  join (segments selector)

def select (c : Catalog) (selector : String) (k : Kind) (segment : List Char) :
    Except Error (Step × Kind × Bool) :=
  match Segment.read segment with
  | none => .error (.malformedSelector selector)
  | some s =>
    let unknown (typeName : String) : Except Error (Step × Kind × Bool) :=
      .error (.unknownMember selector (String.ofList segment) typeName)
    let name := String.ofList s.name
    match k with
    | .entity r =>
      match (c.schema r).member? name with
      | some m =>
        if (m.access == .method) = s.isCall then .ok (.member m.name, m.kind, m.nullable)
        else unknown (c.schema r).name
      | none => unknown (c.schema r).name
    | .collection _ =>
      if s.isCall ∧ name = "Count" then .ok (.count, .number .uint64, false)
      else if s.isCall ∧ name = "Any" then .ok (.any, .bool, false)
      else unknown "collection"
    | k => unknown k.name

def extend (c : Catalog) (p : Path) (segment : List Char) : Except Error Path := do
  let (step, kind, nullable) ← select c p.selector p.kind segment
  return ⟨p.selector, p.steps ++ [step], kind, p.nullable || nullable⟩

def resolve (t : EntityType) (selector : String) : Except Error Path :=
  if (trim selector.toList).isEmpty then
    .error .emptySelector
  else
    (segments selector).foldlM (extend t.catalog) ⟨normalized selector, [], .entity t.root, false⟩

end Selector

end EntityQuery
