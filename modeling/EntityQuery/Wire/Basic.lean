import EntityQuery.Json.Reading
import EntityQuery.Operator
import EntityQuery.Uuid

set_option autoImplicit false

namespace EntityQuery.Wire

def named {α : Type} (ofOrdinal : Nat → Option α) (ofName : String → Option α) (j : Json) :
    Option α :=
  match j with
  | .string s => ofName s
  | j => j.nat?.bind ofOrdinal

def readOperator : Json → Option Operator :=
  named Operator.ofOrdinal? Operator.ofName?

def readCombinator : Json → Option Combinator :=
  named Combinator.ofOrdinal? Combinator.ofName?

def readDirection : Json → Option Direction :=
  named Direction.ofOrdinal? Direction.ofName?

def readId (j : Json) : Option Uuid :=
  j.string?.bind Uuid.ofText?

def optional {α β : Type} (fields : List (String × β)) (name : String) (default : α)
    (read : β → Option α) : Option α :=
  match fields.lookup name with
  | some v => read v
  | none => some default

def required {α : Type} (fields : List (String × Json)) (name : String) (read : Json → Option α) :
    Option α :=
  (fields.lookup name).bind read

def nullable {α : Type} (fields : List (String × Json)) (name : String)
    (read : Json → Option α) : Option (Option α) :=
  match fields.lookup name with
  | some .null | none => some none
  | some j => (read j).map some

def items? {α : Type} (room : Nat) (read : Nat → Json → Option α) : Json → Option (List α)
  | .array js => if room = 0 then none else js.mapM (read (room - 1))
  | _ => none

def fields? (room : Nat) (names : List String) (j : Json) : Option (List (String × Json)) :=
  if room = 0 then none else j.record? names

end EntityQuery.Wire
