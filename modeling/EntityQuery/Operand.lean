import EntityQuery.Error
import EntityQuery.Json.Reading
import EntityQuery.Value

set_option autoImplicit false

namespace EntityQuery

open Calendar (Date DateTime)

inductive Operand where
  | null
  | string (s : String)
  | number (n : Number)
  | bool (b : Bool)
  | date (d : DateTime)
  | list (items : List Operand)
  deriving Inhabited

namespace Operand

def ofDate (d : Date) : Operand :=
  date (.ofDate d)

def ofOption {α : Type} (f : α → Operand) : Option α → Operand
  | some a => f a
  | none => null

def isNull : Operand → Bool
  | null => true
  | _ => false

def kindName : Operand → String
  | null => "null"
  | string _ => "string"
  | number _ => "number"
  | bool _ => "bool"
  | date _ => "date"
  | list _ => "collection"

def numberJson (n : Number) : Json :=
  match n with
  | .float x => if x.isFinite then .number n else .string n.text
  | _ => .number n

mutual

def json : Operand → Json
  | null => .null
  | string s => .string s
  | number n => numberJson n
  | bool b => .bool b
  | date d => .string d.text
  | list items => .array (jsonAll items)

def jsonAll : List Operand → List Json
  | [] => []
  | v :: vs => v.json :: jsonAll vs

end

mutual

def json? : Operand → Except Error Json
  | null => .ok .null
  | string s => .ok (.string s)
  | number (.float x) =>
    if x.isFinite then .ok (.number (.float x))
    else .error (.serializedValue ((Number.float x).text ++ " has no JSON form"))
  | number n => .ok (.number n)
  | bool b => .ok (.bool b)
  | date d => .ok (.string d.text)
  | list items => return .array (← jsonAll? items)

def jsonAll? : List Operand → Except Error (List Json)
  | [] => .ok []
  | v :: vs => return (← v.json?) :: (← jsonAll? vs)

end

mutual

theorem json_of_json? {v : Operand} {j : Json} (h : v.json? = .ok j) : v.json = j := by
  match v with
  | .list vs =>
    simp only [json?] at h
    cases hs : jsonAll? vs with
    | error e => rw [hs] at h; cases h
    | ok js => rw [hs] at h; cases h; simp [json, jsonAll_of_jsonAll? hs]
  | .number (.float x) =>
    simp only [json?] at h
    split at h <;> cases h
    simp [json, numberJson, *]
  | .null | .string _ | .number (.int _) | .number (.uint _) | .bool _ | .date _ => cases h; rfl

theorem jsonAll_of_jsonAll? {vs : List Operand} {js : List Json} (h : jsonAll? vs = .ok js) :
    jsonAll vs = js := by
  match vs with
  | [] => cases h; rfl
  | v :: vs =>
    simp only [jsonAll?] at h
    cases hv : v.json? with
    | error e => rw [hv] at h; cases h
    | ok j =>
      cases hs : jsonAll? vs with
      | error e => rw [hv, hs] at h; cases h
      | ok js =>
        rw [hv, hs] at h
        cases h
        simp [jsonAll, json_of_json? hv, jsonAll_of_jsonAll? hs]

end

def text (v : Operand) : String :=
  v.json.text

def text? (v : Operand) : Except Error String :=
  return (← v.json?).text

def plainText : Operand → String
  | null => ""
  | string s => s
  | number n => n.text
  | bool true => "true"
  | bool false => "false"
  | date d => d.text
  | list items => (list items).text

mutual

def ofJson : Json → Except Error Operand
  | .null => .ok null
  | .bool b => .ok (bool b)
  | .number n => .ok (number n)
  | .string s => .ok (string s)
  | .array items => return list (← ofJsonAll items)
  | .object _ => .error (.serializedValue "objects are not supported as operands")
  | .unreadable => .error .json

def ofJsonAll : List Json → Except Error (List Operand)
  | [] => .ok []
  | j :: js => return (← ofJson j) :: (← ofJsonAll js)

end

def ofText (s : String) : Except Error Operand :=
  if (Text.trim s.toList).isEmpty then
    .ok null
  else
    match Json.parse s with
    | some j => if j.fits Json.maxDepth then ofJson j else .error .json
    | none => .error .json

def ofWire? : Json → Option Operand
  | .null => some null
  | .string s => (ofText s).toOption
  | _ => none

mutual

def agrees : Operand → Value → Bool
  | null, .null => true
  | string a, .string b => a == b
  | number a, .number b => b.compare a == some .eq
  | bool a, .bool b => a == b
  | date a, .date b => a == b
  | list as, .list bs => agreesAll as bs
  | _, _ => false

def agreesAll : List Operand → List Value → Bool
  | [], [] => true
  | a :: as, b :: bs => agrees a b && agreesAll as bs
  | _, _ => false

end

mutual

-- Equality as stored: numbers of different representations differ, and NaN equals nothing.
def identical : Operand → Operand → Bool
  | null, null => true
  | string a, string b => a == b
  | number a, number b => a.identical b
  | bool a, bool b => a == b
  | date a, date b => a == b
  | list as, list bs => identicalAll as bs
  | _, _ => false

def identicalAll : List Operand → List Operand → Bool
  | [], [] => true
  | a :: as, b :: bs => identical a b && identicalAll as bs
  | _, _ => false

end

end Operand

end EntityQuery
