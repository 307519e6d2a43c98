import EntityQuery.Text.Blank
import EntityQuery.Text.Search

/-!
The full-text marker. A term meant for a full-text search travels as an ordinary operand, wrapped
so that whoever runs the query can tell it from a substring to match.
-/

set_option autoImplicit false

namespace EntityQuery.FullText

open Text

def marker : List Char := "-FullTextSearchInterceptor-".toList

def wrap (term : String) : String :=
  String.ofList ('(' :: marker ++ term.toList ++ [')'])

def isMarked (text : String) : Bool :=
  occursIn (lower marker) (lower text.toList)

def unparenthesized : List Char → Option (List Char)
  | '(' :: cs => if cs.getLast? = some ')' then some cs.dropLast else none
  | _ => none

def byteLength : List Char → Nat
  | [] => 0
  | c :: cs => c.utf8Size + byteLength cs

def splitBytes? : Nat → List Char → Option (List Char × List Char)
  | 0, cs => some ([], cs)
  | _ + 1, [] => none
  | n + 1, c :: cs =>
    if c.utf8Size ≤ n + 1 then
      (splitBytes? (n + 1 - c.utf8Size) cs).map fun (front, rest) => (c :: front, rest)
    else
      none

def strip (text : String) : Option String := do
  let inner ← unparenthesized (trim text.toList)
  let (front, term) ← splitBytes? (byteLength marker) inner
  if lower front = lower marker then some (String.ofList term) else none

end EntityQuery.FullText
