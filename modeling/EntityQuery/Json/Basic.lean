import EntityQuery.Numeric.Number

set_option autoImplicit false

namespace EntityQuery

inductive Json where
  | null
  | bool (b : Bool)
  | number (n : Number)
  | string (s : String)
  | array (items : List Json)
  | object (members : List (String × Json))
  -- Well-formed text that stands for no value: a number beyond every float, a string with an
  -- unpaired surrogate, or an object with such a key. It may be skipped but not used.
  | unreadable
  deriving Inhabited

namespace Json

inductive Token where
  | openArray | closeArray
  | openObject | closeObject
  | comma | colon
  | null
  | bool (b : Bool)
  | number (n : Number)
  | tooLarge
  | string (s : Option String)
  deriving DecidableEq, Repr

-- Floats keep a point or an exponent, and have one from `1e16` up and below `1e-5`.
def style : Binary64.Style := ⟨⟨some (-5, 15), true⟩, .toEven⟩

def hexDigit (n : Nat) : Char :=
  Nat.digitChar n

def escapeChar (c : Char) : List Char :=
  match c.toNat with
  | 0x22 => ['\\', '\x22']
  | 0x5C => ['\\', '\\']
  | 0x08 => ['\\', 'b']
  | 0x09 => ['\\', 't']
  | 0x0A => ['\\', 'n']
  | 0x0C => ['\\', 'f']
  | 0x0D => ['\\', 'r']
  | n => if n < 0x20 then ['\\', 'u', '0', '0', hexDigit (n / 16), hexDigit (n % 16)] else [c]

def quoted (s : String) : List Char :=
  '\x22' :: s.toList.flatMap escapeChar ++ ['\x22']

def numberText : Number → List Char
  | .float x => x.render style
  | n => n.render

def Token.render : Token → List Char
  | openArray => ['[']
  | closeArray => [']']
  | openObject => ['\x7b']
  | closeObject => ['\x7d']
  | comma => [',']
  | colon => [':']
  | null => "null".toList
  | bool true => "true".toList
  | bool false => "false".toList
  | number n => numberText n
  | string (some s) => quoted s
  | tooLarge | string none => []

mutual

def tokens : Json → List Token
  | null => [.null]
  | bool b => [.bool b]
  | number n => [.number n]
  | string s => [.string (some s)]
  | array items => .openArray :: itemTokens items ++ [.closeArray]
  | object members => .openObject :: memberTokens members ++ [.closeObject]
  | unreadable => []

def itemTokens : List Json → List Token
  | [] => []
  | [j] => j.tokens
  | j :: js => j.tokens ++ .comma :: itemTokens js

def memberTokens : List (String × Json) → List Token
  | [] => []
  | [(k, j)] => .string (some k) :: .colon :: j.tokens
  | (k, j) :: ms => .string (some k) :: .colon :: j.tokens ++ .comma :: memberTokens ms

end

def text (j : Json) : String :=
  String.ofList (j.tokens.flatMap Token.render)

mutual

def fits (room : Nat) : Json → Bool
  | array items => room != 0 && itemsFit (room - 1) items
  | object members => room != 0 && membersFit (room - 1) members
  | unreadable => false
  | _ => true

def itemsFit (room : Nat) : List Json → Bool
  | [] => true
  | j :: js => fits room j && itemsFit room js

def membersFit (room : Nat) : List (String × Json) → Bool
  | [] => true
  | (_, j) :: ms => fits room j && membersFit room ms

end

def maxDepth : Nat := 127

end Json

end EntityQuery
