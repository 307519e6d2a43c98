import EntityQuery.Json.Reading
import EntityQuery.Yaml.Cursor

set_option autoImplicit false

namespace EntityQuery.Yaml

-- A tag is what its octets are; escapes may write any.
abbrev Tag := List UInt8

def octets (text : String) : Tag :=
  text.toList.map fun c => c.toNat.toUInt8

def ownTag? : Tag → Option String
  | 0x21 :: name => String.fromUTF8? ⟨name.toArray⟩
  | _ => none

def isWordCharacter (c : Char) : Bool :=
  c.isAlphanum || c = '_' || c = '-'

def isTagCharacter (inFull : Bool) (c : Char) : Bool :=
  isWordCharacter c || ";/?:@&=+$.!~*\x27()".toList.contains c
    || (inFull && [',', '[', ']'].contains c)

def octetsAfter (octet : Nat) : Option Nat :=
  if octet < 0x80 then some 0
  else if octet / 0x20 = 6 then some 1
  else if octet / 0x10 = 14 then some 2
  else if octet / 8 = 30 then some 3
  else none

def tagFrom (inFull : Bool) (due line column : Nat) (tag : Tag) :
    List Char → Option (Tag × Cursor)
  | '%' :: a :: b :: cs => do
    let octet := 16 * (← Json.hexValue? a) + (← Json.hexValue? b)
    let due ←
      if due = 0 then octetsAfter octet
      else if octet / 0x40 = 2 then some (due - 1)
      else none
    tagFrom inFull due line (column + 3) (octet.toUInt8 :: tag) cs
  | c :: cs =>
    if due ≠ 0 || c = '%' then none
    else if isTagCharacter inFull c then
      tagFrom inFull 0 line (column + 1) (c.toNat.toUInt8 :: tag) cs
    else some (tag.reverse, ⟨c :: cs, line, column⟩)
  | [] => if due = 0 then some (tag.reverse, ⟨[], line, column⟩) else none

def spanSomeTag (inFull : Bool) (c : Cursor) : Option (Tag × Cursor) := do
  let (tag, rest) ← tagFrom inFull 0 c.line c.column [] c.rest
  if tag.isEmpty then none else some (tag.takeWhile (· ≠ 0), rest)

def spanHandle (c : Cursor) : String × Cursor :=
  let (word, c) := (c.skip 1).span isWordCharacter
  if c.rest.head? = some '!' then (String.ofList ('!' :: word ++ ['!']), c.skip 1)
  else (String.ofList ('!' :: word), c)

def spanTag (inFlow : Bool) (c : Cursor) : Option ((String × Tag) × Cursor) := do
  let (found, c) ←
    if (c.rest.drop 1).head? = some '<' then do
      let (tag, c) ← spanSomeTag true (c.skip 2)
      if c.rest.head? = some '>' then some (("", tag), c.skip 1) else none
    else do
      let (handle, rest) := spanHandle c
      if handle.length > 1 && handle.toList.getLast? = some '!' then do
        let (tag, rest) ← spanSomeTag false rest
        some ((handle, tag), rest)
      else do
        let (tag, rest) ← tagFrom false 0 rest.line rest.column [] rest.rest
        let tag := (octets (String.ofList (handle.toList.drop 1)) ++ tag).takeWhile (· ≠ 0)
        some (if tag.isEmpty then ("", octets "!") else ("!", tag), rest)
  if endsWord c.rest || (inFlow && c.rest.head? = some ',') then some (found, c) else none

def spanAnchor (c : Cursor) : Option (String × Cursor) :=
  let (name, c) := (c.skip 1).span isWordCharacter
  let isEnd := endsWord c.rest || c.rest.head?.any ("?:,]\x7d%@\x60".toList.contains ·)
  if name.isEmpty || !isEnd then none else some (String.ofList name, c)

inductive Directive where
  | version (major minor : Nat)
  | tags (handle : String) (start : Tag)
  deriving DecidableEq, Repr

def spanVersionNumber (c : Cursor) : Option (Nat × Cursor) :=
  let (digits, c) := c.span Char.isDigit
  if digits.isEmpty || digits.length > 9 then none else some (Text.natOf digits, c)

def spanVersion (c : Cursor) : Option (Directive × Cursor) := do
  let (major, c) ← spanVersionNumber (c.span isBlank).2
  if c.rest.head? ≠ some '.' then none
  let (minor, c) ← spanVersionNumber (c.skip 1)
  some (.version major minor, c)

def spanTags (c : Cursor) : Option (Directive × Cursor) := do
  let c := (c.span isBlank).2
  if c.rest.head? ≠ some '!' then none
  let (handle, c) := spanHandle c
  if handle ≠ "!" && handle.toList.getLast? ≠ some '!' then none
  if !c.rest.head?.any isBlank then none
  let (start, c) ← spanSomeTag true (c.span isBlank).2
  if endsWord c.rest then some (.tags handle start, c) else none

def spanDirective (c : Cursor) : Option (Directive × Cursor) := do
  let (name, c) := (c.skip 1).span isWordCharacter
  if !endsWord c.rest then none
  let (found, c) ←
    if name = "YAML".toList then spanVersion c
    else if name = "TAG".toList then spanTags c
    else none
  some (found, ← c.endLine)

end EntityQuery.Yaml
