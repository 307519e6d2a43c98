import EntityQuery.Yaml.Scalar
import EntityQuery.Yaml.Tag

/-!
Tokens of YAML. Indentation becomes marks where block collections begin and end, and a word turns
out to be a key when a colon follows on its line: the marks of the key are then put before it.
-/

set_option autoImplicit false

namespace EntityQuery.Yaml

inductive Token where
  | directive (d : Directive)
  | documentStart
  | documentEnd
  | blockList
  | blockMapping
  | blockEnd
  | dash
  | openList
  | closeList
  | openMapping
  | closeMapping
  | comma
  | key
  | value
  | alias (name : String)
  | anchor (name : String)
  | tag (handle : String) (tag : Tag)
  | scalar (style : ScalarStyle) (text : String)
  deriving DecidableEq, Repr

structure Candidate where
  before : Nat
  line : Nat
  column : Nat
  -- Begins a line of a block mapping, so that nothing but a key can stand there.
  isRequired : Bool
  deriving DecidableEq, Repr

-- A key ends on the line it begins on, within 1024 characters.
def Candidate.reaches (k : Candidate) (c : Cursor) : Bool :=
  k.line = c.line && c.column ≤ k.column + 1024

structure Scan where
  cursor : Cursor
  tokens : Array Token := #[]
  blocks : List Nat := []
  candidate : Option Candidate := none
  outer : List (Option Candidate) := []
  keyAllowed : Bool := true

namespace Scan

def inFlow (s : Scan) : Bool :=
  !s.outer.isEmpty

def least (s : Scan) : Nat :=
  match s.blocks with
  | [] => 0
  | column :: _ => column + 1

def push (s : Scan) (t : Token) : Scan :=
  { s with tokens := s.tokens.push t }

def mark (s : Scan) (t : Token) : Scan :=
  { s.push t with cursor := s.cursor.skip 1 }

def openBlock (s : Scan) (column before : Nat) (t : Token) : Scan :=
  if !s.inFlow && s.least ≤ column then
    { s with blocks := column :: s.blocks, tokens := s.tokens.insertIdxIfInBounds before t }
  else
    s

def closeBlocks (s : Scan) (least : Nat) : Scan :=
  if s.inFlow then s
  else
    let closed := s.blocks.takeWhile (least ≤ ·)
    { s with
      blocks := s.blocks.drop closed.length
      tokens := closed.foldl (fun ts _ => ts.push .blockEnd) s.tokens }

def dropCandidate (s : Scan) : Option Scan :=
  if s.candidate.any (·.isRequired) then none else some { s with candidate := none }

def addCandidate (s : Scan) : Option Scan :=
  if !s.keyAllowed then some s
  else do
    let s ← s.dropCandidate
    let column := s.cursor.column
    let isRequired := !s.inFlow && s.blocks.head? = some column
    some { s with candidate := some ⟨s.tokens.size, s.cursor.line, column, isRequired⟩ }

def openFlow (s : Scan) (t : Token) : Option Scan := do
  let s ← s.addCandidate
  let s := { s with candidate := none, outer := s.candidate :: s.outer, keyAllowed := true }
  some (s.mark t)

def closeFlow (s : Scan) (t : Token) : Option Scan := do
  let s ← s.dropCandidate
  let s := { s with
    candidate := s.outer.head?.join, outer := s.outer.drop 1, keyAllowed := false }
  some (s.mark t)

def comma (s : Scan) : Option Scan := do
  let s ← s.dropCandidate
  some ({ s with keyAllowed := true }.mark .comma)

def dash (s : Scan) : Option Scan := do
  if !s.inFlow && !s.keyAllowed then none
  let s ← (s.openBlock s.cursor.column s.tokens.size .blockList).dropCandidate
  some ({ s with keyAllowed := true }.mark .dash)

def keyMark (s : Scan) : Option Scan := do
  if !s.inFlow && !s.keyAllowed then none
  let s ← (s.openBlock s.cursor.column s.tokens.size .blockMapping).dropCandidate
  some ({ s with keyAllowed := !s.inFlow }.mark .key)

def valueMark (s : Scan) : Option Scan := do
  match s.candidate.filter (·.reaches s.cursor) with
  | some k =>
    let s := { s with tokens := s.tokens.insertIdxIfInBounds k.before .key, candidate := none }
    some ({ s.openBlock k.column k.before .blockMapping with keyAllowed := false }.mark .value)
  | none =>
    let s ← s.dropCandidate
    if !s.inFlow && !s.keyAllowed then none
    let s := s.openBlock s.cursor.column s.tokens.size .blockMapping
    some ({ s with keyAllowed := !s.inFlow }.mark .value)

def word (s : Scan) (keyAllowed : Bool) (t : Token) (c : Cursor) : Option Scan := do
  let s ← s.addCandidate
  some { s.push t with cursor := c, keyAllowed := keyAllowed }

def outermost (s : Scan) (t : Token) (c : Cursor) : Option Scan := do
  let s ← (s.closeBlocks 0).dropCandidate
  some { s.push t with cursor := c, keyAllowed := false }

def next (s : Scan) : Option Scan := do
  let s := s.closeBlocks (s.cursor.column + 1)
  let c := s.cursor
  let standsAlone (ds : List Char) : Bool := s.inFlow || endsWord ds
  if isMarker '-' c.column c.rest then s.outermost .documentStart (c.skip 3)
  else if isMarker '.' c.column c.rest then s.outermost .documentEnd (c.skip 3)
  else
    match c.rest with
    | [] => none
    | '[' :: _ => s.openFlow .openList
    | '\x7b' :: _ => s.openFlow .openMapping
    | ']' :: _ => s.closeFlow .closeList
    | '\x7d' :: _ => s.closeFlow .closeMapping
    | ',' :: _ => s.comma
    | '*' :: _ => do
      let (name, c) ← spanAnchor c
      s.word false (.alias name) c
    | '&' :: _ => do
      let (name, c) ← spanAnchor c
      s.word false (.anchor name) c
    | '!' :: _ => do
      let ((handle, found), c) ← spanTag s.inFlow c
      s.word false (.tag handle found) c
    | '\x22' :: _ => do
      let (text, c) ← spanQuoted '\x22' c
      s.word false (.scalar .quoted text) c
    | '\x27' :: _ => do
      let (text, c) ← spanQuoted '\x27' c
      s.word false (.scalar .quoted text) c
    | d :: ds =>
      if c.column = 0 && d = '%' then do
        let (found, c) ← spanDirective c
        s.outermost (.directive found) c
      else if d = '-' && endsWord ds then s.dash
      else if d = '?' && standsAlone ds then s.keyMark
      else if d = ':' && standsAlone ds then s.valueMark
      else if (d = '|' || d = '>') && !s.inFlow then do
        let style := if d = '|' then ScalarStyle.literal else .folded
        let (text, c) ← spanBlock (d = '>') s.least c
        let s ← s.dropCandidate
        some { s.push (.scalar style text) with cursor := c, keyAllowed := true }
      else if beginsPlain s.inFlow c.rest then do
        let (text, crosses, c) ← spanPlain s.inFlow s.least c
        s.word crosses (.scalar .plain text) c
      else none

def skipToWord (s : Scan) : Scan :=
  let (c, keyAllowed) :=
    Yaml.skipToWord s.inFlow false s.keyAllowed s.cursor.line s.cursor.column s.cursor.rest
  { s with cursor := c, keyAllowed := keyAllowed }

def finish (s : Scan) : Option (List Token) := do
  let s ← (s.closeBlocks 0).dropCandidate
  some s.tokens.toList

def run : Nat → Scan → Option (List Token)
  | 0, _ => none
  | fuel + 1, s =>
    let s := s.skipToWord
    if s.cursor.rest.isEmpty then s.finish else s.next.bind (run fuel)

end Scan

def tokens? (text : String) : Option (List Token) :=
  if text.toList.all isAllowed then
    let c := Cursor.ofText (unifyBreaks text.toList)
    Scan.run (c.rest.length + 1) { cursor := c }
  else
    none

end EntityQuery.Yaml
