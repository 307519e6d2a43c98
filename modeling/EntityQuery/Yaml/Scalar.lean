import EntityQuery.Json.Reading
import EntityQuery.Yaml.Cursor

set_option autoImplicit false

namespace EntityQuery.Yaml

inductive ScalarStyle where
  | plain
  | quoted
  | literal
  | folded
  deriving DecidableEq, Repr

def isFlowMark (c : Char) : Bool :=
  [',', '[', ']', '\x7b', '\x7d'].contains c

def beginsPlain (inFlow : Bool) : List Char → Bool
  | [] => false
  | c :: cs =>
    if c = '-' || (!inFlow && (c = '?' || c = ':')) then !endsWord cs
    else !endsWord (c :: cs) && !isFlowMark c && !"?:#&*!|>%@\x60\x22\x27".toList.contains c

def endsPlain (inFlow : Bool) : List Char → Bool
  | [] => true
  | c :: cs => (c = ':' && endsWord cs) || (inFlow && isFlowMark c)

def isStrayColon : List Char → Bool
  | ':' :: c :: _ => c = '?' || isFlowMark c
  | _ => false

def plainEnd (text : List Char) (gap : Gap) (c : Cursor) : String × Bool × Cursor :=
  (String.ofList text.reverse, !gap.breaks.isEmpty, c)

-- Reads a plain scalar, of which `text` and `gap` came before, last characters first. Outside of
-- flow collections its lines begin at column `least` or behind it, and tabs must not lead them
-- there.
def plainFrom (inFlow : Bool) (least line column : Nat) (text : List Char) (gap : Gap) :
    List Char → Option (String × Bool × Cursor)
  | [] => some (plainEnd text gap ⟨[], line, column⟩)
  | c :: cs =>
    if isBreak c then
      plainFrom inFlow least (line + 1) 0 text (gap.addBreak c) cs
    else if isBlank c then
      if c = '\t' && !gap.breaks.isEmpty && column < least then none
      else plainFrom inFlow least line (column + 1) text (gap.addBlank c) cs
    else if !gap.breaks.isEmpty
        && ((!inFlow && column < least) || isDocumentMarker column (c :: cs)) then
      some (plainEnd text gap ⟨c :: cs, line, column⟩)
    else if !gap.isEmpty && c = '#' then
      some (plainEnd text gap ⟨c :: cs, line, column⟩)
    else if inFlow && isStrayColon (c :: cs) then
      none
    else if endsPlain inFlow (c :: cs) then
      some (plainEnd text gap ⟨c :: cs, line, column⟩)
    else
      plainFrom inFlow least line (column + 1) (c :: (gap.text ++ text)) {} cs

def spanPlain (inFlow : Bool) (least : Nat) (c : Cursor) : Option (String × Bool × Cursor) :=
  plainFrom inFlow least c.line c.column [] {} c.rest

def hexEscape (width : Nat) (cs : List Char) : Option Char := do
  let n ← (cs.take width).foldlM (fun n c => (Json.hexValue? c).map (16 * n + ·)) 0
  if width ≤ cs.length ∧ n.isValidChar then some (Char.ofNat n) else none

def escape (c : Char) (cs : List Char) : Option (Char × Nat) :=
  match c with
  | '0' => some ('\x00', 0)
  | 'a' => some ('\x07', 0)
  | 'b' => some ('\x08', 0)
  | 't' | '\t' => some ('\t', 0)
  | 'n' => some ('\n', 0)
  | 'v' => some ('\x0B', 0)
  | 'f' => some ('\x0C', 0)
  | 'r' => some ('\r', 0)
  | 'e' => some ('\x1B', 0)
  | ' ' => some (' ', 0)
  | '\x22' => some ('\x22', 0)
  | '/' => some ('/', 0)
  | '\\' => some ('\\', 0)
  | 'N' => some ('\x85', 0)
  | '_' => some ('\xA0', 0)
  | 'L' => some ('\u2028', 0)
  | 'P' => some ('\u2029', 0)
  | 'x' => (hexEscape 2 cs).map (·, 2)
  | 'u' => (hexEscape 4 cs).map (·, 4)
  | 'U' => (hexEscape 8 cs).map (·, 8)
  | _ => none

def quotedFrom (quote : Char) (line column : Nat) (text : List Char) (gap : Gap) :
    List Char → Option (String × Cursor)
  | [] => none
  | c :: cs =>
    if isDocumentMarker column (c :: cs) then none
    else if isBreak c then quotedFrom quote (line + 1) 0 text (gap.addBreak c) cs
    else if isBlank c then quotedFrom quote line (column + 1) text (gap.addBlank c) cs
    else
      let text := gap.text ++ text
      if c = quote then
        if quote = '\x27' ∧ cs.head? = some '\x27' then
          quotedFrom quote line (column + 2) ('\x27' :: text) {} (cs.drop 1)
        else
          some (String.ofList text.reverse, ⟨cs, line, column + 1⟩)
      else if quote = '\x22' ∧ c = '\\' then
        match cs with
        | [] => none
        | d :: ds =>
          if isBreak d then quotedFrom quote (line + 1) 0 text ⟨[], [], true⟩ ds
          else
            match escape d ds with
            | some (e, n) => quotedFrom quote line (column + 2 + n) (e :: text) {} (ds.drop n)
            | none => none
      else
        quotedFrom quote line (column + 1) (c :: text) {} cs
termination_by cs => cs.length
decreasing_by all_goals simp_wf <;> simp_all <;> omega

def spanQuoted (quote : Char) (c : Cursor) : Option (String × Cursor) :=
  quotedFrom quote c.line (c.column + 1) [] {} (c.rest.drop 1)

inductive Chomping where
  | strip
  | clip
  | keep
  deriving DecidableEq, Repr

def Chomping.ofMark? : Char → Option Chomping
  | '-' => some strip
  | '+' => some keep
  | _ => none

def blockHeader (cs : List Char) : Option (Chomping × Nat × Nat) :=
  let width (c : Char) : Nat := if c.isDigit then c.toNat - '0'.toNat else 0
  match cs with
  | [] => some (.clip, 0, 0)
  | c :: cs =>
    let d := cs.head?.getD ' '
    match Chomping.ofMark? c with
    | some chomping =>
      if d = '0' then none else some (chomping, width d, if d.isDigit then 2 else 1)
    | none =>
      if c = '0' then none
      else if !c.isDigit then some (.clip, 0, 0)
      else
        match Chomping.ofMark? d with
        | some chomping => some (chomping, width c, 2)
        | none => some (.clip, width c, 1)

structure Block where
  text : List Char := []
  lastBreak : Option Char := none
  breaks : List Char := []
  -- Whether the last line that holds something begins with a blank; such lines are not joined.
  isIndented : Bool := false
  deriving DecidableEq, Repr

namespace Block

def beginLine (b : Block) (isFolded : Bool) (c : Char) : Block :=
  let joins := isFolded && b.lastBreak = some '\n' && !b.isIndented && !isBlank c
  let between :=
    if !joins then b.breaks ++ b.lastBreak.toList
    else if b.breaks.isEmpty then [' ']
    else b.breaks
  { text := c :: (between ++ b.text), isIndented := isBlank c }

def addBreak (b : Block) (inLine : Bool) (c : Char) : Block :=
  if inLine then { b with lastBreak := some c } else { b with breaks := c :: b.breaks }

def content (b : Block) (chomping : Chomping) : String :=
  let tail :=
    match chomping with
    | .strip => []
    | .clip => b.lastBreak.toList
    | .keep => b.breaks ++ b.lastBreak.toList
  String.ofList (tail ++ b.text).reverse

end Block

def blockIndent (line column widest : Nat) (breaks : List Char) :
    List Char → Option (Nat × List Char × Cursor)
  | [] => some (max widest column, breaks, ⟨[], line, column⟩)
  | c :: cs =>
    if c = ' ' then blockIndent line (column + 1) widest breaks cs
    else if isBreak c then blockIndent (line + 1) 0 (max widest column) (c :: breaks) cs
    else if c = '\t' then none
    else some (max widest column, breaks, ⟨c :: cs, line, column⟩)

def blockFrom (isFolded : Bool) (indent line column : Nat) (b : Block) (inLine : Bool) :
    List Char → Option (Block × Cursor)
  | [] => some (b, ⟨[], line, column⟩)
  | c :: cs =>
    if isBreak c then blockFrom isFolded indent (line + 1) 0 (b.addBreak inLine c) false cs
    else if inLine then
      blockFrom isFolded indent line (column + 1) { b with text := c :: b.text } true cs
    else if column < indent then
      if c = ' ' then blockFrom isFolded indent line (column + 1) b false cs
      else if c = '\t' then none
      else some (b, ⟨c :: cs, line, column⟩)
    else
      blockFrom isFolded indent line (column + 1) (b.beginLine isFolded c) true cs

def spanBlock (isFolded : Bool) (least : Nat) (c : Cursor) : Option (String × Cursor) := do
  let (chomping, width, n) ← blockHeader (c.rest.drop 1)
  let c ← (c.skip (n + 1)).endLine
  let (indent, breaks, c) ←
    if width = 0 then
      (blockIndent c.line c.column 0 [] c.rest).map fun (widest, found) =>
        (max widest (max least 1), found)
    else
      some (least - 1 + width, [], c)
  let (b, c) ← blockFrom isFolded indent c.line c.column { breaks := breaks } false c.rest
  some (b.content chomping, c)

end EntityQuery.Yaml
