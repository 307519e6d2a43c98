set_option autoImplicit false

namespace EntityQuery.Yaml

def isBlank (c : Char) : Bool :=
  c = ' ' || c = '\t'

-- What ends a line once `unifyBreaks` has run: `\n`, or a line or paragraph separator.
def isBreak (c : Char) : Bool :=
  c = '\n' || c = '\u2028' || c = '\u2029'

def isAllowed (c : Char) : Bool :=
  ['\t', '\n', '\r', '\x85'].contains c || (' ' ≤ c && c ≤ '~')
    || (0xA0 ≤ c.toNat && c.toNat ≠ 0xFFFE && c.toNat ≠ 0xFFFF)

def unifyBreaks (cs : List Char) : List Char :=
  (cs.zip (cs.drop 1 ++ [' '])).filterMap fun (c, next) =>
    if c = '\r' && next = '\n' then none
    else if c = '\r' || c = '\x85' then some '\n'
    else some c

def endsWord : List Char → Bool
  | [] => true
  | c :: _ => isBlank c || isBreak c

structure Cursor where
  rest : List Char
  line : Nat := 0
  column : Nat := 0
  deriving DecidableEq, Repr

namespace Cursor

-- A byte order mark in front counts as a column.
def ofText (cs : List Char) : Cursor :=
  match cs with
  | '\uFEFF' :: cs => ⟨cs, 0, 1⟩
  | cs => ⟨cs, 0, 0⟩

def skip (c : Cursor) (n : Nat) : Cursor :=
  ⟨c.rest.drop n, c.line, c.column + n⟩

def span (c : Cursor) (p : Char → Bool) : List Char × Cursor :=
  (c.rest.takeWhile p, c.skip (c.rest.takeWhile p).length)

def endLine (c : Cursor) : Option Cursor :=
  let c := (c.span isBlank).2
  let c := if c.rest.head? = some '#' then (c.span (!isBreak ·)).2 else c
  match c.rest with
  | [] => some c
  | b :: rest => if isBreak b then some ⟨rest, c.line + 1, 0⟩ else none

end Cursor

def isMarker (mark : Char) (column : Nat) (cs : List Char) : Bool :=
  column = 0 && cs.take 3 = [mark, mark, mark] && endsWord (cs.drop 3)

def isDocumentMarker (column : Nat) (cs : List Char) : Bool :=
  isMarker '-' column cs || isMarker '.' column cs

-- Skips blanks, comments and line breaks. Tabs count as blanks in flow collections and where no key
-- may begin, and in block collections a new line is a place where one may.
def skipToWord (inFlow : Bool) (inComment keyAllowed : Bool) (line column : Nat) :
    List Char → Cursor × Bool
  | [] => (⟨[], line, column⟩, keyAllowed)
  | c :: cs =>
    if isBreak c then
      skipToWord inFlow false (keyAllowed || !inFlow) (line + 1) 0 cs
    else if inComment || c = ' ' || (c = '\t' && (inFlow || !keyAllowed)) then
      skipToWord inFlow inComment keyAllowed line (column + 1) cs
    else if c = '#' then
      skipToWord inFlow true keyAllowed line (column + 1) cs
    else
      (⟨c :: cs, line, column⟩, keyAllowed)

structure Gap where
  blanks : List Char := []
  breaks : List Char := []
  -- Begun by a break that was escaped, and is not among them.
  isEscaped : Bool := false
  deriving DecidableEq, Repr

namespace Gap

def isEmpty (g : Gap) : Bool :=
  g.blanks.isEmpty && g.breaks.isEmpty

def addBlank (g : Gap) (c : Char) : Gap :=
  if g.breaks.isEmpty && !g.isEscaped then { g with blanks := c :: g.blanks } else g

def addBreak (g : Gap) (c : Char) : Gap :=
  { g with breaks := c :: g.breaks }

-- What a gap stands for, last character first: a single break is a space, and of several the first
-- is dropped. Separators and what follows an escaped break stay as they are.
def text (g : Gap) : List Char :=
  if g.breaks.isEmpty then g.blanks
  else if g.isEscaped || g.breaks.getLast? ≠ some '\n' then g.breaks
  else if g.breaks.length = 1 then [' ']
  else g.breaks.dropLast

end Gap

end EntityQuery.Yaml
