import EntityQuery.Text.Search

set_option autoImplicit false

namespace EntityQuery.Like

inductive Mode where
  | anywhere
  | atStart
  | atEnd
  deriving DecidableEq, Repr

def Mode.finds (mode : Mode) (needle text : List Char) : Bool :=
  match mode with
  | anywhere => Text.occursIn needle text
  | atStart => needle.isPrefixOf text
  | atEnd => needle.isSuffixOf text

def escapeMark : Char := '\\'

def isSpecial (c : Char) : Bool :=
  c = escapeMark || c = '%' || c = '_'

def escape (needle : List Char) : List Char :=
  needle.flatMap fun c => if isSpecial c then [escapeMark, c] else [c]

def Mode.pattern (mode : Mode) (needle : List Char) : List Char :=
  match mode with
  | anywhere => '%' :: escape needle ++ ['%']
  | atStart => escape needle ++ ['%']
  | atEnd => '%' :: escape needle

def declaresEscape (needle : List Char) : Bool :=
  (escape needle).length != needle.length

end EntityQuery.Like
