import EntityQuery.Yaml.Token

/-!
YAML documents: a machine with a stack of open collections builds the tree from the tokens, so that
no depth of nesting is too much.
-/

set_option autoImplicit false

namespace EntityQuery

inductive Yaml where
  | scalar (tag : Option Yaml.Tag) (style : Yaml.ScalarStyle) (text : String)
  | list (items : List Yaml)
  | mapping (entries : List (Yaml × Yaml))
  | enclosing

namespace Yaml

def empty : Yaml :=
  .scalar none .plain ""

def text? : Yaml → Option String
  | scalar _ _ text => some text
  | _ => none

inductive Frame where
  | item (before : List Yaml)
  -- An item of a block list that is not indented further than the mapping it stands in.
  | hangingItem (before : List Yaml)
  | key (before : List (Yaml × Yaml))
  | value (before : List (Yaml × Yaml)) (key : Yaml)
  | flowItem (before : List Yaml)
  | flowKey (before : List (Yaml × Yaml))
  -- A part of a flow mapping in front of which there is no mark, so that it has no value.
  | bareKey (before : List (Yaml × Yaml))
  | flowValue (before : List (Yaml × Yaml)) (key : Yaml)
  -- A part of a pair, which is a mapping of one entry among the items of a flow list.
  | pairKey (before : List Yaml)
  | pairValue (before : List Yaml) (key : Yaml)
  | anchored (index : Nat) (name : String)

structure Place where
  inFlow : Bool := false
  mayHang : Bool := false
  mayBeEmpty : Bool := false
  tag : Option Tag := none
  isAnchored : Bool := false

inductive Waiting where
  | prologue (hasVersion : Bool)
  | node (p : Place)
  | items (before : List Yaml)
  | hangingItems (before : List Yaml)
  | entries (before : List (Yaml × Yaml))
  | keyed (before : List (Yaml × Yaml)) (key : Yaml)
  | flowItem (before : List Yaml)
  | flowItems (before : List Yaml)
  | flowEntry (before : List (Yaml × Yaml))
  | flowEntries (before : List (Yaml × Yaml))
  | flowKeyed (before : List (Yaml × Yaml)) (key : Yaml)
  | pair (before : List Yaml)
  | pairKeyed (before : List Yaml) (key : Yaml)
  | done (document : Yaml)

structure Builder where
  stack : List Frame := []
  waits : Waiting := .prologue false
  handles : List (String × Tag) := []
  -- The anchors in the order of the nodes they name, which are missing while they are open.
  anchors : Array (String × Option Yaml) := #[]

namespace Builder

def wait (b : Builder) (w : Waiting) : Option Builder :=
  some { b with waits := w }

def expect (b : Builder) (f : Frame) (p : Place) : Builder :=
  { b with stack := f :: b.stack, waits := .node p }

def complete (b : Builder) (n : Yaml) : List Frame → Builder
  | [] => { b with stack := [], waits := .done n }
  | .anchored index name :: stack =>
    { b with anchors := b.anchors.setIfInBounds index (name, some n) }.complete n stack
  | .item before :: stack => { b with stack := stack, waits := .items (n :: before) }
  | .hangingItem before :: stack => { b with stack := stack, waits := .hangingItems (n :: before) }
  | .key before :: stack => { b with stack := stack, waits := .keyed before n }
  | .value before key :: stack => { b with stack := stack, waits := .entries ((key, n) :: before) }
  | .flowItem before :: stack => { b with stack := stack, waits := .flowItems (n :: before) }
  | .flowKey before :: stack => { b with stack := stack, waits := .flowKeyed before n }
  | .bareKey before :: stack =>
    { b with stack := stack, waits := .flowEntries ((n, empty) :: before) }
  | .flowValue before key :: stack =>
    { b with stack := stack, waits := .flowEntries ((key, n) :: before) }
  | .pairKey before :: stack => { b with stack := stack, waits := .pairKeyed before n }
  | .pairValue before key :: stack =>
    { b with stack := stack, waits := .flowItems (.mapping [(key, n)] :: before) }

def close (b : Builder) (n : Yaml) : Builder :=
  b.complete n b.stack

def handle? (b : Builder) (handle : String) : Option Tag :=
  (b.handles ++ [("", []), ("!", octets "!"), ("!!", octets "tag:yaml.org,2002:")]).lookup handle

def addDirective (b : Builder) (hasVersion : Bool) : Directive → Option Builder
  | .version major minor =>
    if !hasVersion && major = 1 && (minor = 1 || minor = 2) then b.wait (.prologue true) else none
  | .tags handle start =>
    if (b.handles.lookup handle).isSome then none
    else some { b with handles := (handle, start) :: b.handles }

def beginNode (b : Builder) (p : Place) : Token → Option Builder
  | .alias name => do
    if p.isAnchored || p.tag.isSome then none
    let (_, n) ← b.anchors.findRev? (·.1 == name)
    some (b.close (n.getD .enclosing))
  | .anchor name =>
    if p.isAnchored then none
    else
      let p := { p with isAnchored := true, mayBeEmpty := true }
      let f := Frame.anchored b.anchors.size name
      some { b.expect f p with anchors := b.anchors.push (name, none) }
  | .tag handle tag => do
    if p.tag.isSome then none
    let start ← b.handle? handle
    b.wait (.node { p with tag := some (start ++ tag), mayBeEmpty := true })
  | .scalar style text =>
    some (b.close (.scalar (p.tag.filter (· != octets "!")) style text))
  | .openList => b.wait (.flowItem [])
  | .openMapping => b.wait (.flowEntry [])
  | .blockList => if p.inFlow then none else b.wait (.items [])
  | .blockMapping => if p.inFlow then none else b.wait (.entries [])
  | .dash => if p.mayHang then some (b.expect (.hangingItem []) { mayBeEmpty := true }) else none
  | _ => none

def stepBetween (b : Builder) (t : Token) : Option Builder :=
  match b.waits, t with
  | .items before, .dash => some (b.expect (.item before) { mayBeEmpty := true })
  | .items before, .blockEnd => some (b.close (.list before.reverse))
  | .entries before, .key => some (b.expect (.key before) { mayHang := true, mayBeEmpty := true })
  | .entries before, .blockEnd => some (b.close (.mapping before.reverse))
  | .flowItems before, .comma => b.wait (.flowItem before)
  | .flowItems before, .closeList => some (b.close (.list before.reverse))
  | .flowEntries before, .comma => b.wait (.flowEntry before)
  | .flowEntries before, .closeMapping => some (b.close (.mapping before.reverse))
  | .done _, .documentEnd => some b
  | _, _ => none

def stepKeyed (b : Builder) (t : Token) : Option Builder :=
  match b.waits, t with
  | .keyed before key, .value =>
    some (b.expect (.value before key) { mayHang := true, mayBeEmpty := true })
  | .keyed before key, t => { b with waits := .entries ((key, empty) :: before) }.stepBetween t
  | .flowKeyed before key, .value =>
    some (b.expect (.flowValue before key) { inFlow := true, mayBeEmpty := true })
  | .flowKeyed before key, t =>
    { b with waits := .flowEntries ((key, empty) :: before) }.stepBetween t
  | .pairKeyed before key, .value =>
    some (b.expect (.pairValue before key) { inFlow := true, mayBeEmpty := true })
  | .pairKeyed before key, t =>
    { b with waits := .flowItems (.mapping [(key, empty)] :: before) }.stepBetween t
  | _, t => b.stepBetween t

-- A step after a complete node; no token ends a list that hangs, but what follows it.
def stepAfter (b : Builder) (t : Token) : Option Builder :=
  match b.waits, t with
  | .hangingItems before, .dash => some (b.expect (.hangingItem before) { mayBeEmpty := true })
  | .hangingItems before, t => (b.close (.list before.reverse)).stepKeyed t
  | _, t => b.stepKeyed t

def step (b : Builder) (t : Token) : Option Builder :=
  match b.waits, t with
  | .prologue hasVersion, .directive d => b.addDirective hasVersion d
  | .prologue _, .documentStart => b.wait (.node { mayBeEmpty := true })
  | .prologue hasVersion, t => if hasVersion || !b.handles.isEmpty then none else b.beginNode {} t
  | .node p, t =>
    match b.beginNode p t with
    | some b => some b
    | none =>
      if p.mayBeEmpty then (b.close (.scalar p.tag .plain "")).stepAfter t else none
  | .flowItem before, .closeList => some (b.close (.list before.reverse))
  | .flowItem before, .key => b.wait (.pair before)
  | .flowItem before, t => (b.expect (.flowItem before) {}).beginNode { inFlow := true } t
  | .flowEntry before, .closeMapping => some (b.close (.mapping before.reverse))
  | .flowEntry before, .key =>
    some (b.expect (.flowKey before) { inFlow := true, mayBeEmpty := true })
  | .flowEntry before, t => (b.expect (.bareKey before) {}).beginNode { inFlow := true } t
  -- A mark that stands where the key of a pair should is dropped.
  | .pair before, .value | .pair before, .comma | .pair before, .closeList =>
    b.wait (.pairKeyed before empty)
  | .pair before, t => (b.expect (.pairKey before) {}).beginNode { inFlow := true } t
  | _, t => b.stepAfter t

def finish (b : Builder) : Option Yaml :=
  let b :=
    match b.waits with
    | .node p => if p.mayBeEmpty then b.close (.scalar p.tag .plain "") else b
    | _ => b
  match b.waits with
  | .prologue false => if b.handles.isEmpty then some empty else none
  | .done document => some document
  | _ => none

end Builder

def ofTokens? (ts : List Token) : Option Yaml := do
  (← ts.foldlM Builder.step {}).finish

def parse (text : String) : Option Yaml := do
  ofTokens? (← tokens? text)

end Yaml

end EntityQuery
