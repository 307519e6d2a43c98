set_option autoImplicit false

namespace EntityQuery.Text

def occursIn (needle : List Char) : List Char → Bool
  | [] => needle.isEmpty
  | c :: cs => needle.isPrefixOf (c :: cs) || occursIn needle cs

theorem occursIn_iff (needle text : List Char) : occursIn needle text = true ↔ needle <:+: text := by
  induction text with
  | nil => simp [occursIn]
  | cons c cs ih => simp [occursIn, List.infix_cons_iff, ih]

-- `Char.toLower` maps the ASCII capitals alone, so no other letter changes.
def lower (cs : List Char) : List Char :=
  cs.map Char.toLower

def sameName (a b : String) : Bool :=
  lower a.toList == lower b.toList

def double (c : Char) (cs : List Char) : List Char :=
  cs.flatMap fun x => if x = c then [c, c] else [x]

end EntityQuery.Text
