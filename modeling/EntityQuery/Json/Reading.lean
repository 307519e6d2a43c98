import EntityQuery.Json.Basic

/-!
Reading JSON: text is cut into tokens, and a machine with a stack of open arrays and objects builds
the value from them, so that no depth of nesting is too much.
-/

set_option autoImplicit false

namespace EntityQuery.Json

def isGap (c : Char) : Bool :=
  c = ' ' || c = '\t' || c = '\n' || c = '\r'

def hexValue? (c : Char) : Option Nat :=
  if c.isDigit then some (c.toNat - '0'.toNat)
  else if 'a' ≤ c ∧ c ≤ 'f' then some (c.toNat - 'a'.toNat + 10)
  else if 'A' ≤ c ∧ c ≤ 'F' then some (c.toNat - 'A'.toNat + 10)
  else none

theorem hexValue?_hexDigit : ∀ n, n < 16 → hexValue? (hexDigit n) = some n := by decide

def hexUnit? (a b c d : Char) : Option Nat := do
  return (((← hexValue? a) * 16 + (← hexValue? b)) * 16 + (← hexValue? c)) * 16 + (← hexValue? d)

def unescape? : Char → Option Nat
  | '\x22' => some 0x22
  | '\\' => some 0x5C
  | '/' => some 0x2F
  | 'b' => some 0x08
  | 'f' => some 0x0C
  | 'n' => some 0x0A
  | 'r' => some 0x0D
  | 't' => some 0x09
  | _ => none

def spanString : List Char → Option (List Nat × List Char)
  | [] => none
  | '\x22' :: cs => some ([], cs)
  | '\\' :: 'u' :: a :: b :: c :: d :: cs => do
    let n ← hexUnit? a b c d
    let (ns, cs) ← spanString cs
    some (n :: ns, cs)
  | '\\' :: c :: cs => do
    let n ← unescape? c
    let (ns, cs) ← spanString cs
    some (n :: ns, cs)
  | c :: cs =>
    if c.toNat < 0x20 ∨ c = '\\' then
      none
    else do
      let (ns, cs) ← spanString cs
      some (c.toNat :: ns, cs)

def isHighSurrogate (n : Nat) : Bool :=
  0xD800 ≤ n && n ≤ 0xDBFF

def isLowSurrogate (n : Nat) : Bool :=
  0xDC00 ≤ n && n ≤ 0xDFFF

def joinPairs : List Nat → Option (List Char)
  | [] => some []
  | n :: ns =>
    if isHighSurrogate n then
      match ns with
      | m :: ms =>
        if isLowSurrogate m then
          (joinPairs ms).map (Char.ofNat (0x10000 + (n - 0xD800) * 0x400 + (m - 0xDC00)) :: ·)
        else
          none
      | [] => none
    else if isLowSurrogate n then
      none
    else
      (joinPairs ns).map (Char.ofNat n :: ·)

def spanWhole : List Char → Option (List Char × List Char)
  | '0' :: cs => some (['0'], cs)
  | cs => Text.digitRun? cs

def spanFraction : List Char → Option (List Char × List Char)
  | '.' :: cs => Text.digitRun? cs
  | cs => some ([], cs)

def spanExponent : List Char → Option (Option Int × List Char)
  | [] => some (none, [])
  | c :: cs =>
    if c = 'e' ∨ c = 'E' then do
      let (ds, rest) ← Text.digitRun? (Text.spanSign cs).2
      some (some (if (Text.spanSign cs).1 then -(Text.natOf ds : Int) else Text.natOf ds), rest)
    else
      some (none, c :: cs)

def spanLiteral (cs : List Char) : Option (Decimal.Literal × List Char) := do
  let (negative, cs) :=
    match cs with
    | '-' :: cs => (true, cs)
    | _ => (false, cs)
  let (whole, cs) ← spanWhole cs
  let (fraction, cs) ← spanFraction cs
  let (exponent, cs) ← spanExponent cs
  some (⟨negative, fraction.isEmpty && exponent.isNone,
    .ofParts whole fraction (exponent.getD 0)⟩, cs)

-- Whole literals are words where one holds them, except that `-0` is a float; all others are
-- floats, unless they are beyond the greatest one.
def numberOf? (l : Decimal.Literal) : Option Number :=
  let float : Option Number :=
    let x := Binary64.ofDecimal l.negative l.magnitude
    if x.isFinite then some (.float x) else none
  let n : Int := l.magnitude.digits
  if !l.isWhole then float
  else if l.negative then
    if n = 0 then float else NumberKind.ofInt? .int64 (-n) <|> float
  else
    NumberKind.ofInt? .int64 n <|> NumberKind.ofInt? .uint64 n <|> float

def spanToken : List Char → Option (Token × List Char)
  | '[' :: cs => some (.openArray, cs)
  | ']' :: cs => some (.closeArray, cs)
  | '\x7b' :: cs => some (.openObject, cs)
  | '\x7d' :: cs => some (.closeObject, cs)
  | ',' :: cs => some (.comma, cs)
  | ':' :: cs => some (.colon, cs)
  | 'n' :: 'u' :: 'l' :: 'l' :: cs => some (.null, cs)
  | 't' :: 'r' :: 'u' :: 'e' :: cs => some (.bool true, cs)
  | 'f' :: 'a' :: 'l' :: 's' :: 'e' :: cs => some (.bool false, cs)
  | '\x22' :: cs => do
    let (units, cs) ← spanString cs
    some (.string ((joinPairs units).map String.ofList), cs)
  | cs => do
    let (literal, cs) ← spanLiteral cs
    some (((numberOf? literal).map Token.number).getD .tooLarge, cs)

theorem length_of_spanString (cs : List Char) :
    ∀ units rest, spanString cs = some (units, rest) → rest.length < cs.length := by
  fun_induction spanString cs with
  | case1 => simp
  | case2 cs => rintro _ _ ⟨⟩; simp
  | case3 a b c d cs ih =>
    intro units rest h
    simp only [Option.bind_eq_bind, Option.bind_eq_some_iff] at h
    obtain ⟨n, -, ⟨ns, r⟩, h, e⟩ := h
    cases e
    have := ih _ _ h
    simp only [List.length_cons]
    omega
  | case4 c cs _ ih =>
    intro units rest h
    simp only [Option.bind_eq_bind, Option.bind_eq_some_iff] at h
    obtain ⟨n, -, ⟨ns, r⟩, h, e⟩ := h
    cases e
    have := ih _ _ h
    simp only [List.length_cons]
    omega
  | case5 c cs _ _ _ h => simp
  | case6 c cs _ _ _ _ ih =>
    intro units rest h
    simp only [Option.bind_eq_bind, Option.bind_eq_some_iff] at h
    obtain ⟨⟨ns, r⟩, h, e⟩ := h
    cases e
    have := ih _ _ h
    simp only [List.length_cons]
    omega

theorem length_of_spanWhole {cs ds rest : List Char} (h : spanWhole cs = some (ds, rest)) :
    rest.length < cs.length := by
  unfold spanWhole at h
  split at h
  · cases h; simp
  · exact Text.length_of_digitRun? h

theorem length_of_spanFraction {cs ds rest : List Char} (h : spanFraction cs = some (ds, rest)) :
    rest.length ≤ cs.length := by
  unfold spanFraction at h
  split at h
  · exact Nat.le_of_lt (Nat.lt_succ_of_lt (Text.length_of_digitRun? h))
  · cases h; exact Nat.le_refl _

theorem length_of_spanExponent {cs rest : List Char} {e : Option Int}
    (h : spanExponent cs = some (e, rest)) : rest.length ≤ cs.length := by
  unfold spanExponent at h
  split at h
  · cases h; exact Nat.le_refl _
  · rename_i c cs
    split at h
    · simp only [Option.bind_eq_bind, Option.bind_eq_some_iff] at h
      obtain ⟨⟨ds, r⟩, h, e⟩ := h
      cases e
      have h₁ := Text.length_of_digitRun? h
      have h₂ := Text.length_spanSign cs
      simp only [List.length_cons]
      omega
    · cases h; exact Nat.le_refl _

theorem length_of_spanLiteral {cs rest : List Char} {l : Decimal.Literal}
    (h : spanLiteral cs = some (l, rest)) : rest.length < cs.length := by
  unfold spanLiteral at h
  simp only [Option.bind_eq_bind, Option.bind_eq_some_iff] at h
  obtain ⟨⟨w, r₁⟩, h₁, ⟨f, r₂⟩, h₂, ⟨e, r₃⟩, h₃, h⟩ := h
  cases h
  have h₁ := length_of_spanWhole h₁
  have h₂ := length_of_spanFraction h₂
  have h₃ := length_of_spanExponent h₃
  simp only at h₁ h₂ h₃
  split at h₁ <;> simp at h₁ ⊢ <;> omega

theorem length_of_spanToken {cs rest : List Char} {t : Token}
    (h : spanToken cs = some (t, rest)) : rest.length < cs.length := by
  unfold spanToken at h
  split at h
  case h_10 cs =>
    simp only [Option.bind_eq_bind, Option.bind_eq_some_iff] at h
    obtain ⟨⟨units, r⟩, h, e⟩ := h
    cases e
    exact Nat.lt_succ_of_lt (length_of_spanString _ _ _ h)
  case h_11 =>
    simp only [Option.bind_eq_bind, Option.bind_eq_some_iff] at h
    obtain ⟨⟨l, r⟩, h, e⟩ := h
    cases e
    exact length_of_spanLiteral h
  all_goals cases h; simp only [List.length_cons]; omega

def tokenize (cs : List Char) : Option (List Token) :=
  match _h : cs.dropWhile isGap with
  | [] => some []
  | c :: rest =>
    match _h' : spanToken (c :: rest) with
    | some (t, rest') => (tokenize rest').map (t :: ·)
    | none => none
termination_by cs.length
decreasing_by
  have h₁ := length_of_spanToken _h'
  have h₂ := (List.dropWhile_sublist isGap (l := cs)).length_le
  rw [_h] at h₂
  omega

inductive Frame where
  | array (before : List Json)
  | object (before : Option (List (String × Json))) (key : Option String)

inductive State where
  | value (stack : List Frame)
  | item (stack : List Frame)
  -- After `{` or a comma: a key, or the end of an object that has no members yet.
  | member (before : Option (List (String × Json))) (isFirst : Bool) (stack : List Frame)
  | colon (before : Option (List (String × Json))) (key : Option String) (stack : List Frame)
  | after (j : Json) (stack : List Frame)

def closed (before : Option (List (String × Json))) : Json :=
  match before with
  | some ms => .object ms.reverse
  | none => .unreadable

def addMember (before : Option (List (String × Json))) (key : Option String) (j : Json) :
    Option (List (String × Json)) := do
  return (← key, j) :: (← before)

def beginValue (stack : List Frame) : Token → Option State
  | .openArray => some (.item stack)
  | .openObject => some (.member (some []) true stack)
  | .null => some (.after .null stack)
  | .bool b => some (.after (.bool b) stack)
  | .number n => some (.after (.number n) stack)
  | .string (some s) => some (.after (.string s) stack)
  | .string none | .tooLarge => some (.after .unreadable stack)
  | _ => none

def step : State → Token → Option State
  | .value stack, t => beginValue stack t
  | .item stack, .closeArray => some (.after (.array []) stack)
  | .item stack, t => beginValue (.array [] :: stack) t
  | .member before _ stack, .string key => some (.colon before key stack)
  | .member before true stack, .closeObject => some (.after (closed before) stack)
  | .colon before key stack, .colon => some (.value (.object before key :: stack))
  | .after j (.array before :: stack), .comma => some (.value (.array (j :: before) :: stack))
  | .after j (.array before :: stack), .closeArray =>
    some (.after (.array (j :: before).reverse) stack)
  | .after j (.object before key :: stack), .comma =>
    some (.member (addMember before key j) false stack)
  | .after j (.object before key :: stack), .closeObject =>
    some (.after (closed (addMember before key j)) stack)
  | _, _ => none

def finish : State → Option Json
  | .after j [] => some j
  | _ => none

def ofTokens (ts : List Token) : Option Json := do
  finish (← ts.foldlM step (.value []))

def parse (text : String) : Option Json := do
  ofTokens (← tokenize text.toList)

def fieldsOf? {α : Type} (names : List String) (members : List (String × α)) :
    Option (List (String × α)) :=
  let fields := members.filter fun m => names.contains m.1
  if (fields.map Prod.fst).Nodup then some fields else none

-- The fields of a record, given as an object or as an array in the order of the names, of which the
-- last ones may be left off.
def record? (names : List String) : Json → Option (List (String × Json))
  | object members => fieldsOf? names members
  | array items => if items.length ≤ names.length then some (names.zip items) else none
  | _ => none

def nat? : Json → Option Nat
  | number (.int n) => if 0 ≤ n.toInt then some n.toInt.toNat else none
  | number (.uint n) => some n.toNat
  | _ => none

def string? : Json → Option String
  | string s => some s
  | _ => none

end EntityQuery.Json
