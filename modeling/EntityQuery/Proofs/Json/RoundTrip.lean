import EntityQuery.Proofs.Numeric.Literal

/-!
Reading what was written. The text of a value without unreadable parts and without infinite numbers
is read as that value, in which unsigned words have become signed ones where those hold them.
-/

set_option autoImplicit false

namespace EntityQuery.Json

mutual

def canonical : Json → Json
  | number n => number n.canonical
  | array items => array (canonicalItems items)
  | object members => object (canonicalMembers members)
  | j => j

def canonicalItems : List Json → List Json
  | [] => []
  | j :: js => j.canonical :: canonicalItems js

def canonicalMembers : List (String × Json) → List (String × Json)
  | [] => []
  | (k, j) :: ms => (k, j.canonical) :: canonicalMembers ms

end

mutual

def Exact : Json → Prop
  | number n => n.IsFinite
  | array items => ItemsExact items
  | object members => MembersExact members
  | unreadable => False
  | _ => True

def ItemsExact : List Json → Prop
  | [] => True
  | j :: js => j.Exact ∧ ItemsExact js

def MembersExact : List (String × Json) → Prop
  | [] => True
  | (_, j) :: ms => j.Exact ∧ MembersExact ms

end

mutual

@[simp] theorem fits_canonical (j : Json) (room : Nat) : j.canonical.fits room = j.fits room := by
  match j with
  | .array js => simp [canonical, fits, itemsFit_canonical js]
  | .object ms => simp [canonical, fits, membersFit_canonical ms]
  | .null | .bool _ | .number _ | .string _ | .unreadable => rfl

theorem itemsFit_canonical (js : List Json) (room : Nat) :
    itemsFit room (canonicalItems js) = itemsFit room js := by
  match js with
  | [] => rfl
  | j :: js => simp [canonicalItems, itemsFit, fits_canonical j, itemsFit_canonical js]

theorem membersFit_canonical (ms : List (String × Json)) (room : Nat) :
    membersFit room (canonicalMembers ms) = membersFit room ms := by
  match ms with
  | [] => rfl
  | (k, j) :: ms => simp [canonicalMembers, membersFit, fits_canonical j, membersFit_canonical ms]

end

mutual

theorem render_canonical (j : Json) :
    j.canonical.tokens.flatMap Token.render = j.tokens.flatMap Token.render := by
  match j with
  | .number n => simp [canonical, tokens, Token.render]
  | .array js => simp [canonical, tokens, renderItems_canonical js]
  | .object ms => simp [canonical, tokens, renderMembers_canonical ms]
  | .null | .bool _ | .string _ | .unreadable => rfl

theorem renderItems_canonical (js : List Json) :
    (itemTokens (canonicalItems js)).flatMap Token.render =
      (itemTokens js).flatMap Token.render := by
  match js with
  | [] => rfl
  | [j] => simp [canonicalItems, itemTokens, render_canonical j]
  | j :: k :: js =>
    have rest := renderItems_canonical (k :: js)
    simp only [canonicalItems] at rest
    simp [canonicalItems, itemTokens, render_canonical j, rest]

theorem renderMembers_canonical (ms : List (String × Json)) :
    (memberTokens (canonicalMembers ms)).flatMap Token.render =
      (memberTokens ms).flatMap Token.render := by
  match ms with
  | [] => rfl
  | [(k, j)] => simp [canonicalMembers, memberTokens, render_canonical j]
  | (k, j) :: (l, i) :: ms =>
    have rest := renderMembers_canonical ((l, i) :: ms)
    simp only [canonicalMembers] at rest
    simp [canonicalMembers, memberTokens, render_canonical j, rest]

end

@[simp] theorem text_canonical (j : Json) : j.canonical.text = j.text := by
  rw [text, render_canonical, text]

theorem hexUnit?_control {n : Nat} (control : n < 0x20) :
    hexUnit? '0' '0' (hexDigit (n / 16)) (hexDigit (n % 16)) = some n := by
  have zero : hexValue? '0' = some 0 := rfl
  have high := hexValue?_hexDigit (n / 16) (by omega)
  have low := hexValue?_hexDigit (n % 16) (by omega)
  simp [hexUnit?, zero, high, low]
  omega

theorem spanString_escapeChar (c : Char) (rest : List Char) :
    spanString (escapeChar c ++ rest) =
      (spanString rest).map fun (ns, after) => (c.toNat :: ns, after) := by
  unfold escapeChar
  split
  case h_8 quote backslash _ _ _ _ _ =>
    split
    next control => simp [spanString, hexUnit?_control control, Option.map_eq_bind]
    next printed =>
      have notQuote : c ≠ '\x22' := fun same => quote (by rw [same]; rfl)
      have notBackslash : c ≠ '\\' := fun same => backslash (by rw [same]; rfl)
      simp [spanString, notBackslash, printed, Option.map_eq_bind]
  all_goals simp [*, spanString, unescape?, Option.map_eq_bind]

theorem spanString_escaped (cs rest : List Char) :
    spanString (cs.flatMap escapeChar ++ '\x22' :: rest) = some (cs.map Char.toNat, rest) := by
  induction cs with
  | nil => simp [spanString]
  | cons c cs ih => simp [spanString_escapeChar, ih]

theorem joinPairs_toNat (cs : List Char) : joinPairs (cs.map Char.toNat) = some cs := by
  induction cs with
  | nil => rfl
  | cons c cs ih =>
    have scalar : c.toNat < 0xD800 ∨ 0xDFFF < c.toNat := by
      rcases c.valid with low | high
      · exact .inl low
      · exact .inr high.1
    have high : isHighSurrogate c.toNat = false := by simp [isHighSurrogate]; omega
    have low : isLowSurrogate c.toNat = false := by simp [isLowSurrogate]; omega
    rw [List.map_cons]
    unfold joinPairs
    simp [high, low, ih]

namespace Token

def canonical : Token → Token
  | number n => number n.canonical
  | t => t

def Exact : Token → Prop
  | number n => n.IsFinite
  | tooLarge | string none => False
  | _ => True

end Token

theorem isGap_of_isBlank {c : Char} (shown : Text.isBlank c = false) : isGap c = false := by
  have blanks : Text.isBlank ' ' ∧ Text.isBlank '\t' ∧ Text.isBlank '\n' ∧ Text.isBlank '\r' := by
    decide
  by_contra gap
  simp only [isGap, Bool.not_eq_false, Bool.or_eq_true, decide_eq_true_eq] at gap
  rcases gap with ((rfl | rfl) | rfl) | rfl <;> simp_all

theorem spanToken_number (w : Written) (proper : w.Proper) {rest : List Char} (ends : Ends rest) :
    spanToken (w.text ++ rest) =
      some (((numberOf? w.literal).map Token.number).getD .tooLarge, rest) := by
  have literal := w.spanLiteral_append proper ends
  obtain ⟨c, cs, text, first⟩ := w.text_head proper
  rw [text, List.cons_append] at literal ⊢
  unfold spanToken
  split
  case h_11 => simp [literal]
  all_goals simp_all

theorem spanToken_render {t : Token} (exact : t.Exact) {rest : List Char}
    (ends : ∀ n, t = .number n → Ends rest) :
    spanToken (t.render ++ rest) = some (t.canonical, rest) := by
  cases t with
  | number n =>
    obtain ⟨w, text, proper, read⟩ := exists_written_number exact
    have span := spanToken_number w proper (ends n rfl)
    rw [Token.render, text, span, read]
    rfl
  | string s =>
    cases s with
    | none => cases exact
    | some s =>
      have span := spanString_escaped s.toList rest
      simp [Token.render, quoted, spanToken, span, joinPairs_toNat, Token.canonical]
  | bool b => cases b <;> rfl
  | tooLarge => cases exact
  | _ => rfl

theorem render_head {t : Token} (exact : t.Exact) :
    ∃ c cs, t.render = c :: cs ∧ Text.isBlank c = false := by
  cases t with
  | number n =>
    obtain ⟨w, text, proper, _⟩ := exists_written_number exact
    obtain ⟨c, cs, begins, first⟩ := w.text_head proper
    refine ⟨c, cs, text.trans begins, ?_⟩
    rcases first with rfl | digit
    · decide
    · exact Text.isBlank_of_isDigit digit
  | string s =>
    cases s with
    | none => cases exact
    | some s => exact ⟨_, _, rfl, by decide⟩
  | bool b => cases b <;> exact ⟨_, _, rfl, by decide⟩
  | tooLarge => cases exact
  | _ => exact ⟨_, _, rfl, by decide⟩

theorem tokenize_eq {cs rest : List Char} {t : Token} (begins : ∀ c ∈ cs.head?, isGap c = false)
    (span : spanToken cs = some (t, rest)) : tokenize cs = (tokenize rest).map (t :: ·) := by
  have unchanged : cs.dropWhile isGap = cs := by
    cases cs with
    | nil => rfl
    | cons c cs => simp [begins c (by simp)]
  rw [tokenize]
  split
  next none =>
    rw [unchanged] at none
    subst none
    cases length_of_spanToken span
  next c after some =>
    rw [unchanged] at some
    subst some
    split
    next t' rest' span' =>
      obtain ⟨rfl, rfl⟩ : t' = t ∧ rest' = rest := by simpa using span'.symm.trans span
      rfl
    next none => cases none.symm.trans span

theorem tokenize_render {t : Token} (exact : t.Exact) {rest : List Char}
    (ends : ∀ n, t = .number n → Ends rest) :
    tokenize (t.render ++ rest) = (tokenize rest).map (t.canonical :: ·) := by
  apply tokenize_eq _ (spanToken_render exact ends)
  obtain ⟨c, cs, text, shown⟩ := render_head exact
  rw [text]
  simpa using isGap_of_isBlank shown

theorem ends_of_render {t : Token} (mark : t = .comma ∨ t = .closeArray ∨ t = .closeObject)
    (rest : List Char) : Ends (t.render ++ rest) := by
  rcases mark with rfl | rfl | rfl <;> simp [Ends, Token.render]

mutual

theorem tokenize_tokens {j : Json} (exact : j.Exact) {rest : List Char} (ends : Ends rest) :
    tokenize (j.tokens.flatMap Token.render ++ rest) =
      (tokenize rest).map (j.canonical.tokens ++ ·) := by
  have last {t : Token} (written : t.Exact) := tokenize_render written fun _ _ => ends
  match j with
  | .null => simpa [tokens, canonical, Token.canonical] using last (t := .null) trivial
  | .bool b => simpa [tokens, canonical, Token.canonical] using last (t := .bool b) trivial
  | .number n => simpa [tokens, canonical, Token.canonical] using last (t := .number n) exact
  | .string s => simpa [tokens, canonical, Token.canonical] using last (t := .string (some s)) trivial
  | .array items =>
    have items_exact : ItemsExact items := exact
    have begin := @tokenize_render .openArray trivial
    have inside := tokenize_itemTokens items_exact (ends_of_render (.inr (.inl rfl)) rest)
    have close := last (t := .closeArray) trivial
    simp [tokens, canonical, Token.canonical, begin, inside, close]
    rfl
  | .object members =>
    have members_exact : MembersExact members := exact
    have begin := @tokenize_render .openObject trivial
    have inside := tokenize_memberTokens members_exact (ends_of_render (.inr (.inr rfl)) rest)
    have close := last (t := .closeObject) trivial
    simp [tokens, canonical, Token.canonical, begin, inside, close]
    rfl
  | .unreadable => cases exact

theorem tokenize_itemTokens {js : List Json} (exact : ItemsExact js) {rest : List Char}
    (ends : Ends rest) : tokenize ((itemTokens js).flatMap Token.render ++ rest) =
      (tokenize rest).map (itemTokens (canonicalItems js) ++ ·) := by
  match js with
  | [] => simp [itemTokens, canonicalItems]
  | [j] => simpa [itemTokens, canonicalItems] using tokenize_tokens exact.1 ends
  | j :: k :: js =>
    have later : ItemsExact (k :: js) := exact.2
    have more := tokenize_itemTokens later ends
    have comma := @tokenize_render .comma trivial
    have first := tokenize_tokens exact.1 (ends_of_render (.inl rfl)
      ((itemTokens (k :: js)).flatMap Token.render ++ rest))
    simp [itemTokens, canonicalItems, Token.canonical, first, comma, more]
    rfl

theorem tokenize_memberTokens {ms : List (String × Json)} (exact : MembersExact ms)
    {rest : List Char} (ends : Ends rest) :
    tokenize ((memberTokens ms).flatMap Token.render ++ rest) =
      (tokenize rest).map (memberTokens (canonicalMembers ms) ++ ·) := by
  have key (k : String) := @tokenize_render (.string (some k)) trivial
  have colon := @tokenize_render .colon trivial
  match ms with
  | [] => simp [memberTokens, canonicalMembers]
  | [(k, j)] =>
    have value := tokenize_tokens exact.1 ends
    simp [memberTokens, canonicalMembers, Token.canonical, key k, colon, value]
    rfl
  | (k, j) :: m :: ms =>
    have later : MembersExact (m :: ms) := exact.2
    have more := tokenize_memberTokens later ends
    have comma := @tokenize_render .comma trivial
    have value := tokenize_tokens exact.1 (ends_of_render (.inl rfl)
      ((memberTokens (m :: ms)).flatMap Token.render ++ rest))
    simp [memberTokens, canonicalMembers, Token.canonical, key k, colon, value, comma, more]
    rfl

end

theorem tokens_head {j : Json} (exact : j.Exact) :
    ∃ t ts, j.tokens = t :: ts ∧ t.Exact ∧ t ≠ .closeArray := by
  cases j with
  | unreadable => cases exact
  | number n => exact ⟨_, _, rfl, exact, nofun⟩
  | _ => exact ⟨_, _, rfl, trivial, nofun⟩

theorem foldlM_item {t : Token} (first : t ≠ .closeArray) (ts : List Token) (stack : List Frame) :
    (t :: ts).foldlM step (.item stack) = (t :: ts).foldlM step (.value (.array [] :: stack)) := by
  have same : step (.item stack) t = step (.value (.array [] :: stack)) t := by
    cases t <;> first | rfl | exact absurd rfl first
  simp only [List.foldlM_cons, same]

theorem itemTokens_cons (j k : Json) (js : List Json) :
    itemTokens (j :: k :: js) = j.tokens ++ .comma :: itemTokens (k :: js) := by
  simp [itemTokens]

theorem memberTokens_cons (k : String) (j : Json) (m : String × Json) (ms : List (String × Json)) :
    memberTokens ((k, j) :: m :: ms) =
      .string (some k) :: .colon :: (j.tokens ++ .comma :: memberTokens (m :: ms)) := by
  simp [memberTokens]

mutual

theorem foldlM_tokens {j : Json} (exact : j.Exact) (stack : List Frame) (ts : List Token) :
    (j.tokens ++ ts).foldlM step (.value stack) = ts.foldlM step (.after j stack) := by
  match j with
  | .null | .bool _ | .number _ | .string _ => rfl
  | .array [] => rfl
  | .array (j :: js) =>
    have items_exact : ItemsExact (j :: js) := exact
    have items := foldlM_itemTokens items_exact nofun [] stack ts
    -- After `[` the machine also takes the end of an array, which no item begins with.
    have first : (itemTokens (j :: js) ++ .closeArray :: ts).foldlM step (.item stack) =
        (itemTokens (j :: js) ++ .closeArray :: ts).foldlM step (.value (.array [] :: stack)) := by
      obtain ⟨t, rest, begins, _, opens⟩ := tokens_head exact.1
      cases js <;> simp only [itemTokens, begins, List.cons_append, foldlM_item opens]
    rw [tokens, List.cons_append, List.cons_append, List.append_assoc]
    exact first.trans items
  | .object [] => rfl
  | .object (m :: ms) =>
    have members_exact : MembersExact (m :: ms) := exact
    rw [tokens, List.cons_append, List.cons_append, List.append_assoc]
    exact foldlM_memberTokens members_exact nofun [] true stack ts
  | .unreadable => cases exact

theorem foldlM_itemTokens {js : List Json} (exact : ItemsExact js) (some : js ≠ [])
    (before : List Json) (stack : List Frame) (ts : List Token) :
    (itemTokens js ++ .closeArray :: ts).foldlM step (.value (.array before :: stack)) =
      ts.foldlM step (.after (.array (before.reverse ++ js)) stack) := by
  match js with
  | [] => contradiction
  | [j] =>
    have value := foldlM_tokens exact.1 (.array before :: stack) (.closeArray :: ts)
    refine value.trans ?_
    simp [step]
  | j :: k :: js =>
    have later : ItemsExact (k :: js) := exact.2
    have more := foldlM_itemTokens later nofun (j :: before) stack ts
    have value := foldlM_tokens exact.1 (.array before :: stack)
      (.comma :: (itemTokens (k :: js) ++ .closeArray :: ts))
    rw [List.reverse_cons, List.append_assoc] at more
    rw [itemTokens_cons, List.append_assoc]
    exact value.trans more

theorem foldlM_memberTokens {ms : List (String × Json)} (exact : MembersExact ms) (some : ms ≠ [])
    (before : List (String × Json)) (isFirst : Bool) (stack : List Frame) (ts : List Token) :
    (memberTokens ms ++ .closeObject :: ts).foldlM step (.member (.some before) isFirst stack) =
      ts.foldlM step (.after (.object (before.reverse ++ ms)) stack) := by
  match ms with
  | [] => contradiction
  | [(k, j)] =>
    have value := foldlM_tokens exact.1 (.object (.some before) (.some k) :: stack)
      (.closeObject :: ts)
    refine value.trans ?_
    simp [step, addMember, closed]
  | (k, j) :: m :: ms =>
    have later : MembersExact (m :: ms) := exact.2
    have more := foldlM_memberTokens later nofun ((k, j) :: before) false stack ts
    have value := foldlM_tokens exact.1 (.object (.some before) (.some k) :: stack)
      (.comma :: (memberTokens (m :: ms) ++ .closeObject :: ts))
    rw [List.reverse_cons, List.append_assoc] at more
    rw [memberTokens_cons, List.cons_append, List.cons_append, List.append_assoc]
    exact value.trans more

end

mutual

theorem exact_canonical {j : Json} (exact : j.Exact) : j.canonical.Exact := by
  match j with
  | .number n =>
    rcases n.canonical_cases with same | ⟨m, i, rfl, signed, _⟩
    · rwa [canonical, same]
    · rw [canonical, signed]
      trivial
  | .array js => exact itemsExact_canonical exact
  | .object ms => exact membersExact_canonical exact
  | .null | .bool _ | .string _ | .unreadable => exact exact

theorem itemsExact_canonical {js : List Json} (exact : ItemsExact js) :
    ItemsExact (canonicalItems js) := by
  match js with
  | [] => trivial
  | j :: js => exact ⟨exact_canonical exact.1, itemsExact_canonical exact.2⟩

theorem membersExact_canonical {ms : List (String × Json)} (exact : MembersExact ms) :
    MembersExact (canonicalMembers ms) := by
  match ms with
  | [] => trivial
  | (k, j) :: ms => exact ⟨exact_canonical exact.1, membersExact_canonical exact.2⟩

end

theorem trim_text_ne_nil {j : Json} (exact : j.Exact) : Text.trim j.text.toList ≠ [] := by
  obtain ⟨t, ts, tokens, written, _⟩ := tokens_head exact
  obtain ⟨c, cs, begins, shown⟩ := render_head written
  simp only [text, String.toList_ofList, tokens, List.flatMap_cons, begins, List.cons_append]
  exact Text.trim_cons_ne_nil shown _

theorem parse_text {j : Json} (exact : j.Exact) : parse j.text = some j.canonical := by
  have ends : Ends [] := by simp [Ends]
  have cut := tokenize_tokens exact ends
  have built := foldlM_tokens (exact_canonical exact) [] []
  have nothing : tokenize [] = some [] := by simp [tokenize]
  simp only [List.append_nil, nothing, Option.map_some] at cut built
  simp [parse, text, cut, ofTokens, built, finish]

end EntityQuery.Json
