import EntityQuery.Proofs.Coercion
import EntityQuery.Proofs.Compile
import EntityQuery.Proofs.Like
import EntityQuery.Proofs.Numeric.Numeral

set_option autoImplicit false

namespace EntityQuery

open Text

def Operator.Asks : Operator → List Char → List Char → Prop
  | like, needle, text => needle <:+: text
  | startsWith, needle, text => needle <+: text
  | endsWith, needle, text => needle <:+ text
  | notLike, needle, text => ¬needle <:+: text
  | notStartsWith, needle, text => ¬needle <+: text
  | notEndsWith, needle, text => ¬needle <:+ text
  | _, _, _ => False

def Path.own (name : String) (kind : Kind) : Path :=
  ⟨name, [.member name], kind, false⟩

namespace Clause

variable {p : Path} {op : Operator}

theorem asks_iff (asked : op.isText = true) {needle text : List Char} :
    op.Asks needle text ↔ ((textMode op).Occurs needle text ↔ op.isNegated = false) := by
  cases op <;> simp [Operator.isText] at asked <;>
    simp [Operator.Asks, textMode, Operator.positive, Like.Mode.Occurs, Operator.isNegated]

theorem symbol_of_isText (asked : op.isText = true) :
    ' ' :: op.symbol.toList ++ [' '] = (if op.isNegated then " NOT LIKE " else " LIKE ").toList := by
  cases op <;> first | rfl | cases asked

theorem disregardBlanks_sublist (mode : Like.Mode) (cs : List Char) :
    (disregardBlanks mode cs).Sublist cs := by
  cases mode with
  | anywhere => exact trim_sublist cs
  | atStart => exact List.dropWhile_sublist _
  | atEnd => exact (trimEnd_isPrefix cs).sublist

theorem disregardBlanks_eq_self {cs : List Char} (shown : ∀ c ∈ cs, isBlank c = false)
    (mode : Like.Mode) : disregardBlanks mode cs = cs := by
  have first : ∀ c ∈ cs.head?, isBlank c = false := fun c head => shown c (List.mem_of_mem_head? head)
  have last : ∀ c ∈ cs.getLast?, isBlank c = false :=
    fun c last => shown c (List.mem_of_mem_getLast? last)
  cases mode with
  | anywhere => exact trim_eq_self first last
  | atStart => exact trimStart_eq_self first
  | atEnd => exact trimEnd_eq_self last

theorem compile_text (asked : op.isText = true) (searched : p.kind = .string ∨ p.kind.isNumeric = true)
    {v w : Operand} (coerced : v.coerce p.kind false = .ok w) (given : w.isNull = false) :
    compile p op v =
      .ok ⟨p, op, w, .text (textMode op) w.plainText p.kind.isNumeric op.isNegated⟩ := by
  have kept (k : Kind) : nonNull w k = .ok w := by simp [nonNull, given]
  have prepared : prepare p op v =
      .ok (w, .text (textMode op) w.plainText p.kind.isNumeric op.isNegated) := by
    rw [prepare_of_isText asked, coerced]
    cases kind : p.kind with
    | string | number k =>
      simp only [bind, Except.bind, kept]
      rfl
    | _ => simp [kind, Kind.isNumeric] at searched
  rw [compile_eq, prepared]
  rfl

theorem accepts_text (asked : op.isText = true) {w : Operand} {needle : String} {numeric : Bool}
    {v : Value} {cs : List Char} (text : searchedText numeric v = some cs) :
    accepts ⟨p, op, w, .text (textMode op) needle numeric op.isNegated⟩ v = true ↔
      op.Asks needle.toList (disregardBlanks (textMode op) cs) := by
  rw [asks_iff asked, ← (textMode op).finds_iff]
  simp only [accepts, text]
  cases op.isNegated <;> simp

theorem compile_string (kind : p.kind = .string) (asked : op.isText = true) (n : String) :
    compile p op (.string n) = .ok ⟨p, op, .string n, .text (textMode op) n false op.isNegated⟩ := by
  have fits : (Operand.string n).isOf p.kind = true := by rw [kind]; rfl
  have compiled := compile_text asked (.inl kind) (Operand.coerce_of_isOf fits false) rfl
  rwa [kind] at compiled

/-- A text operator on a string field always compiles, is written without a trim, and its pattern says
what the operator asks of the field as it is. But the blanks at the ends that the operator looks at are
dropped from the field before: a field is decided on as it is if and only if it has none there. -/
theorem accepts_string (kind : p.kind = .string) (asked : op.isText = true) :
    (∀ n : String, ∃ c, compile p op (.string n) = .ok c ∧ c.accepts .null = false ∧
      (c.render = p.selector.toList ++ (if op.isNegated then " NOT LIKE " else " LIKE ").toList ++
        literal ((textMode op).pattern n.toList) ++
        if Like.declaresEscape n.toList then " ESCAPE '\\'".toList else []) ∧
      ∀ s : String,
        ((Like.Matches (Like.declaresEscape n.toList) ((textMode op).pattern n.toList) s.toList ↔
          op.isNegated = false) ↔ op.Asks n.toList s.toList) ∧
        (c.accepts (.string s) = true ↔
          op.Asks n.toList (disregardBlanks (textMode op) s.toList))) ∧
    ∀ s : String, (∀ (n : String) (c : Clause), compile p op (.string n) = .ok c →
      (c.accepts (.string s) = true ↔ op.Asks n.toList s.toList)) ↔
        disregardBlanks (textMode op) s.toList = s.toList := by
  have compiled := compile_string kind asked
  constructor
  next =>
    intro n
    refine ⟨_, compiled n, rfl, ?_, fun s => ⟨?_, accepts_text asked rfl⟩⟩
    · rw [← symbol_of_isText asked]
      simp only [render, renderSearched, Bool.false_eq_true, if_false, List.append_assoc,
        List.cons_append, List.nil_append]
    · rw [asks_iff asked, Like.Mode.matches_pattern_iff]
  next =>
    intro s
    constructor
    next =>
      intro raw
      -- The field itself as the operand: it is looked for in what is left of it.
      have whole := (raw s _ (compiled s)).symm.trans (accepts_text asked rfl)
      rw [asks_iff asked, asks_iff asked] at whole
      have found : (textMode op).Occurs s.toList (disregardBlanks (textMode op) s.toList) := by
        have self := (textMode op).occurs_self s.toList
        tauto
      exact (disregardBlanks_sublist _ _).antisymm found.sublist
    next =>
      intro plain n c given
      cases (compiled n).symm.trans given
      rw [accepts_text asked rfl, plain]

theorem accepts_string_startsWith : ∃ c, compile (.own "name" .string) .startsWith (.string "A") = .ok c ∧
    (c.accepts (.string "Ada ") = true ↔ "A".toList <+: "Ada ".toList) := by
  obtain ⟨always, exactly⟩ := @accepts_string (.own "name" .string) .startsWith rfl rfl
  obtain ⟨c, compiled, -⟩ := always "A"
  exact ⟨c, compiled, (exactly "Ada ").2 (by decide) "A" c compiled⟩

theorem accepts_string_blank : ∃ c, compile (.own "name" .string) .startsWith (.string "A") = .ok c ∧
    c.render = "name LIKE 'A%'".toList ∧ c.accepts (.string " Ada") = true ∧
      ¬"A".toList <+: " Ada".toList :=
  ⟨_, rfl, by decide, by decide, by decide⟩

theorem disregardBlanks_render (mode : Like.Mode) (n : Number) :
    disregardBlanks mode n.render = n.render := by
  have shown : ∀ c ∈ n.render, (!isBlank c) = true :=
    n.render_chars (fun _ digit => by simp [isBlank_of_isDigit digit]) (by decide)
  exact disregardBlanks_eq_self (by simpa using shown) mode

theorem compile_number {k : NumberKind} (kind : p.kind = .number k) (asked : op.isText = true)
    (n : String) : compile p op (.string n) = .ok ⟨p, op, .number (k.coerce n),
      .text (textMode op) (k.coerce n).text true op.isNegated⟩ := by
  have numeric : p.kind.isNumeric = true := by rw [kind]; rfl
  have coerced : (Operand.string n).coerce p.kind false = .ok (.number (k.coerce n)) := by
    rw [kind]
    simp [Operand.coerce, Operand.isNull, Operand.isOf, Operand.plainText]
  have compiled := compile_text asked (.inr numeric) coerced rfl
  rwa [numeric] at compiled

/-- A text operator on a numeric field looks for the text of the number that its operand is coerced
to. Digits become the number that they count, or the one of a floating-point kind that is nearest to
it, and the least number of the kind where the kind does not hold it; so digits are looked for as they
are where they are the text of a number of the kind. -/
theorem accepts_number {k : NumberKind} (kind : p.kind = .number k) (asked : op.isText = true)
    {d : String} (nonempty : d.toList ≠ []) (digits : ∀ c ∈ d.toList, c.isDigit = true) :
    ∃ c, compile p op (.string d) = .ok c ∧
      (∀ x, c.accepts (.number x) = true ↔ op.Asks (k.coerce d).render x.render) ∧
      (k.isFloat = false → (k.coerce d).render =
        if natOf d.toList ≤ k.range.2 then digitsOf (natOf d.toList) else k.minValue.render) ∧
      (k.isFloat = true → k.coerce d =
        if (k.rounded (natOf d.toList)).isFinite then .float (k.rounded (natOf d.toList))
        else k.minValue) ∧
      ∀ y, k.Admits y → y.render = d.toList →
        ∀ x, c.accepts (.number x) = true ↔ op.Asks d.toList x.render := by
  have read := k.coerce_digits digits
  have accepted (x : Number) : accepts ⟨p, op, .number (k.coerce d),
      .text (textMode op) (k.coerce d).text true op.isNegated⟩ (.number x) = true ↔
        op.Asks (k.coerce d).render x.render := by
    have text : searchedText true (.number x) = some x.render := rfl
    rw [accepts_text asked text, disregardBlanks_render, Number.text, String.toList_ofList]
  refine ⟨_, compile_number kind asked d, accepted, fun whole => ?_, fun floating => ?_,
    fun y admitted text x => ?_⟩
  · exact NumberKind.render_coerce_whole whole nonempty digits
  · rw [read, NumberKind.read_rounded floating nonempty digits]
    split <;> rfl
  · have same : k.coerce d = y := by
      rw [← text] at digits
      rw [read, ← text, NumberKind.read_render admitted (Number.isFinite_of_digits digits)]
      rfl
    rw [accepted, same, text]

theorem accepts_number_like :
    ∃ c, compile (.own "age" (.number .uint32)) .like (.string "36") = .ok c ∧
      (c.accepts (.number (.uint 1360)) = true ↔ "36".toList <:+: "1360".toList) := by
  obtain ⟨c, compiled, -, -, -, plain⟩ :=
    @accepts_number (.own "age" (.number .uint32)) .like .uint32 rfl rfl "36" (by decide)
      (List.all_eq_true.1 (by decide))
  exact ⟨c, compiled, plain (.uint 36) ⟨rfl, by decide⟩ (by decide) (.uint 1360)⟩

-- Leading zeros are lost, and so is all of what the kind does not hold.
theorem accepts_number_coerced :
    (∃ c, compile (.own "age" (.number .uint32)) .like (.string "007") = .ok c ∧
      c.accepts (.number (.uint 7)) = true ∧ ¬"007".toList <:+: "7".toList) ∧
    ∃ c, compile (.own "age" (.number .uint8)) .like (.string "256") = .ok c ∧
      c.accepts (.number (.uint 0)) = true ∧ ¬"256".toList <:+: "0".toList :=
  ⟨⟨_, rfl, by decide, by decide⟩, _, rfl, by decide, by decide⟩

end Clause

end EntityQuery
