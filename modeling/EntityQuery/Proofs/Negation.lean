import EntityQuery.Proofs.Compile
import EntityQuery.Proofs.Coercion
import EntityQuery.Proofs.Selector.Conformance

set_option autoImplicit false

namespace EntityQuery

open Resolving (ok_of_bind ok_of_map)

inductive Operator.Negation : Operator → Operator → Prop where
  | equal : Negation .equal .notEqual
  | contains : Negation .contains .notContains
  | like : Negation .like .notLike
  | startsWith : Negation .startsWith .notStartsWith
  | endsWith : Negation .endsWith .notEndsWith
  | isNull : Negation .isNull .isNotNull

inductive Error.Alike (op op' : Operator) : Error → Error → Prop where
  | same (e : Error) : Alike op op' e e
  | unsupported (kind selector : String) :
      Alike op op' (.unsupportedOperator op kind selector) (.unsupportedOperator op' kind selector)
  | notList (selector value : String) :
      Alike op op' (.expectedCollection op selector value) (.expectedCollection op' selector value)

def Test.negated : Test → Test
  | null negate => null !negate
  | equal negate => equal !negate
  | member values negate => member values !negate
  | text mode needle numeric negate => text mode needle numeric !negate
  | order => order

namespace Clause

variable {p : Path} {op op' : Operator} {raw w : Operand} {t : Test} {c : Catalog} {v : Value}
  {nullable : Bool}

inductive Asked (p : Path) (raw : Operand) (op : Operator) : Operand → Test → Prop where
  | null {w : Operand}
      (test : op = .isNull ∨ op = .equal ∧ raw.coerce p.kind p.nullable = .ok .null) :
      Asked p raw op w (.null false)
  | equal {w : Operand} (test : op = .equal) (coerced : raw.coerce p.kind p.nullable = .ok w)
      (given : w.isNull = false) : Asked p raw op w (.equal false)
  | member {values : List Operand} (test : op = .contains) :
      Asked p raw op (.list values) (.member values false)
  | text {w : Operand} {mode : Like.Mode} {needle : String} (test : op.isText = true)
      (searched : p.kind = .string ∨ p.kind.isNumeric = true) :
      Asked p raw op w (.text mode needle p.kind.isNumeric false)

inductive Counterparts (p : Path) (raw : Operand) (op op' : Operator) :
    Except Error (Operand × Test) → Except Error (Operand × Test) → Prop where
  | refused {e e' : Error} (alike : e.Alike op op' e') : Counterparts p raw op op' (.error e) (.error e')
  | prepared {w : Operand} {t : Test} (asked : Asked p raw op w t) :
      Counterparts p raw op op' (.ok (w, t)) (.ok (w, t.negated))

theorem counterparts_equality (p : Path) (raw : Operand) :
    Counterparts p raw .equal .notEqual (prepare p .equal raw) (prepare p .notEqual raw) := by
  rw [prepare_of_equality (.inl rfl), prepare_of_equality (.inr rfl)]
  cases coerced : raw.coerce p.kind p.nullable with
  | error e => exact .refused (.same e)
  | ok w =>
    simp only [bind, Except.bind]
    by_cases null : w.isNull = true
    next =>
      rw [if_pos null, if_pos null]
      exact .prepared (.null (.inr ⟨rfl, Operand.eq_null_of_isNull null ▸ coerced⟩))
    next =>
      rw [if_neg null, if_neg null]
      cases kind : p.kind with
      | entity r => exact .refused (.unsupported _ _)
      | _ => exact .prepared (.equal rfl coerced (by simpa using null))

theorem counterparts_membership (p : Path) (raw : Operand) :
    Counterparts p raw .contains .notContains (prepare p .contains raw)
      (prepare p .notContains raw) := by
  rw [prepare_of_isMembership rfl, prepare_of_isMembership rfl]
  split
  next =>
    cases raw.coerceMembers? p.kind with
    | none => exact .refused (.notList _ _)
    | some items =>
      cases items with
      | error e => exact .refused (.same e)
      | ok values => exact .prepared (.member rfl)
  next => exact .refused (.unsupported _ _)

theorem counterparts_text (pair : op.Negation op') (asked : op.isText = true) (p : Path)
    (raw : Operand) : Counterparts p raw op op' (prepare p op raw) (prepare p op' raw) := by
  obtain ⟨asked', mode, plain, negated⟩ : op'.isText = true ∧ textMode op' = textMode op ∧
      op.isNegated = false ∧ op'.isNegated = true := by
    cases pair <;> first | exact ⟨rfl, rfl, rfl, rfl⟩ | cases asked
  rw [prepare_of_isText asked, prepare_of_isText asked', mode, plain, negated]
  -- On every kind that can be searched the operand is settled in the same two steps.
  simp only [← bind_assoc]
  cases (raw.coerce p.kind false >>= fun w => nonNull w p.kind) with
  | error e =>
    split
    next => exact .refused (.same e)
    next => exact .refused (.same e)
    next => exact .refused (.unsupported _ _)
  | ok w =>
    split
    next kind => exact .prepared (.text asked (.inl kind))
    next kind => exact .prepared (.text asked (.inr (by rw [kind]; rfl)))
    next => exact .refused (.unsupported _ _)

theorem counterparts (pair : op.Negation op') (p : Path) (raw : Operand) :
    Counterparts p raw op op' (prepare p op raw) (prepare p op' raw) := by
  cases pair with
  | equal => exact counterparts_equality p raw
  | contains => exact counterparts_membership p raw
  | like => exact counterparts_text .like rfl p raw
  | startsWith => exact counterparts_text .startsWith rfl p raw
  | endsWith => exact counterparts_text .endsWith rfl p raw
  | isNull => exact .prepared (.null (.inl rfl))

theorem searchedText_of_conforms (searched : p.kind = .string ∨ p.kind.isNumeric = true)
    (conforms : v.Conforms c p.kind nullable) (present : v ≠ .null) :
    ∃ cs, searchedText p.kind.isNumeric v = some cs := by
  cases kind : p.kind with
  | string =>
    rw [kind] at conforms
    cases conforms with
    | null => contradiction
    | string => exact ⟨_, rfl⟩
  | number k =>
    rw [kind] at conforms
    cases conforms with
    | null => contradiction
    | number => exact ⟨_, rfl⟩
  | _ => simp [kind, Kind.isNumeric] at searched

theorem accepts_negated (asked : Asked p raw op w t) (conforms : v.Conforms c p.kind nullable)
    (present : v ≠ .null) : accepts ⟨p, op', w, t.negated⟩ v = !accepts ⟨p, op, w, t⟩ v := by
  have shown := Value.isNull_eq_false_iff.2 present
  cases asked with
  | null | equal | member => simp [accepts, Test.negated, shown]
  | text _ searched =>
    obtain ⟨cs, text⟩ := searchedText_of_conforms searched conforms present
    simp [accepts, Test.negated, text]

theorem accepts_null_iff (asked : Asked p raw op w t) : accepts ⟨p, op, w, t⟩ .null = true ↔
    op = .isNull ∨ op = .equal ∧ raw.coerce p.kind p.nullable = .ok .null := by
  cases asked with
  | null test => exact iff_of_true rfl test
  | equal test coerced given =>
    refine iff_of_false (by simp [accepts, Value.isNull]) ?_
    rintro (other | ⟨-, null⟩)
    · cases test.symm.trans other
    · cases coerced.symm.trans null
      cases given
  | member test => exact iff_of_false (by simp [accepts, Value.isNull]) (by simp [test])
  | text test =>
    refine iff_of_false (by simp [accepts, searchedText]) ?_
    rintro (rfl | ⟨rfl, -⟩) <;> cases test

theorem not_accepts_null (asked : Asked p raw op w t) :
    accepts ⟨p, op', w, t.negated⟩ .null = false := by
  cases asked <;> rfl

theorem order_of_isOrdering (asked : op.isOrdering = true) (prepared : prepare p op raw = .ok (w, t)) :
    t = .order := by
  rw [prepare_of_isOrdering asked] at prepared
  split at prepared
  iterate 3
    next =>
      obtain ⟨a, -, prepared⟩ := ok_of_bind prepared
      obtain ⟨b, -, prepared⟩ := ok_of_bind prepared
      cases prepared
      rfl
  next => cases prepared

theorem ordering_not_accepts_null (asked : op.isOrdering = true) {d : Clause}
    (compiled : compile p op raw = .ok d) : d.accepts .null = false := by
  rw [compile_eq] at compiled
  obtain ⟨⟨w, t⟩, prepared, rfl⟩ := ok_of_map compiled
  rw [order_of_isOrdering asked prepared]
  rfl

/-- An operator and its negation both compile, or are refused alike. On values of the kind of the field
they are complements; null is accepted by neither, unless the operator tests for null, as equality
does where its operand comes to null. The ordering operators never accept null. -/
theorem accepts_negation (p : Path) (raw : Operand) :
    (∀ op op' : Operator, op.Negation op' →
      (∃ e e', compile p op raw = .error e ∧ compile p op' raw = .error e' ∧ e.Alike op op' e') ∨
      ∃ d d', compile p op raw = .ok d ∧ compile p op' raw = .ok d' ∧
        (∀ (c : Catalog) (v : Value) (nullable : Bool), v.Conforms c p.kind nullable → v ≠ .null →
          (d'.accepts v = true ↔ ¬d.accepts v = true)) ∧
        (d.accepts .null = true ↔
          op = .isNull ∨ op = .equal ∧ raw.coerce p.kind p.nullable = .ok .null) ∧
        d'.accepts .null = false) ∧
    ∀ op : Operator, op.isOrdering = true → ∀ d, compile p op raw = .ok d →
      d.accepts .null = false := by
  refine ⟨fun op op' pair => ?_, fun op asked d compiled => ordering_not_accepts_null asked compiled⟩
  have alike := counterparts pair p raw
  rw [compile_eq, compile_eq]
  generalize prepare p op raw = result, prepare p op' raw = result' at alike ⊢
  cases alike with
  | refused alike => exact .inl ⟨_, _, rfl, rfl, alike⟩
  | prepared asked =>
    refine .inr ⟨_, _, rfl, rfl, fun c v nullable conforms present => ?_, accepts_null_iff asked,
      not_accepts_null asked⟩
    rw [accepts_negated asked conforms present]
    simp

theorem accepts_negation_verified :
    let verified : Path := ⟨"verified", [.member "verified"], .bool, true⟩
    let ages : Path := ⟨"ages", [.member "ages"], .collection (.number .float64), false⟩
    let given : Operand := .list [.string "36", .null]
    let held : Value := .list [.number (.float .nan), .null]
    -- Blank text is null here, so that equality tests for null.
    (∃ d d', compile verified .equal (.string " ") = .ok d ∧
      compile verified .notEqual (.string " ") = .ok d' ∧ d.accepts .null = true ∧
      d'.accepts .null = false) ∧
    (∃ d d', compile ages .equal given = .ok d ∧ compile ages .notEqual given = .ok d' ∧
      (d'.accepts held = true ↔ ¬d.accepts held = true)) ∧
    ∃ e e', compile ages .contains given = .error e ∧ compile ages .notContains given = .error e' ∧
      e.Alike .contains .notContains e' := by
  intro verified ages given held
  have conforms : held.Conforms .people ages.kind ages.nullable := by
    refine .list fun v member => ?_
    obtain rfl | rfl : v = .number (.float .nan) ∨ v = .null := by simpa using member
    · exact .number rfl
    · exact .null
  refine ⟨?_, ?_, ?_⟩
  · rcases (accepts_negation verified (.string " ")).1 _ _ .equal with ⟨e, e', failed, -, -⟩ |
      ⟨d, d', compiled, compiled', -, null, not_null⟩
    · cases failed
    · exact ⟨d, d', compiled, compiled', null.2 (.inr ⟨rfl, rfl⟩), not_null⟩
  · rcases (accepts_negation ages given).1 _ _ .equal with ⟨e, e', failed, -, -⟩ |
      ⟨d, d', compiled, compiled', complement, -, -⟩
    · cases failed
    · exact ⟨d, d', compiled, compiled', complement .people held false conforms nofun⟩
  · rcases (accepts_negation ages given).1 _ _ .contains with refused | ⟨d, d', compiled, -⟩
    · exact refused
    · cases compiled

end Clause

end EntityQuery
