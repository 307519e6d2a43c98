import EntityQuery.Proofs.Comparison
import EntityQuery.Proofs.Numeric.Typing

set_option autoImplicit false

namespace EntityQuery

def Operator.relations : List Operator :=
  .notEqual :: Operator.comparisons

namespace Clause

variable {p : Path} {op : Operator} {k : NumberKind} {n m x : Number}

theorem compile_relation (kind : p.kind = .number k) (asked : op ∈ Operator.relations) {raw : Operand}
    (given : raw.isNull = false) :
    compile p op raw = comparing p op <$> raw.coerce p.kind p.nullable := by
  have ordered : p.kind.isOrdered = true := by rw [kind]; rfl
  rcases List.mem_cons.1 asked with rfl | compares
  next =>
    rw [compile_equality (.inr rfl) (Kind.isScalar_of_isOrdered ordered)]
    cases coerced : raw.coerce p.kind p.nullable with
    | error e => rfl
    | ok w =>
      have present := Operand.isNull_of_coerce (Kind.ne_bool_of_isOrdered ordered) given coerced
      simp [present, comparing, Operator.isOrdering]
  next => exact compile_comparison compares ordered given

theorem compile_typed (kind : p.kind = .number k) (asked : op ∈ Operator.relations) (n : Number) :
    compile p op (.number n) = .ok (comparing p op (.number n)) := by
  rw [compile_relation kind asked rfl, kind, Operand.coerce_of_isOf rfl]
  rfl

theorem compile_textual (kind : p.kind = .number k) (asked : op ∈ Operator.relations)
    (finite : n.IsFinite) (read : k.read n.render = some m) :
    compile p op (.string n.text) = .ok (comparing p op (.number m)) := by
  obtain ⟨negative, body, d, spelled⟩ := Number.exists_spelled finite
  have coerced : k.coerce n.text = m := by rw [k.coerce_spelled spelled, read]; rfl
  rw [compile_relation kind asked rfl, kind]
  simp [Operand.coerce, Operand.isNull, Operand.isOf, Operand.plainText, coerced]

theorem accepts_congr (asked : op ∈ Operator.relations) (same : x.compare n = x.compare m) :
    (comparing p op (.number n)).accepts (.number x) = (comparing p op (.number m)).accepts (.number x) := by
  rcases List.mem_cons.1 asked with rfl | compares
  next =>
    have decided (n : Number) : (comparing p .notEqual (.number n)).accepts (.number x) =
        ((x.compare n == some .eq) != true) :=
      @accepts_equality p .notEqual (.number x) (.number n) (by simp) true
    rw [decided, decided, same]
  next =>
    rw [accepts_comparing compares (.number x n), accepts_comparing compares (.number x m)]
    simp only [orderAgainst, same]

theorem accepts_equal_iff : (comparing p .equal (.number n)).accepts (.number x) = true ↔
    x.compare n = some .eq := by
  have decided : (comparing p .equal (.number n)).accepts (.number x) =
      ((x.compare n == some .eq) != false) :=
    @accepts_equality p .equal (.number x) (.number n) (by simp) false
  rw [decided]
  simp

/-- Compared with a number, or with the text of it, a field decides the same on all numbers of its kind if
and only if the kind keeps the number. It does where the text counts less than `2 ^ 53`. -/
theorem accepts_typed (kind : p.kind = .number k) (finite : n.IsFinite) (read : k.read n.render = some m) :
    ∃ typed textual : Operator → Clause,
      (∀ op ∈ Operator.relations, compile p op (.number n) = .ok (typed op) ∧
        compile p op (.string n.text) = .ok (textual op)) ∧
      ((∀ op ∈ Operator.relations, ∀ x, k.Admits x →
        (typed op).accepts (.number x) = (textual op).accepts (.number x)) ↔ k.Keeps n) ∧
      ∀ i, m.whole? = some i → i.natAbs < 2 ^ 53 → k.Keeps n := by
  refine ⟨fun op => comparing p op (.number n), fun op => comparing p op (.number m),
    fun op asked => ⟨compile_typed kind asked n, compile_textual kind asked finite read⟩, ?_,
    fun i word small => NumberKind.keeps_of_small finite read word small⟩
  constructor
  · intro agree
    refine NumberKind.keeps_of_ties finite read fun x admitted => ?_
    rw [← accepts_equal_iff (p := p), ← accepts_equal_iff (p := p), agree .equal (by decide) x admitted]
  · intro keeps op asked x admitted
    exact accepts_congr asked (keeps.compare_eq finite read admitted)

theorem accepts_typed_age :
    let age : Path := ⟨"age", [.member "age"], .number .uint32, false⟩
    let thirty : Number := .float (.ofInt 30)
    ∃ typed textual : Operator → Clause,
      (∀ op ∈ Operator.relations, compile age op (.number thirty) = .ok (typed op) ∧
        compile age op (.string thirty.text) = .ok (textual op)) ∧
      NumberKind.uint32.Keeps thirty ∧
      (typed .lessThan).accepts (.number (.uint 7)) = (textual .lessThan).accepts (.number (.uint 7)) := by
  intro age thirty
  have read : NumberKind.uint32.read thirty.render = some (.uint 30) := by decide +kernel
  obtain ⟨typed, textual, compiled, same, small⟩ := @accepts_typed age .uint32 thirty _ rfl rfl read
  have keeps := small 30 rfl (by decide)
  exact ⟨typed, textual, compiled, keeps, same.2 keeps .lessThan (by decide) _ ⟨rfl, by decide⟩⟩

-- Of the words on both sides of `2 ^ 53` the number equals both, while its text is one of them.
theorem accepts_typed_conflated :
    let serial : Path := ⟨"serial", [.member "serial"], .number .int64, false⟩
    let n : Number := .float (.ofInt 9007199254740992)
    let x : Number := .int 9007199254740993
    n.IsFinite ∧ NumberKind.int64.read n.render = some (.int 9007199254740992) ∧
      NumberKind.int64.Admits x ∧
      ∃ typed textual : Clause, compile serial .equal (.number n) = .ok typed ∧
        compile serial .equal (.string n.text) = .ok textual ∧
        typed.accepts (.number x) = true ∧ textual.accepts (.number x) = false := by
  intro serial n x
  have finite : n.IsFinite := rfl
  have read : NumberKind.int64.read n.render = some (.int 9007199254740992) := by decide +kernel
  refine ⟨finite, read, ⟨rfl, by decide⟩, _, _, compile_typed rfl (by decide) n,
    compile_textual rfl (by decide) finite read, accepts_equal_iff.2 (by decide), ?_⟩
  rw [← Bool.not_eq_true, accepts_equal_iff]
  decide

end Clause

end EntityQuery
